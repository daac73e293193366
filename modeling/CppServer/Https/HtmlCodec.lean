/-
# The HTML codec

`HTML::Encode` and `HTML::Decode` of `thirdpart/https/htmlcodec.h`.  Both go through the table
`codes` from its first row to its last and replace all occurrences, one row after the other.
The first row is the one of the ampersand.  For the encoding that is the right order; the
decoding turns `&amp;` into `&` before it looks for the other entities, so that an ampersand
that was encoded may become the beginning of an entity.

Strings are lists of bytes, and `boost::replace_all` is one pass of `CppServer.Lib.Rewrite`.
-/
import CppServer.Lib.Bytes
import CppServer.Lib.Rewrite

namespace CppServer.Html

open Rewrite

/-- The bytes of the name of an entity, with the semicolon behind it. -/
def isName (b : UInt8) : Bool := b = 0x3B || 0x41 ≤ b && b ≤ 0x5A || 0x61 ≤ b && b ≤ 0x7A

/-- The bytes of a UTF-8 sequence behind its first one. -/
def isContinuation (b : UInt8) : Bool := 0x80 ≤ b && b < 0xC0

/-- The first byte of a source. -/
def isLead (b : UInt8) : Bool := !isName b && !isContinuation b

/-- `replace_t`: a character and its entity, an ampersand with a name behind it. -/
structure Row where
  src : Bytes
  dst : Bytes
  src_lead : src.head?.any isLead = true := by decide
  src_tail : src.tail.all isContinuation = true := by decide
  dst_amp : dst.head? = some 0x26 := by decide
  dst_name : dst.tail.all isName = true := by decide

/-- The active rows of `codes`.  Sources that are not ASCII are written as their UTF-8 bytes. -/
def codes : List Row :=
  [{ src := ascii "&", dst := ascii "&amp;" },
   { src := ascii "<", dst := ascii "&lt;" },
   { src := ascii ">", dst := ascii "&gt;" },
   { src := ascii "\"", dst := ascii "&quot;" },
   { src := ascii "'", dst := ascii "&apos;" },
   { src := ascii " ", dst := ascii "&nbsp;" },
   { src := [0xC2, 0xA9], dst := ascii "&copy;" },
   { src := [0xE2, 0x80, 0xB2], dst := ascii "&prime;" },
   { src := [0xE2, 0x80, 0xB3], dst := ascii "&Prime;" },
   { src := [0xE2, 0x88, 0x92], dst := ascii "&minus;" },
   { src := [0xC3, 0xB7], dst := ascii "&divide;" },
   { src := [0xE2, 0x88, 0xA7], dst := ascii "&and;" },
   { src := [0xE2, 0x88, 0xA8], dst := ascii "&or;" },
   { src := [0xE2, 0x8A, 0xA5], dst := ascii "&perp;" },
   { src := [0xE2, 0x80, 0x93], dst := ascii "&ndash;" },
   { src := [0xE2, 0x80, 0x94], dst := ascii "&mdash;" },
   { src := [0xE2, 0x80, 0x98], dst := ascii "&lsquo;" },
   { src := [0xE2, 0x80, 0x99], dst := ascii "&rsquo;" },
   { src := [0xE2, 0x80, 0x9A], dst := ascii "&sbquo;" },
   { src := [0xE2, 0x80, 0x9C], dst := ascii "&ldquo;" },
   { src := [0xE2, 0x80, 0x9D], dst := ascii "&rdquo;" },
   { src := [0xE2, 0x80, 0x9E], dst := ascii "&bdquo;" }]

namespace Row

variable (row : Row)

lemma exists_src : ∃ h t, row.src = h :: t ∧ isLead h = true ∧ t.all isContinuation = true := by
  have hlead := row.src_lead
  have htail := row.src_tail
  cases hsrc : row.src with
  | nil => simp [hsrc] at hlead
  | cons h t => exact ⟨h, t, rfl, by simpa [hsrc] using hlead, by simpa [hsrc] using htail⟩

lemma exists_dst : ∃ name, row.dst = 0x26 :: name ∧ name.all isName = true := by
  have hamp := row.dst_amp
  have hname := row.dst_name
  cases hdst : row.dst with
  | nil => simp [hdst] at hamp
  | cons h name =>
    obtain rfl : h = 0x26 := by simpa [hdst] using hamp
    exact ⟨name, rfl, by simpa [hdst] using hname⟩

lemma src_ne : row.src ≠ [] := by
  obtain ⟨h, t, hsrc, -⟩ := row.exists_src
  simp [hsrc]

lemma dst_ne : row.dst ≠ [] := by
  obtain ⟨name, hdst, -⟩ := row.exists_dst
  simp [hdst]

end Row

/-- The replacement that `Encode` makes for a row. -/
def Row.encoding (row : Row) : Rule UInt8 := ⟨row.src, row.dst, row.src_ne⟩

/-- The replacement that `Decode` makes for a row. -/
def Row.decoding (row : Row) : Rule UInt8 := ⟨row.dst, row.src, row.dst_ne⟩

/-- `boost::replace_all`. -/
def replaceAll (rs : Bytes) (rule : Rule UInt8) : Bytes := subst [rule] rs

/-- `HTML::Encode`. -/
def encode (s : Bytes) : Bytes := codes.foldl (fun rs row => replaceAll rs row.encoding) s

/-- `HTML::Decode`. -/
def decode (s : Bytes) : Bytes := codes.foldl (fun rs row => replaceAll rs row.decoding) s

/-- The row of the ampersand. -/
def ampRow : Row := { src := ascii "&", dst := ascii "&amp;" }

/-- The rows behind that of the ampersand. -/
def otherRows : List Row := codes.tail

lemma codes_eq : codes = ampRow :: otherRows := rfl

lemma mem_otherRows {row : Row} (hrow : row ∈ codes) (hne : row.src ≠ ascii "&") :
    row ∈ otherRows := by
  rcases List.mem_cons.mp hrow with rfl | hrow
  · exact absurd rfl hne
  · exact hrow

/-! ## Why the rows do not interfere

The three classes of bytes (first bytes of sources, continuation bytes and names) are
disjoint, and the ampersand is a first byte.  So a source never begins inside a source or an
entity, and an entity never inside a source of another row or behind its own beginning. -/

section Rows

variable (q r : Row)

lemma isLead_amp : isLead 0x26 = true := by decide

lemma ne_of_isLead_of_isContinuation {b c : UInt8} (hb : isLead b = true)
    (hc : isContinuation c = true) : b ≠ c := by
  rintro rfl
  simp [isLead, hc] at hb

lemma ne_of_isLead_of_isName {b c : UInt8} (hb : isLead b = true) (hc : isName c = true) :
    b ≠ c := by
  rintro rfl
  simp [isLead, hc] at hb

/-- Replacements of characters do not interfere. -/
lemma independent_encoding : Independent q.encoding r.encoding := by
  obtain ⟨hq, tq, hsrc, hlead, -⟩ := q.exists_src
  obtain ⟨name, hdst, -⟩ := q.exists_dst
  have htail : ∀ b ∈ r.encoding.src.tail, isContinuation b = true :=
    List.all_eq_true.mp r.src_tail
  refine ⟨fun b hb heq => ?_, fun b hb heq => ?_, q.dst_ne⟩
  · obtain rfl : hq = b := by simpa [Row.encoding, hsrc] using heq
    exact ne_of_isLead_of_isContinuation hlead (htail _ hb) rfl
  · obtain rfl : 0x26 = b := by simpa [Row.encoding, hdst] using heq
    exact ne_of_isLead_of_isContinuation isLead_amp (htail _ hb) rfl

/-- Neither do replacements of entities, -/
lemma independent_decoding : Independent q.decoding r.decoding := by
  obtain ⟨hq, tq, hsrc, hlead, -⟩ := q.exists_src
  obtain ⟨name, hdst, -⟩ := q.exists_dst
  have htail : ∀ b ∈ r.decoding.src.tail, isName b = true := List.all_eq_true.mp r.dst_name
  refine ⟨fun b hb heq => ?_, fun b hb heq => ?_, q.src_ne⟩
  · obtain rfl : 0x26 = b := by simpa [Row.decoding, hdst] using heq
    exact ne_of_isLead_of_isName isLead_amp (htail _ hb) rfl
  · obtain rfl : hq = b := by simpa [Row.decoding, hsrc] using heq
    exact ne_of_isLead_of_isName hlead (htail _ hb) rfl

/-- nor a replacement of a character with that of an entity. -/
lemma independent_encoding_decoding : Independent q.encoding r.decoding := by
  obtain ⟨h₁, h₂, -⟩ := independent_decoding q r
  exact ⟨h₂, h₁, q.dst_ne⟩

/-- An entity is not touched by the encoding of another character than the ampersand. -/
lemma avoidsHead_dst (hr : r.src.head? ≠ some 0x26) : AvoidsHead q.dst r.encoding := by
  obtain ⟨h, t, hsrc, hlead, -⟩ := r.exists_src
  obtain ⟨name, hdst, hname⟩ := q.exists_dst
  intro b hb heq
  obtain rfl : h = b := by simpa [Row.encoding, hsrc] using heq
  rw [hdst] at hb
  rcases List.mem_cons.mp hb with rfl | hb
  · exact hr (by rw [hsrc]; rfl)
  · exact ne_of_isLead_of_isName hlead (List.all_eq_true.mp hname _ hb) rfl

/-- A character other than the ampersand is not touched by the decoding. -/
lemma avoidsHead_src (hq : q.src.head? ≠ some 0x26) : AvoidsHead q.src r.decoding := by
  obtain ⟨h, t, hsrc, -, htail⟩ := q.exists_src
  intro b hb heq
  obtain rfl : 0x26 = b := by simpa [Row.decoding, r.dst_amp] using heq
  rw [hsrc] at hb
  rcases List.mem_cons.mp hb with rfl | hb
  · exact hq (by rw [hsrc]; rfl)
  · exact ne_of_isLead_of_isContinuation isLead_amp (List.all_eq_true.mp htail _ hb) rfl

/-- No entity begins inside another one. -/
lemma avoidsHead_name : AvoidsHead q.dst.tail r.decoding := by
  intro b hb heq
  obtain rfl : 0x26 = b := by simpa [Row.decoding, r.dst_amp] using heq
  exact ne_of_isLead_of_isName isLead_amp (List.all_eq_true.mp q.dst_name _ hb) rfl

end Rows

/-- Only the first row is about the ampersand. -/
lemma otherRows_head : ∀ row ∈ otherRows, row.src.head? ≠ some 0x26 := by
  decide +kernel

/-- The entities can be told apart. -/
lemma codes_incomparable : codes.Pairwise fun q r => ¬ q.dst <+: r.dst ∧ ¬ r.dst <+: q.dst := by
  decide +kernel

lemma codes_shorten : ∀ row ∈ codes, row.src.length < row.dst.length := by
  decide +kernel

/-! ## Encoding and decoding as passes -/

/-- The replacements of `Encode`. -/
def encodings : List (Rule UInt8) := codes.map Row.encoding

/-- The replacements of `Encode` without that of the ampersand. -/
def otherEncodings : List (Rule UInt8) := otherRows.map Row.encoding

/-- The replacements of `Decode` without that of the ampersand. -/
def otherDecodings : List (Rule UInt8) := otherRows.map Row.decoding

lemma encodings_pairwise :
    encodings.Pairwise fun q r => Independent q r ∧ AvoidsHead q.dst r := by
  have hrow : ∀ q : Row, ∀ r ∈ otherRows, Independent q.encoding r.encoding ∧
      AvoidsHead q.encoding.dst r.encoding := fun q r hr =>
    ⟨independent_encoding q r, avoidsHead_dst q r (otherRows_head r hr)⟩
  rw [encodings, List.pairwise_map, codes_eq, List.pairwise_cons]
  exact ⟨hrow ampRow, List.pairwise_of_forall_mem_list fun q _ r hr => hrow q r hr⟩

lemma otherDecodings_pairwise :
    otherDecodings.Pairwise fun q r => Independent q r ∧ AvoidsHead q.dst r := by
  rw [otherDecodings, List.pairwise_map]
  refine List.pairwise_of_forall_mem_list fun q hq r _ => ?_
  exact ⟨independent_decoding q r, avoidsHead_src q r (otherRows_head q hq)⟩

lemma otherDecodings_prefixFree : PrefixFree otherDecodings := by
  refine prefixFree_of_pairwise ?_
  rw [otherDecodings, List.pairwise_map]
  have hcodes := codes_incomparable
  rw [codes_eq, List.pairwise_cons] at hcodes
  exact hcodes.2

lemma otherDecodings_shorten : ∀ r ∈ otherDecodings, r.dst.length < r.src.length := by
  intro r hr
  obtain ⟨row, hrow, rfl⟩ := List.mem_map.mp hr
  exact codes_shorten row (List.mem_cons_of_mem _ hrow)

/-- `Encode` is one pass with all rows. -/
lemma encode_eq_subst (s : Bytes) : encode s = subst encodings s := by
  rw [← foldl_subst_singleton encodings encodings_pairwise, encodings, List.foldl_map]
  rfl

/-- `Decode` is a pass for the ampersand and then one pass with all other rows. -/
lemma decode_eq_subst (s : Bytes) :
    decode s = subst otherDecodings (subst [ampRow.decoding] s) := by
  rw [← foldl_subst_singleton otherDecodings otherDecodings_pairwise, otherDecodings,
    List.foldl_map, decode, codes_eq, List.foldl_cons]
  simp only [replaceAll]

/-- The target of a row after the entity of the ampersand was decoded. -/
def ampDecoded (q : Rule UInt8) : Bytes := if q.src = ascii "&" then ascii "&" else q.dst

lemma ampDecoded_of_mem {row : Row} (hrow : row ∈ otherRows) :
    ampDecoded row.encoding = row.dst := by
  refine if_neg fun heq => otherRows_head row hrow ?_
  rw [show row.src = ascii "&" from heq]
  rfl

/-- Decoding the ampersand leaves what an encoding without it would have given. -/
lemma subst_amp_encodings (s : Bytes) :
    subst [ampRow.decoding] (subst encodings s) = subst otherEncodings s := by
  have hind : ∀ q ∈ encodings, ∀ r ∈ [ampRow.decoding], Independent q r := by
    intro q hq r hr
    obtain ⟨row, -, rfl⟩ := List.mem_map.mp hq
    obtain rfl := List.mem_singleton.mp hr
    exact independent_encoding_decoding row ampRow
  have hamp := codes_incomparable
  rw [codes_eq, List.pairwise_cons] at hamp
  have hout : ∀ q ∈ encodings, ∀ s, subst [ampRow.decoding] (q.dst ++ s) =
      ampDecoded q ++ subst [ampRow.decoding] s := by
    intro q hq s
    rcases List.mem_cons.mp hq with rfl | hq
    · refine subst_append_of_prefixFree (r := ampRow.decoding) ?_ (by simp) s
      exact prefixFree_of_pairwise (List.pairwise_singleton _ _)
    · -- another entity is copied
      obtain ⟨row, hrow, rfl⟩ := List.mem_map.mp hq
      have hcopy : subst [ampRow.decoding] (row.dst ++ s) =
          row.dst ++ subst [ampRow.decoding] s := by
        refine subst_append_of_incomparable row.dst_ne (fun r hr => ?_) (fun r hr => ?_) s
        · obtain rfl := List.mem_singleton.mp hr
          exact hamp.1 row hrow
        · obtain rfl := List.mem_singleton.mp hr
          exact avoidsHead_name row ampRow
      rw [ampDecoded_of_mem hrow]
      exact hcopy
  have hmap : encodings.map (Rule.withDst ampDecoded) =
      [⟨ascii "&", ascii "&", ampRow.src_ne⟩] ++ otherEncodings := by
    have hothers : otherEncodings.map (Rule.withDst ampDecoded) = otherEncodings := by
      rw [otherEncodings, List.map_map]
      refine List.map_congr_left fun row hrow => ?_
      show Rule.mk row.src (ampDecoded row.encoding) row.src_ne = row.encoding
      rw [ampDecoded_of_mem hrow]
      rfl
    rw [List.singleton_append, ← hothers]
    rfl
  rw [subst_subst ampDecoded hind hout, hmap, subst_append_dead, subst_ident_append]
  · intro i hi
    obtain rfl := List.mem_singleton.mp hi
    rfl
  · intro i hi r hr b hb
    obtain rfl := List.mem_singleton.mp hi
    obtain ⟨row, hrow, rfl⟩ := List.mem_map.mp hr
    obtain rfl : b = 0x26 := List.mem_singleton.mp hb
    exact otherRows_head row hrow
  · intro r hr
    obtain rfl := List.mem_singleton.mp hr
    exact ⟨⟨ascii "&", ascii "&", ampRow.src_ne⟩, by simp, ⟨ascii "amp;", rfl⟩⟩

/-- Decoding the other rows undoes their encoding, and decodes what was an entity before. -/
lemma subst_otherDecodings_otherEncodings (s : Bytes) :
    subst otherDecodings (subst otherEncodings s) = subst otherDecodings s := by
  have hout : ∀ q ∈ otherEncodings, ∀ s, subst otherDecodings (q.dst ++ s) =
      q.src ++ subst otherDecodings s := by
    intro q hq s
    obtain ⟨row, hrow, rfl⟩ := List.mem_map.mp hq
    exact subst_append_of_prefixFree (r := row.decoding) otherDecodings_prefixFree
      (List.mem_map_of_mem hrow) s
  have hind : ∀ q ∈ otherEncodings, ∀ r ∈ otherDecodings, Independent q r := by
    intro q hq r hr
    obtain ⟨row, -, rfl⟩ := List.mem_map.mp hq
    obtain ⟨row', -, rfl⟩ := List.mem_map.mp hr
    exact independent_encoding_decoding row row'
  rw [subst_subst Rule.src hind hout, subst_ident_append]
  · intro i hi
    obtain ⟨q, -, rfl⟩ := List.mem_map.mp hi
    rfl
  · intro i hi r hr
    obtain ⟨q, hq, rfl⟩ := List.mem_map.mp hi
    obtain ⟨row, hrow, rfl⟩ := List.mem_map.mp hq
    obtain ⟨row', -, rfl⟩ := List.mem_map.mp hr
    exact avoidsHead_src row row' (otherRows_head row hrow)

lemma decode_encode (s : Bytes) : decode (encode s) = subst otherDecodings s := by
  rw [encode_eq_subst, decode_eq_subst, subst_amp_encodings, subst_otherDecodings_otherEncodings]

/-- **When decoding undoes encoding.**  `Decode (Encode s)` is `s` exactly for the strings in
which no entity occurs but possibly that of the ampersand. -/
theorem decode_encode_eq_iff (s : Bytes) :
    decode (encode s) = s ↔ ∀ row ∈ codes, row.src ≠ ascii "&" → ¬ row.dst <:+: s := by
  have hothers : ∀ row ∈ otherRows, row.src ≠ ascii "&" := by
    intro row hrow heq
    refine otherRows_head row hrow ?_
    rw [heq]
    rfl
  rw [decode_encode, subst_eq_self_iff otherDecodings_shorten]
  constructor
  · intro h row hrow hne
    exact h row.decoding (List.mem_map_of_mem (mem_otherRows hrow hne))
  · intro h r hr
    obtain ⟨row, hrow, rfl⟩ := List.mem_map.mp hr
    exact h row (List.mem_cons_of_mem _ hrow) (hothers row hrow)

/-- A text that is about entities is decoded once too often. -/
theorem decode_encode_lt :
    encode (ascii "&lt;") = ascii "&amp;lt;" ∧ decode (encode (ascii "&lt;")) = ascii "<" ∧
      decode (encode (ascii "&lt;")) ≠ ascii "&lt;" := by
  decide +kernel

end CppServer.Html
