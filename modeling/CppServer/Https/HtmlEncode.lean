/-
# The HTML encoding as one pass

`HTML::Encode` replaces the characters of the table one after the other, each in the whole
string that the replacements before it left.  The file shows that this is the encoding that
looks at each place once, what the result consists of, and that no two strings have the same
one.
-/
import CppServer.Https.HtmlCodec

namespace CppServer.Html

open Rewrite

/-- The encoding as it is meant: going through the string once, replace a character of the
table by its entity and copy every other byte. -/
def encodeOnePass (s : Bytes) : Bytes := subst encodings s

/-- The replacements of entities, with that of the ampersand. -/
def decodings : List (Rule UInt8) := codes.map Row.decoding

/-- The ampersand stands only in front of an entity. -/
lemma amp_not_mem_tail {q : Rule UInt8} (hq : q ∈ encodings) : 0x26 ∉ q.dst.tail := by
  obtain ⟨row, -, rfl⟩ := List.mem_map.mp hq
  intro hmem
  exact ne_of_isLead_of_isName isLead_amp (List.all_eq_true.mp row.dst_name _ hmem) rfl

/-- Only the ampersand is left of the characters of the table. -/
lemma not_infix_encode {row : Row} (hrow : row ∈ otherRows) (s : Bytes) :
    ¬ row.src <:+: subst encodings s := by
  refine not_infix_subst (r := row.encoding) (List.mem_map_of_mem (List.mem_cons_of_mem _ hrow)) ?_ s
  intro q hq
  obtain ⟨q, -, rfl⟩ := List.mem_map.mp hq
  exact ⟨independent_encoding q row, avoidsHead_dst q row (otherRows_head row hrow)⟩

/-- Replacing all entities in one pass undoes the encoding. -/
lemma subst_decodings_encodings (s : Bytes) : subst decodings (subst encodings s) = s := by
  have hfree : PrefixFree decodings := by
    refine prefixFree_of_pairwise ?_
    rw [decodings, List.pairwise_map]
    exact codes_incomparable
  have hind : ∀ q ∈ encodings, ∀ r ∈ decodings, Independent q r := by
    intro q hq r hr
    obtain ⟨row, -, rfl⟩ := List.mem_map.mp hq
    obtain ⟨row', -, rfl⟩ := List.mem_map.mp hr
    exact independent_encoding_decoding row row'
  have hout : ∀ q ∈ encodings, ∀ s, subst decodings (q.dst ++ s) =
      q.src ++ subst decodings s := by
    intro q hq s
    obtain ⟨row, hrow, rfl⟩ := List.mem_map.mp hq
    exact subst_append_of_prefixFree (r := row.decoding) hfree (List.mem_map_of_mem hrow) s
  -- an entity begins with the ampersand, which is a character of the table
  have hdead : ∀ r ∈ decodings, ∃ q ∈ encodings.map (Rule.withDst Rule.src), q.src <+: r.src := by
    intro r hr
    obtain ⟨row, -, rfl⟩ := List.mem_map.mp hr
    obtain ⟨name, hdst, -⟩ := row.exists_dst
    refine ⟨ampRow.encoding.withDst Rule.src, List.mem_map_of_mem (by simp [encodings, codes_eq]), ?_⟩
    show ascii "&" <+: row.dst
    rw [hdst]
    exact ⟨name, rfl⟩
  -- what is left are the characters of the table, each replaced by itself
  have hident := subst_ident_append (I := encodings.map (Rule.withDst Rule.src)) (R := [])
    (fun i hi => by obtain ⟨q, -, rfl⟩ := List.mem_map.mp hi; rfl)
    (fun _ _ _ hr => absurd hr (by simp)) s
  rw [subst_subst Rule.src hind hout, subst_append_dead hdead, ← List.append_nil (List.map _ _),
    hident]
  exact subst_of_not_infix (by simp)

/-- **The encoding is one pass.**  For every string the replacements one after the other give
what one pass over the string gives; the result has no character of the table but the
ampersand, each ampersand in it begins an entity, and different strings have different
results. -/
theorem encode_eq_onePass :
    (∀ s, encode s = encodeOnePass s ∧
      (∀ row ∈ codes, row.src ≠ ascii "&" → ¬ row.src <:+: encode s) ∧
      ∀ u v, encode s = u ++ 0x26 :: v → ∃ row ∈ codes, row.dst <+: 0x26 :: v) ∧
    Function.Injective encode := by
  constructor
  · intro s
    simp only [encode_eq_subst, encodeOnePass, true_and]
    constructor
    · intro row hrow hne
      exact not_infix_encode (mem_otherRows hrow hne) s
    · intro u v heq
      have hamp : ampRow.encoding ∈ encodings := List.mem_map_of_mem (by simp [codes_eq])
      obtain ⟨q, hq, hpre⟩ :=
        dst_prefix_of_subst_eq hamp rfl (fun q hq => amp_not_mem_tail hq) heq
      obtain ⟨row, hrow, rfl⟩ := List.mem_map.mp hq
      exact ⟨row, hrow, hpre⟩
  · -- the pass that replaces the entities gives the string back
    intro s s' heq
    rw [← subst_decodings_encodings s, ← subst_decodings_encodings s', ← encode_eq_subst,
      ← encode_eq_subst, heq]

end CppServer.Html
