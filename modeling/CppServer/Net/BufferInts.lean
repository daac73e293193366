/-
# Integers in a buffer

`appendInt` and `prependInt` write an integer in network order, `readInt` reads it.  The flag `v`
is meant to choose the order of the host instead, and for reading it does.  For writing the
label of the host order falls through to the label of the network order, so both forms are
written, the host form first.
-/
import CppServer.Net.ByteQueue

namespace CppServer.Net

namespace Buffer

section Ints

variable {b : Buffer} {k : ℕ} {q rest : Bytes} {room m : ℕ}

/-- The bytes that `appendInt(x, v)` writes. -/
def intBytes (x : BitVec (8 * k)) (v : Bool) : Bytes :=
  (if v then objBytes x else []) ++ objBytes (byteSwap x)

lemma length_intBytes (x : BitVec (8 * k)) (v : Bool) :
    (intBytes x v).length = if v then 2 * k else k := by
  cases v with
  | false => simp [intBytes]
  | true =>
    simp [intBytes]
    omega

lemma appendObject_keeps (h : Keeps b q room m) (hinit : kCheapPrepend + kInitialSize ≤ m)
    (x : BitVec (8 * k)) (hmax : m + k ≤ maxSize) :
    ∃ b', b.appendObject x = .ok b' ∧ Keeps b' (q ++ objBytes x) room (m + k) := by
  have hsize : (Call.append (objBytes x)).size = k := length_objBytes x
  obtain ⟨b', hb', hkeeps⟩ := perform_keeps (c := .append (objBytes x)) h hinit
    (by rwa [hsize]) rfl rfl
  rw [hsize] at hkeeps
  exact ⟨b', (perform_void.mp hb').2, hkeeps⟩

lemma appendInt_keeps (h : Keeps b q room m) (hinit : kCheapPrepend + kInitialSize ≤ m)
    (x : BitVec (8 * k)) (v : Bool) (hmax : m + (intBytes x v).length ≤ maxSize) :
    ∃ b', b.appendInt x v = .ok b' ∧
      Keeps b' (q ++ intBytes x v) room (m + (intBytes x v).length) := by
  rw [length_intBytes] at hmax ⊢
  cases v with
  | false =>
    obtain ⟨b', hb', hkeeps⟩ := appendObject_keeps h hinit (byteSwap x) (by simpa using hmax)
    exact ⟨b', hb', by simpa [intBytes] using hkeeps⟩
  | true =>
    rw [if_pos rfl] at hmax ⊢
    obtain ⟨b₁, hb₁, hkeeps₁⟩ := appendObject_keeps h hinit x (by omega)
    obtain ⟨b₂, hb₂, hkeeps₂⟩ := appendObject_keeps hkeeps₁ (by omega) (byteSwap x) (by omega)
    refine ⟨b₂, ?_, ?_⟩
    · rw [appendInt, if_pos rfl, hb₁]
      exact hb₂
    · have hsum : m + 2 * k = m + k + k := by omega
      rw [hsum, intBytes, if_pos rfl, ← List.append_assoc]
      exact hkeeps₂

/-- Reading takes the integer off the front. -/
lemma readInt_keeps (y : BitVec (8 * k)) (h : Keeps b (objBytes y ++ rest) room m) (v : Bool) :
    ∃ b' room', b.readInt k v = .ok (if v then y else byteSwap y, b') ∧ Keeps b' rest room' m := by
  have hcontents := h.contents_eq
  have hlen : k ≤ b.contents.length := by
    rw [hcontents, List.length_append, length_objBytes]
    exact Nat.le_add_right _ _
  have hfront : b.contents.take k = objBytes y := by
    rw [hcontents, List.take_append_of_le_length (by simp), List.take_of_length_le (by simp)]
  have hback : b.contents.drop k = rest := by
    rw [hcontents, List.drop_append_of_le_length (by simp), List.drop_of_length_le (by simp),
      List.nil_append]
  obtain ⟨b', hb', hkeeps⟩ := keeps_retrieve (hcontents.symm ▸ h) hlen
  refine ⟨b', _, ?_, hback ▸ hkeeps⟩
  rw [readInt, peekInt, readableBytes_eq h.valid, asserts_bind_of hlen, peek_ok h.valid hlen, hb',
    hfront, ok_bind, ofObjBytes_objBytes]
  rfl

/-- `prependInt` needs room for what it writes: the network form, and with the flag the host
form behind it. -/
lemma prependInt_ok (h : Valid b) (x : BitVec (8 * k)) (v : Bool)
    (hroom : (if v then 2 * k else k) ≤ b.readerIndex_) :
    ∃ b', b.prependInt x v = .ok b' ∧ Valid b' ∧
      b'.contents = objBytes (byteSwap x) ++ (if v then objBytes x else []) ++ b.contents := by
  cases v with
  | false =>
    have hfit : (objBytes (byteSwap x)).length ≤ b.readerIndex_ := by simpa using hroom
    obtain ⟨b', hb', hres⟩ := prepend_ok h hfit
    exact ⟨b', hb', hres.valid, by simpa using hres.contents_eq⟩
  | true =>
    rw [if_pos rfl] at hroom
    have hfit₁ : (objBytes x).length ≤ b.readerIndex_ := by
      rw [length_objBytes]
      omega
    obtain ⟨b₁, hb₁, hres₁⟩ := prepend_ok h hfit₁
    have hfit₂ : (objBytes (byteSwap x)).length ≤ b₁.readerIndex_ := by
      have hroom₁ := hres₁.cheap_le
      rw [length_objBytes] at hroom₁ ⊢
      omega
    obtain ⟨b₂, hb₂, hres₂⟩ := prepend_ok hres₁.valid hfit₂
    refine ⟨b₂, ?_, hres₂.valid, ?_⟩
    · rw [prependInt, if_pos rfl, prependObject, hb₁]
      exact hb₂
    · rw [hres₂.contents_eq, hres₁.contents_eq, if_pos rfl, List.append_assoc]

lemma prependInt_assertion (h : Valid b) (x : BitVec (8 * k)) (v : Bool)
    (hroom : ¬ (if v then 2 * k else k) ≤ b.readerIndex_) :
    b.prependInt x v = .error .assertion := by
  cases v with
  | false => exact prepend_assertion (by simpa using hroom)
  | true =>
    rw [if_pos rfl] at hroom
    rw [prependInt, if_pos rfl, prependObject]
    by_cases hfirst : k ≤ b.readerIndex_
    · have hfit : (objBytes x).length ≤ b.readerIndex_ := by simpa using hfirst
      obtain ⟨b₁, hb₁, hres₁⟩ := prepend_ok h hfit
      have hreader := prepend_readerIndex h hb₁
      rw [length_objBytes] at hreader
      rw [hb₁]
      exact prepend_assertion (by rw [length_objBytes]; omega)
    · rw [prepend_assertion (by simpa using hfirst)]
      rfl

/-- **What `prependInt` does for every width.**  It returns exactly when the bytes it writes fit
in front of the contents, and then the network form stands first.  With the flag it needs twice
the room, so that `prependInt64(x, true)` stops in every buffer without free bytes in front. -/
theorem prependInt_outcome (h : Valid b) (x : BitVec (8 * k)) (v : Bool) :
    ((∃ b', b.prependInt x v = .ok b') ↔ (if v then 2 * k else k) ≤ b.readerIndex_) ∧
    ∀ b', b.prependInt x v = .ok b' → Valid b' ∧
      b'.contents = (objBytes x).reverse ++ (if v then objBytes x else []) ++ b.contents ∧
      ∃ b'', b'.readInt k false = .ok (x, b'') ∧
        b''.contents = (if v then objBytes x else []) ++ b.contents := by
  have hok : ∀ b', b.prependInt x v = .ok b' → (if v then 2 * k else k) ≤ b.readerIndex_ ∧ Valid b' ∧
      b'.contents = objBytes (byteSwap x) ++ (if v then objBytes x else []) ++ b.contents := by
    intro b' hb'
    by_cases hroom : (if v then 2 * k else k) ≤ b.readerIndex_
    · have hres := of_eq_ok (prependInt_ok h x v hroom) hb'
      exact ⟨hroom, hres⟩
    · exact absurd (hb'.symm.trans (prependInt_assertion h x v hroom)) (by simp)
  refine ⟨⟨fun ⟨b', hb'⟩ => (hok b' hb').1, fun hroom => ?_⟩, fun b' hb' => ?_⟩
  · obtain ⟨b', hb', -⟩ := prependInt_ok h x v hroom
    exact ⟨b', hb'⟩
  · obtain ⟨-, hvalid, hcontents⟩ := hok b' hb'
    rw [List.append_assoc] at hcontents
    have hkeeps : Keeps b' (objBytes (byteSwap x) ++ ((if v then objBytes x else []) ++ b.contents))
        0 (kCheapPrepend + b'.buffer_.length) := by
      refine ⟨hvalid, hcontents, Nat.zero_le _, Nat.le_add_left _ _, ?_⟩
      have hcount := reader_add_length hvalid
      have hw := hvalid.writer_le
      rw [← hcontents]
      omega
    obtain ⟨b'', room', hb'', hkeeps'⟩ := readInt_keeps (byteSwap x) hkeeps false
    refine ⟨hvalid, ?_, b'', ?_, hkeeps'.contents_eq⟩
    · rw [hcontents, objBytes_byteSwap, List.append_assoc]
    · simpa using hb''

/-- With the flag an `int64_t` needs sixteen bytes in front, and a new buffer has eight; an
`int32_t` fits, and both forms stand in front. -/
theorem prependInt_outcome_fresh : (¬ ∃ b', (fresh 4).prependInt64 7 true = .ok b') ∧
    ∃ b', (fresh 4).prependInt32 0x01020304 true = .ok b' ∧
      b'.contents = [1, 2, 3, 4, 4, 3, 2, 1] := by
  have hfresh : Result (fresh 4) [] kCheapPrepend (kCheapPrepend + 4) := result_fresh (by decide)
  refine ⟨(prependInt_outcome (k := 8) hfresh.valid 7 true).1.not.mpr (by decide), ?_⟩
  obtain ⟨hreturns, hfront⟩ := prependInt_outcome (k := 4) hfresh.valid 0x01020304 true
  obtain ⟨b', hb'⟩ := hreturns.mpr (by decide)
  refine ⟨b', hb', (hfront b' hb').2.1.trans ?_⟩
  rw [hfresh.contents_eq]
  decide

end Ints

/-! ## Several integers -/

/-- An integer of `k` bytes. -/
abbrev IntValue := (k : ℕ) × BitVec (8 * k)

/-- The integers are appended one after the other, each with its flag. -/
def appendInts (b : Buffer) : List (IntValue × Bool) → Except Stop Buffer
  | [] => .ok b
  | (x, v) :: fields => do
    let b' ← b.appendInt x.2 v
    b'.appendInts fields

/-- Integers of the given widths are read one after the other, each with its flag. -/
def readInts (b : Buffer) : List (ℕ × Bool) → Except Stop (List IntValue × Buffer)
  | [] => .ok ([], b)
  | (k, v) :: reads => do
    let (x, b₁) ← b.readInt k v
    let (xs, b₂) ← b₁.readInts reads
    return (⟨k, x⟩ :: xs, b₂)

/-- The calls that read back what `appendInt(x, v)` wrote. -/
def readsOf (field : IntValue × Bool) : List (ℕ × Bool) :=
  if field.2 then [(field.1.1, true), (field.1.1, false)] else [(field.1.1, false)]

/-- The integers that these calls return. -/
def valuesOf (field : IntValue × Bool) : List IntValue :=
  if field.2 then [field.1, field.1] else [field.1]

/-- The bytes of the fields. -/
def fieldBytes (fields : List (IntValue × Bool)) : Bytes :=
  fields.flatMap fun f => intBytes f.1.2 f.2

section Fields

variable {b : Buffer} {q rest : Bytes} {room m : ℕ} {fields : List (IntValue × Bool)}

lemma appendInts_keeps (h : Keeps b q room m) (hinit : kCheapPrepend + kInitialSize ≤ m)
    (hmax : m + (fieldBytes fields).length ≤ maxSize) :
    ∃ b', b.appendInts fields = .ok b' ∧
      Keeps b' (q ++ fieldBytes fields) room (m + (fieldBytes fields).length) := by
  induction fields generalizing b q m with
  | nil => exact ⟨b, rfl, by simpa [fieldBytes] using h⟩
  | cons f fields ih =>
    obtain ⟨x, v⟩ := f
    have hcons : fieldBytes ((x, v) :: fields) = intBytes x.2 v ++ fieldBytes fields := rfl
    rw [hcons, List.length_append, ← Nat.add_assoc] at hmax ⊢
    obtain ⟨b₁, hb₁, hkeeps₁⟩ := appendInt_keeps h hinit x.2 v (by omega)
    obtain ⟨b₂, hb₂, hkeeps₂⟩ := ih hkeeps₁ (by omega) hmax
    refine ⟨b₂, ?_, by rwa [List.append_assoc] at hkeeps₂⟩
    rw [appendInts, hb₁]
    exact hb₂

lemma readInts_cons {k : ℕ} {v : Bool} {x : BitVec (8 * k)} {reads : List (ℕ × Bool)}
    {xs : List IntValue} {b₁ b₂ : Buffer} (h₁ : b.readInt k v = .ok (x, b₁))
    (h₂ : b₁.readInts reads = .ok (xs, b₂)) :
    b.readInts ((k, v) :: reads) = .ok (⟨k, x⟩ :: xs, b₂) := by
  rw [readInts, h₁]
  show b₁.readInts reads >>= _ = _
  rw [h₂]
  rfl

lemma readInts_keeps (h : Keeps b (fieldBytes fields ++ rest) room m) :
    ∃ b' room', b.readInts (fields.flatMap readsOf) = .ok (fields.flatMap valuesOf, b') ∧
      Keeps b' rest room' m := by
  induction fields generalizing b room with
  | nil => exact ⟨b, room, rfl, h⟩
  | cons f fields ih =>
    obtain ⟨⟨k, x⟩, v⟩ := f
    have hcons : fieldBytes ((⟨k, x⟩, v) :: fields) = intBytes x v ++ fieldBytes fields := rfl
    rw [hcons, List.append_assoc] at h
    cases v with
    | false =>
      obtain ⟨b₁, room₁, hb₁, hkeeps₁⟩ := readInt_keeps (byteSwap x) h false
      obtain ⟨b₂, room₂, hb₂, hkeeps₂⟩ := ih hkeeps₁
      rw [byteSwap_byteSwap] at hb₁
      exact ⟨b₂, room₂, readInts_cons hb₁ hb₂, hkeeps₂⟩
    | true =>
      rw [intBytes, if_pos rfl, List.append_assoc] at h
      obtain ⟨b₁, room₁, hb₁, hkeeps₁⟩ := readInt_keeps x h true
      obtain ⟨b₂, room₂, hb₂, hkeeps₂⟩ := readInt_keeps (byteSwap x) hkeeps₁ false
      obtain ⟨b₃, room₃, hb₃, hkeeps₃⟩ := ih hkeeps₂
      rw [byteSwap_byteSwap] at hb₂
      exact ⟨b₃, room₃, readInts_cons hb₁ (readInts_cons hb₂ hb₃), hkeeps₃⟩

/-- **Round trip of integers.**  Integers of any widths that are appended to an empty buffer, and
that fit into a vector, stand there one after the other and are read back.  An integer that was
appended with the flag stands there twice and is read twice, in the order of the host and then in
network order. -/
theorem readInts_appendInts (h : Valid b) (hempty : b.contents = [])
    (hmax : max b.buffer_.length (kCheapPrepend + kInitialSize) + (fieldBytes fields).length ≤
      maxSize) :
    ∃ b₁ b₂, b.appendInts fields = .ok b₁ ∧ b₁.contents = fieldBytes fields ∧
      b₁.readInts (fields.flatMap readsOf) = .ok (fields.flatMap valuesOf, b₂) ∧
      b₂.contents = [] := by
  have hkeeps : Keeps b [] 0 (max b.buffer_.length (kCheapPrepend + kInitialSize)) :=
    ⟨h, hempty, Nat.zero_le _, Nat.le_max_left _ _, by rw [List.length_nil]; omega⟩
  obtain ⟨b₁, hb₁, hkeeps₁⟩ := appendInts_keeps hkeeps (Nat.le_max_right _ _) hmax
  have hcontents : b₁.contents = fieldBytes fields := hkeeps₁.contents_eq
  rw [List.nil_append, ← List.append_nil (fieldBytes fields)] at hkeeps₁
  obtain ⟨b₂, room', hb₂, hkeeps₂⟩ := readInts_keeps hkeeps₁
  exact ⟨b₁, b₂, hb₁, hcontents, hb₂, hkeeps₂.contents_eq⟩

/-- A length in network order and a number with the flag. -/
theorem readInts_appendInts_fresh : ∃ b₁ b₂,
    (fresh 4).appendInts [(⟨4, 258⟩, false), (⟨2, 772⟩, true)] = .ok b₁ ∧
      b₁.contents = [0, 0, 1, 2, 4, 3, 3, 4] ∧
      b₁.readInts [(4, false), (2, true), (2, false)] = .ok ([⟨4, 258⟩, ⟨2, 772⟩, ⟨2, 772⟩], b₂) ∧
      b₂.contents = [] := by
  have hfresh : Result (fresh 4) [] kCheapPrepend (kCheapPrepend + 4) := result_fresh (by decide)
  obtain ⟨b₁, b₂, hb₁, hcontents, hb₂, hrest⟩ := @readInts_appendInts (fresh 4)
    [(⟨4, 258⟩, false), (⟨2, 772⟩, true)] hfresh.valid hfresh.contents_eq (by decide)
  exact ⟨b₁, b₂, hb₁, hcontents.trans (by decide), hb₂, hrest⟩

end Fields

end Buffer

end CppServer.Net
