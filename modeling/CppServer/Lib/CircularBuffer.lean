/-
# Circular buffers

The part of `boost::circular_buffer` that the timing wheels use, as its documentation
describes it: a default constructed buffer has capacity zero, `resize` appends copies of an
item (raising the capacity when the new size exceeds it) or removes elements at the back,
and `push_back` on a full buffer discards the oldest element.

The lemmas read a full buffer from its newest element on: `fromBack k` is the element that
was pushed `k` pushes ago.
-/
import Mathlib.Data.List.Basic

namespace CppServer

/-- A circular buffer, its elements listed from the oldest to the newest. -/
structure CircularBuffer (α : Type*) where
  /-- The number of elements the buffer can hold. -/
  capacity : ℕ
  /-- The elements, oldest first. -/
  elems : List α
  /-- The buffer never holds more elements than its capacity. -/
  size_le : elems.length ≤ capacity

namespace CircularBuffer

variable {α : Type*}

/-- The default constructed buffer. -/
def empty : CircularBuffer α := ⟨0, [], Nat.le_refl 0⟩

/-- The number of elements in the buffer. -/
def size (b : CircularBuffer α) : ℕ := b.elems.length

/-- `resize(n, item)`. -/
def resize (b : CircularBuffer α) (n : ℕ) (item : α) : CircularBuffer α where
  capacity := max b.capacity n
  elems := b.elems.take n ++ List.replicate (n - b.elems.length) item
  size_le := by
    simp only [List.length_append, List.length_take, List.length_replicate]
    omega

/-- `push_back(x)`: the oldest element makes room in a full buffer, and a buffer of capacity
zero stays empty. -/
def push_back (b : CircularBuffer α) (x : α) : CircularBuffer α where
  capacity := b.capacity
  elems := (b.elems ++ [x]).drop (b.elems.length + 1 - b.capacity)
  size_le := by
    simp only [List.length_drop, List.length_append, List.length_singleton]
    omega

/-- `pop_front()`: the oldest element goes. -/
def pop_front (b : CircularBuffer α) : CircularBuffer α where
  capacity := b.capacity
  elems := b.elems.tail
  size_le := by
    rw [List.length_tail]
    exact Nat.le_trans (Nat.sub_le _ _) b.size_le

/-- An update of the newest element in place, through the reference `back()`. -/
def modifyBack (b : CircularBuffer α) (f : α → α) : CircularBuffer α where
  capacity := b.capacity
  elems := b.elems.modify (b.elems.length - 1) f
  size_le := by
    rw [List.length_modify]
    exact b.size_le

/-- The buffer `circular_buffer(capacity)`. -/
def make (capacity : ℕ) : CircularBuffer α := ⟨capacity, [], Nat.zero_le _⟩

/-- `clear()`: the capacity stays. -/
def clear (b : CircularBuffer α) : CircularBuffer α := ⟨b.capacity, [], Nat.zero_le _⟩

/-- An update of the element at an index, the oldest being at index 0. -/
def modifyAt (b : CircularBuffer α) (i : ℕ) (f : α → α) : CircularBuffer α where
  capacity := b.capacity
  elems := b.elems.modify i f
  size_le := by
    rw [List.length_modify]
    exact b.size_le

/-- The element that was pushed `k` pushes ago. -/
def fromBack (b : CircularBuffer α) (k : ℕ) : Option α := b.elems.reverse[k]?

/-- Every slot of the buffer is in use. -/
def Full (b : CircularBuffer α) : Prop := b.elems.length = b.capacity

/-! ## Sizes -/

lemma full_resize_empty (n : ℕ) (item : α) : (resize empty n item).Full := by
  simp [Full, resize, empty]

@[simp] lemma capacity_resize_empty (n : ℕ) (item : α) :
    (resize empty n item).capacity = n := by
  simp [resize, empty]

lemma Full.push_back {b : CircularBuffer α} (h : b.Full) (x : α) : (b.push_back x).Full := by
  have hlen : b.elems.length = b.capacity := h
  simp only [Full, CircularBuffer.push_back, List.length_drop, List.length_append,
    List.length_singleton]
  omega

lemma Full.modifyBack {b : CircularBuffer α} (h : b.Full) (f : α → α) :
    (b.modifyBack f).Full := by
  simpa [Full, CircularBuffer.modifyBack] using h

/-- A push on a buffer with a free slot keeps all elements. -/
lemma elems_push_back_of_lt {b : CircularBuffer α} (h : b.elems.length < b.capacity) (x : α) :
    (b.push_back x).elems = b.elems ++ [x] := by
  show (b.elems ++ [x]).drop (b.elems.length + 1 - b.capacity) = b.elems ++ [x]
  rw [Nat.sub_eq_zero_of_le h, List.drop_zero]

/-! ## The elements, newest first -/

lemma Full.exists_fromBack {b : CircularBuffer α} (h : b.Full) {k : ℕ} (hk : k < b.capacity) :
    ∃ x, b.fromBack k = some x := by
  have hlen : b.elems.length = b.capacity := h
  exact Option.isSome_iff_exists.mp (by simpa [fromBack, hlen] using hk)

lemma exists_fromBack_iff {b : CircularBuffer α} {P : α → Prop} (hfull : b.Full) :
    (∃ x ∈ b.elems, P x) ↔ ∃ k < b.capacity, ∃ x, b.fromBack k = some x ∧ P x := by
  have hlen : b.elems.length = b.capacity := hfull
  constructor
  · rintro ⟨x, hx, hP⟩
    obtain ⟨k, hk, rfl⟩ := List.getElem_of_mem (List.mem_reverse.mpr hx)
    rw [List.length_reverse, hlen] at hk
    exact ⟨k, hk, _, List.getElem?_eq_getElem _, hP⟩
  · rintro ⟨k, -, x, hx, hP⟩
    exact ⟨x, List.mem_reverse.mp (List.mem_of_getElem? hx), hP⟩

/-- A push on a full buffer drops the oldest element. -/
lemma elems_push_back {b : CircularBuffer α} (h : b.Full) (hpos : 0 < b.capacity) (x : α) :
    (b.push_back x).elems = b.elems.drop 1 ++ [x] := by
  have hlen : b.elems.length = b.capacity := h
  show (b.elems ++ [x]).drop (b.elems.length + 1 - b.capacity) = b.elems.drop 1 ++ [x]
  rw [List.drop_append_of_le_length (by omega), hlen]
  simp

/-- The newest element of a full buffer is the one just pushed. -/
lemma fromBack_push_back_zero {b : CircularBuffer α} (h : b.Full) (hpos : 0 < b.capacity)
    (x : α) : (b.push_back x).fromBack 0 = some x := by
  rw [fromBack, elems_push_back h hpos]
  simp

/-- A push on a full buffer makes every element that stays one push older. -/
lemma fromBack_push_back_succ {b : CircularBuffer α} (h : b.Full) {k : ℕ}
    (hk : k + 1 < b.capacity) (x : α) : (b.push_back x).fromBack (k + 1) = b.fromBack k := by
  have hlen : b.elems.length = b.capacity := h
  rw [fromBack, elems_push_back h (by omega), List.reverse_append, List.reverse_singleton,
    List.singleton_append, List.getElem?_cons_succ, List.reverse_drop, List.getElem?_take,
    if_pos (by omega), fromBack]

/-- A push makes every element one push older, and the capacity is the number of pushes after
which an element is gone. -/
lemma fromBack_push_back (b : CircularBuffer α) (hpos : 0 < b.capacity) (x : α) (k : ℕ) :
    (b.push_back x).fromBack k =
      if k = 0 then some x else if k < b.capacity then b.fromBack (k - 1) else none := by
  have hsize := b.size_le
  have hrev : (b.push_back x).elems.reverse =
      (x :: b.elems.reverse).take (min (b.elems.length + 1) b.capacity) := by
    show ((b.elems ++ [x]).drop (b.elems.length + 1 - b.capacity)).reverse = _
    rw [List.reverse_drop, List.length_append, List.length_singleton, List.reverse_append,
      List.reverse_singleton, List.singleton_append]
    congr 1
    omega
  rw [fromBack, hrev, List.getElem?_take]
  cases k with
  | zero => rw [if_pos (by omega), if_pos rfl, List.getElem?_cons_zero]
  | succ k =>
    rw [if_neg (Nat.succ_ne_zero k), Nat.add_sub_cancel, List.getElem?_cons_succ, fromBack]
    by_cases hk : k + 1 < b.capacity
    · by_cases hlen : k < b.elems.length
      · rw [if_pos (by omega), if_pos hk]
      · rw [if_neg (by omega), if_pos hk, List.getElem?_eq_none (by simpa using hlen)]
    · rw [if_neg (by omega), if_neg hk]

/-- An update reaches the element at its index and no other. -/
lemma fromBack_modifyAt (b : CircularBuffer α) (i : ℕ) (f : α → α) (k : ℕ) :
    (b.modifyAt i f).fromBack k =
      if k + i + 1 = b.elems.length then (b.fromBack k).map f else b.fromBack k := by
  have hlen : (b.modifyAt i f).elems.length = b.elems.length := by simp [modifyAt]
  by_cases hk : k < b.elems.length
  · rw [fromBack, fromBack, List.getElem?_reverse (by rw [hlen]; exact hk),
      List.getElem?_reverse hk, hlen]
    show (b.elems.modify i f)[b.elems.length - 1 - k]? = _
    by_cases hi : i = b.elems.length - 1 - k
    · rw [if_pos (by omega), hi, List.getElem?_modify_eq]
      rfl
    · rw [if_neg (by omega), List.getElem?_modify_ne _ _ hi]
  · have hnone : b.fromBack k = none := List.getElem?_eq_none (by simpa using hk)
    have hnone' : (b.modifyAt i f).fromBack k = none :=
      List.getElem?_eq_none (by simpa [hlen] using hk)
    rw [hnone, hnone']
    simp

/-- The update through `back()` reaches the newest element and no other. -/
lemma fromBack_modifyBack (b : CircularBuffer α) (f : α → α) (k : ℕ) :
    (b.modifyBack f).fromBack k = if k = 0 then (b.fromBack 0).map f else b.fromBack k := by
  have hlen : (b.modifyBack f).elems.length = b.elems.length := by simp [modifyBack]
  by_cases hk : k < b.elems.length
  · rw [fromBack, fromBack, fromBack, List.getElem?_reverse (by rw [hlen]; exact hk),
      List.getElem?_reverse (by omega), List.getElem?_reverse hk, hlen]
    show (b.elems.modify (b.elems.length - 1) f)[b.elems.length - 1 - k]? = _
    by_cases hk0 : k = 0
    · simp [hk0]
    · rw [if_neg hk0, List.getElem?_modify_ne _ _ (by omega)]
  · have hnone : b.fromBack k = none := List.getElem?_eq_none (by simpa using hk)
    have hnone' : (b.modifyBack f).fromBack k = none :=
      List.getElem?_eq_none (by simpa [hlen] using hk)
    by_cases hk0 : k = 0
    · subst hk0
      simp [hnone, hnone']
    · simp [hk0, hnone, hnone']

end CircularBuffer

end CppServer
