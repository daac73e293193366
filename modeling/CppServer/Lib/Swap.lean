/-
# Writing places of a list

Exchanging two elements of an array permutes it.  Writing other values to the two places
permutes it exactly when the two new values are the two old ones in some order, which is
what `set_set_perm_iff` says.  A list of writes to different places leaves every other place
alone (`exists_scatter`).
-/
import Mathlib.Data.List.Perm.Basic

namespace CppServer

variable {α β : Type*}

/-- Writing one place takes one occurrence of the old value out and puts one of the new
value in. -/
lemma count_set_add [DecidableEq α] {l : List α} {i : ℕ} (hi : i < l.length) (x z : α) :
    (l.set i x).count z + [l[i]].count z = l.count z + [x].count z := by
  have hle : [l[i]].count z ≤ l.count z := by
    refine List.Sublist.count_le z ?_
    simp
  have hset := List.count_set (a := x) (b := z) hi
  simp only [List.count_singleton] at hle ⊢
  omega

/-- Two values written to two places leave a permutation exactly when they permute the
values that stood there. -/
lemma set_set_perm_iff {l : List α} {i j : ℕ} (hi : i < l.length) (hj : j < l.length)
    (hij : i ≠ j) (x y : α) :
    ((l.set i x).set j y).Perm l ↔ [x, y].Perm [l[i], l[j]] := by
  classical
  have hj' : j < (l.set i x).length := by simpa using hj
  have hold : (l.set i x)[j] = l[j] := List.getElem_set_of_ne hij x hj'
  -- how often a value occurs before and after, without subtraction
  have hcount : ∀ z, ((l.set i x).set j y).count z + [l[i], l[j]].count z =
      l.count z + [x, y].count z := by
    intro z
    have h₁ := count_set_add hi x z
    have h₂ := count_set_add hj' y z
    rw [hold] at h₂
    rw [← List.singleton_append, ← List.singleton_append (x := x), List.count_append,
      List.count_append]
    omega
  rw [List.perm_iff_count, List.perm_iff_count]
  constructor
  · intro h z
    have := h z
    have := hcount z
    omega
  · intro h z
    have := h z
    have := hcount z
    omega

/-- `std::swap(l[i], l[j])`. -/
def swapAt (l : List α) (i j : ℕ) : List α :=
  match l[i]?, l[j]? with
  | some x, some y => (l.set i y).set j x
  | _, _ => l

lemma swapAt_of_lt {l : List α} {i j : ℕ} (hi : i < l.length) (hj : j < l.length) :
    swapAt l i j = (l.set i l[j]).set j l[i] := by
  simp [swapAt, hi, hj]

@[simp] lemma length_swapAt (l : List α) (i j : ℕ) : (swapAt l i j).length = l.length := by
  unfold swapAt
  split <;> simp

lemma swapAt_perm (l : List α) (i j : ℕ) : (swapAt l i j).Perm l := by
  unfold swapAt
  split
  · rename_i x y hx hy
    obtain ⟨hi, rfl⟩ := List.getElem?_eq_some_iff.mp hx
    obtain ⟨hj, rfl⟩ := List.getElem?_eq_some_iff.mp hy
    by_cases hij : i = j
    · subst hij
      simp
    · exact (set_set_perm_iff hi hj hij _ _).mpr (List.Perm.swap _ _ _)
  · exact List.Perm.refl _

lemma zip_set (l : List α) (m : List β) (i : ℕ) (x : α) (y : β) :
    (l.set i x).zip (m.set i y) = (l.zip m).set i (x, y) := by
  induction l generalizing m i with
  | nil => simp
  | cons a l ih =>
    cases m with
    | nil => simp
    | cons b m =>
      cases i with
      | zero => simp
      | succ i => simp [ih]

/-- Two lists whose elements are exchanged at the same places keep their pairs. -/
lemma zip_swapAt {l : List α} {m : List β} {i j : ℕ} (hlen : l.length = m.length)
    (hi : i < l.length) (hj : j < l.length) :
    (swapAt l i j).zip (swapAt m i j) = swapAt (l.zip m) i j := by
  rw [swapAt_of_lt hi hj, swapAt_of_lt (hlen ▸ hi) (hlen ▸ hj),
    swapAt_of_lt (by simp [← hlen, hi]) (by simp [← hlen, hj]), zip_set, zip_set]
  simp

/-! ## Writes to several places -/

/-- `l[i] = x`, which needs a place `i`. -/
def storeAt (l : List α) (i : ℕ) (x : α) : Option (List α) :=
  if i < l.length then some (l.set i x) else none

/-- The writes `l[i] = x` for the pairs `(i, x)`, one after the other. -/
def scatter (l : List α) (writes : List (ℕ × α)) : Option (List α) :=
  writes.foldlM (fun l p => storeAt l p.1 p.2) l

/-- Writes to different places that all exist are performed, each place keeps what was written
to it, and every other place keeps what it held. -/
lemma exists_scatter {l : List α} {writes : List (ℕ × α)} (hlt : ∀ p ∈ writes, p.1 < l.length)
    (hnodup : (writes.map Prod.fst).Nodup) :
    ∃ l', scatter l writes = some l' ∧ l'.length = l.length ∧
      (∀ p ∈ writes, l'[p.1]? = some p.2) ∧ ∀ k ∉ writes.map Prod.fst, l'[k]? = l[k]? := by
  induction writes generalizing l with
  | nil => exact ⟨l, rfl, rfl, by simp, fun k _ => rfl⟩
  | cons p writes ih =>
    have hp : p.1 < l.length := hlt p (by simp)
    obtain ⟨hfresh, hnodup⟩ := List.nodup_cons.mp hnodup
    obtain ⟨l', hrest, hlen, hwritten, hkept⟩ :=
      ih (l := l.set p.1 p.2) (fun q hq => by simpa using hlt q (by simp [hq])) hnodup
    refine ⟨l', ?_, by simpa using hlen, ?_, ?_⟩
    · rw [scatter, List.foldlM_cons, storeAt, if_pos hp]
      exact hrest
    · -- the first place is not written again
      intro q hq
      rcases List.mem_cons.mp hq with rfl | hq
      · rw [hkept _ hfresh, List.getElem?_set_self hp]
      · exact hwritten q hq
    · intro k hk
      obtain ⟨hne, hk⟩ : k ≠ p.1 ∧ k ∉ writes.map Prod.fst := by simpa using hk
      rw [hkept k hk, List.getElem?_set_ne (Ne.symm hne)]

end CppServer
