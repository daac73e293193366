/-
# Weighted choice

Items with natural weights are laid out one after the other on `1, …, total`, each taking as
many numbers as its weight says; a number picks the item it falls on.  Every item is picked
by exactly as many numbers as its weight, in whatever order the items are laid out.
-/
import Mathlib.Algebra.BigOperators.Group.List.Basic
import Mathlib.Data.Int.ConditionallyCompleteOrder
import Mathlib.Data.Int.Interval
import Mathlib.Data.Nat.Count
import Mathlib.Order.ConditionallyCompleteLattice.Basic
import Mathlib.Order.Interval.Finset.Nat

namespace CppServer.Choice

variable {ι : Type*}

/-- The item that the number `r` falls on. -/
def pick : List (ℕ × ι) → ℕ → Option ι
  | [], _ => none
  | (w, i) :: l, r => if r ≤ w then some i else pick l (r - w)

/-- The sum of all weights. -/
def total (l : List (ℕ × ι)) : ℕ := (l.map Prod.fst).sum

@[simp] lemma total_nil : total ([] : List (ℕ × ι)) = 0 := rfl

@[simp] lemma total_cons (w : ℕ) (i : ι) (l : List (ℕ × ι)) :
    total ((w, i) :: l) = w + total l := by
  simp [total]

/-- A number up to the total falls on an item, and not on one of weight zero. -/
lemma exists_pick {l : List (ℕ × ι)} {r : ℕ} (hr : 1 ≤ r) (hle : r ≤ total l) :
    ∃ w i, (w, i) ∈ l ∧ 0 < w ∧ pick l r = some i := by
  induction l generalizing r with
  | nil =>
    rw [total_nil] at hle
    omega
  | cons p l ih =>
    obtain ⟨w, i⟩ := p
    rw [total_cons] at hle
    by_cases hw : r ≤ w
    · exact ⟨w, i, by simp, by omega, by simp [pick, hw]⟩
    · obtain ⟨w', i', hmem, hpos, hpick⟩ := ih (r := r - w) (by omega) (by omega)
      exact ⟨w', i', List.mem_cons_of_mem _ hmem, hpos, by simpa [pick, hw] using hpick⟩

variable [DecidableEq ι]

/-- The weight of an item: the sum over all its occurrences. -/
def weightOf (i : ι) (l : List (ℕ × ι)) : ℕ := total (l.filter fun p => p.2 = i)

@[simp] lemma weightOf_nil (i : ι) : weightOf i ([] : List (ℕ × ι)) = 0 := rfl

lemma weightOf_cons (i k : ι) (w : ℕ) (l : List (ℕ × ι)) :
    weightOf i ((w, k) :: l) = (if k = i then w else 0) + weightOf i l := by
  by_cases h : k = i <;> simp [weightOf, h]

lemma weightOf_perm {l l' : List (ℕ × ι)} (h : l.Perm l') (i : ι) :
    weightOf i l = weightOf i l' :=
  ((h.filter _).map _).sum_eq

/-- An item that does not occur has no weight. -/
lemma weightOf_eq_zero {i : ι} {l : List (ℕ × ι)} (h : i ∉ l.map Prod.snd) :
    weightOf i l = 0 := by
  induction l with
  | nil => rfl
  | cons p l ih =>
    obtain ⟨w, k⟩ := p
    rw [List.map_cons, List.mem_cons, not_or] at h
    rw [weightOf_cons, if_neg (Ne.symm h.1), ih h.2]

lemma weightOf_of_mem {l : List (ℕ × ι)} (hnodup : (l.map Prod.snd).Nodup) {w : ℕ} {i : ι}
    (hmem : (w, i) ∈ l) : weightOf i l = w := by
  induction l with
  | nil => exact absurd hmem (by simp)
  | cons p l ih =>
    obtain ⟨w', k⟩ := p
    obtain ⟨hk, hnodup⟩ := List.nodup_cons.mp hnodup
    rw [weightOf_cons]
    rcases List.mem_cons.mp hmem with heq | hmem
    · obtain ⟨rfl, rfl⟩ : w = w' ∧ i = k := by simpa using heq
      rw [if_pos rfl, weightOf_eq_zero hk, Nat.add_zero]
    · have hne : k ≠ i := by
        rintro rfl
        exact hk (List.mem_map.mpr ⟨(w, k), hmem, rfl⟩)
      rw [if_neg hne, ih hnodup hmem, Nat.zero_add]

/-- **As many numbers pick an item as its weight says.** -/
lemma count_pick (i : ι) (l : List (ℕ × ι)) :
    Nat.count (fun k => pick l (k + 1) = some i) (total l) = weightOf i l := by
  induction l with
  | nil => simp
  | cons p l ih =>
    obtain ⟨w, k⟩ := p
    -- the first `w` numbers pick `k`, the others pick from the rest
    have hfst : Nat.count (fun n => pick ((w, k) :: l) (n + 1) = some i) w =
        if k = i then w else 0 := by
      rw [Nat.count_eq_card_filter_range]
      have hcongr : ∀ n ∈ Finset.range w, (pick ((w, k) :: l) (n + 1) = some i ↔ k = i) := by
        intro n hn
        have hlt : n + 1 ≤ w := Finset.mem_range.mp hn
        simp [pick, hlt]
      rw [Finset.filter_congr hcongr]
      by_cases hk : k = i <;> simp [hk]
    have hsnd : ∀ n, (pick ((w, k) :: l) (w + n + 1) = some i) = (pick l (n + 1) = some i) := by
      intro n
      have hgt : ¬ w + n + 1 ≤ w := by omega
      have hsub : w + n + 1 - w = n + 1 := by omega
      simp [pick, hgt, hsub]
    rw [total_cons, Nat.count_add, hfst, weightOf_cons]
    simp only [hsnd]
    rw [ih]

/-- Counting among the integers from 1 on. -/
lemma card_filter_Icc (p : ℤ → Prop) [DecidablePred p] (n : ℕ) :
    ((Finset.Icc 1 (n : ℤ)).filter p).card = Nat.count (fun k => p (k + 1)) n := by
  induction n with
  | zero => simp
  | succ n ih =>
    have hinsert : Finset.Icc 1 ((n + 1 : ℕ) : ℤ) = insert ((n : ℤ) + 1) (Finset.Icc 1 (n : ℤ)) := by
      ext z
      simp only [Finset.mem_Icc, Finset.mem_insert]
      omega
    rw [hinsert, Finset.filter_insert, Nat.count_succ, ← ih]
    by_cases hp : p (n + 1)
    · rw [if_pos hp, if_pos hp, Finset.card_insert_of_notMem (by simp)]
    · rw [if_neg hp, if_neg hp, Nat.add_zero]

end CppServer.Choice
