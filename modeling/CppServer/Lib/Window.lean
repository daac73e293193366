/-
# Counting in a window of time

A circular buffer has a number for each of the latest instants, the newest one at its back.
Events come with their times, mostly of the newest instant, some of a later one, which moves the
window, and some of an earlier one.  As long as the window only moves forward, the number of an
instant in it is what all events at that instant weigh, whatever order they came in.
-/
import Mathlib.Algebra.BigOperators.Group.List.Basic
import Mathlib.Algebra.Order.Ring.Int
import Mathlib.Tactic.Abel
import CppServer.Lib.CircularBuffer

namespace CppServer.Window

variable {ι α : Type} [AddCommMonoid α] (time : ι → ℤ) (weight : ι → α)

/-- What the events at an instant weigh. -/
def sumAt (hist : List ι) (t : ℤ) : α := ((hist.filter fun x => time x = t).map weight).sum

/-- What the events from an instant on weigh. -/
def sumFrom (hist : List ι) (t : ℤ) : α := ((hist.filter fun x => t ≤ time x).map weight).sum

/-- The numbers of a buffer whose back stands for the instant `last`. -/
def Tracks (hist : List ι) (last : ℤ) (b : CircularBuffer α) : Prop :=
  ∀ k c, b.fromBack k = some c → c = sumAt time weight hist (last - k)

variable {time weight} {hist : List ι} {last t : ℤ} {b : CircularBuffer α} {x : ι}

lemma sumAt_snoc (hist : List ι) (x : ι) (t : ℤ) : sumAt time weight (hist ++ [x]) t =
    sumAt time weight hist t + if time x = t then weight x else 0 := by
  by_cases h : time x = t
  · simp [sumAt, List.filter_append, h]
  · simp [sumAt, List.filter_append, h]

lemma sumAt_of_lt (h : ∀ x ∈ hist, time x ≤ last) (hlt : last < t) :
    sumAt time weight hist t = 0 := by
  have hnone : (hist.filter fun x => time x = t) = [] := by
    rw [List.filter_eq_nil_iff]
    intro x hx heq
    have hle := h x hx
    have htime : time x = t := of_decide_eq_true heq
    omega
  rw [sumAt, hnone]
  rfl

/-- The next instant begins with nothing. -/
lemma Tracks.push (h : Tracks time weight hist last b) (hpos : 0 < b.capacity)
    (hle : ∀ x ∈ hist, time x ≤ last) :
    Tracks time weight hist (last + 1) (b.push_back 0) := by
  intro k c hc
  rw [CircularBuffer.fromBack_push_back b hpos] at hc
  split_ifs at hc with h0 hk
  · subst h0
    obtain rfl := Option.some.inj hc
    rw [sumAt_of_lt hle (by omega)]
  · rw [h (k - 1) c hc]
    congr 1
    omega

/-- A window begins with an instant behind all events. -/
lemma Tracks.start (hpos : 0 < b.capacity) (hlt : ∀ x ∈ hist, time x < last) :
    Tracks time weight hist last (b.clear.push_back 0) := by
  have hempty : Tracks time weight hist (last - 1) b.clear := fun k c hc => by
    simp [CircularBuffer.fromBack, CircularBuffer.clear] at hc
  have hpush := hempty.push hpos fun x hx => by
    have hx' := hlt x hx
    omega
  rwa [Int.sub_add_cancel] at hpush

/-- An event is added to the number of its instant. -/
lemma Tracks.add (h : Tracks time weight hist last b) {i : ℕ}
    (hi : time x = last - b.elems.length + 1 + i) :
    Tracks time weight (hist ++ [x]) last (b.modifyAt i (· + weight x)) := by
  intro k c hc
  rw [CircularBuffer.fromBack_modifyAt] at hc
  rw [sumAt_snoc]
  split_ifs at hc with hk
  · obtain ⟨c', hc', rfl⟩ := Option.map_eq_some_iff.mp hc
    rw [h k c' hc', if_pos (by omega)]
  · rw [h k c hc, if_neg (by omega), add_zero]

/-- An event in front of the window is left out. -/
lemma Tracks.leave (h : Tracks time weight hist last b) (hlt : time x < last - b.elems.length + 1) :
    Tracks time weight (hist ++ [x]) last b := by
  intro k c hc
  have hk : k < b.elems.length := by
    have hlen := (List.getElem?_eq_some_iff.mp hc).1
    rwa [List.length_reverse] at hlen
  rw [sumAt_snoc, h k c hc, if_neg (by omega), add_zero]

/-- The numbers in the order of the buffer. -/
lemma Tracks.eq_sumAt (h : Tracks time weight hist last b) {i : ℕ} {c : α}
    (hc : b.elems[i]? = some c) :
    c = sumAt time weight hist (last - b.elems.length + 1 + i) := by
  have hi : i < b.elems.length := (List.getElem?_eq_some_iff.mp hc).1
  have hback : b.fromBack (b.elems.length - 1 - i) = some c := by
    rw [CircularBuffer.fromBack, List.getElem?_reverse (by omega), ← hc]
    congr 1
    omega
  rw [h _ c hback]
  congr 1
  omega

/-! ## The sum of the window -/

lemma sumFrom_eq (hist : List ι) (t : ℤ) :
    sumFrom time weight hist t = sumFrom time weight hist (t + 1) + sumAt time weight hist t := by
  induction hist with
  | nil => simp [sumFrom, sumAt]
  | cons x hist ih =>
    simp only [sumFrom, sumAt, List.filter_cons] at ih ⊢
    rcases lt_trichotomy (time x) t with hlt | heq | hgt
    · rw [if_neg (by simpa using hlt), if_neg (by simp; omega), if_neg (by simp; omega)]
      exact ih
    · rw [if_pos (by simp; omega), if_neg (by simp; omega), if_pos (by simpa using heq)]
      simp only [List.map_cons, List.sum_cons, ih]
      abel
    · rw [if_pos (by simp; omega), if_pos (by simp; omega), if_neg (by simp; omega)]
      simp only [List.map_cons, List.sum_cons, ih]
      abel

/-- The numbers of the window together weigh what all its events weigh. -/
lemma Tracks.sum_elems (h : Tracks time weight hist last b) (hle : ∀ x ∈ hist, time x ≤ last) :
    b.elems.sum = sumFrom time weight hist (last - b.elems.length + 1) := by
  have hrev : b.elems.reverse =
      (List.range b.elems.length).map fun k : ℕ => sumAt time weight hist (last - k) := by
    refine List.ext_getElem (by simp) fun k hk hk' => ?_
    rw [List.getElem_map, List.getElem_range]
    exact h k _ (List.getElem?_eq_getElem hk)
  -- the instants are added one by one, from the newest on
  have hsum : ∀ n : ℕ, ((List.range n).map fun k : ℕ => sumAt time weight hist (last - k)).sum =
      sumFrom time weight hist (last - n + 1) := by
    intro n
    induction n with
    | zero =>
      have hnone : (hist.filter fun x => last - ((0 : ℕ) : ℤ) + 1 ≤ time x) = [] := by
        rw [List.filter_eq_nil_iff]
        intro x hx hge
        have hx' := hle x hx
        have hge' : last - ((0 : ℕ) : ℤ) + 1 ≤ time x := of_decide_eq_true hge
        omega
      rw [sumFrom, hnone]
      rfl
    | succ n ih =>
      have hstep : last - ((n + 1 : ℕ) : ℤ) + 1 = last - n := by omega
      rw [List.range_succ, List.map_append, List.sum_append, ih, hstep,
        sumFrom_eq hist (last - n), List.map_singleton, List.sum_singleton]
  rw [← List.sum_reverse, hrev, hsum]

end CppServer.Window
