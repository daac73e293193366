/-
# Weighted random choice

`STD::WeightImpl` of `thirdpart/Logger/src/rand/impl/StdRandomImpl.h`: `init` stores an array
of weights with the positions they came from, `shuffle` rearranges both, `getResult` draws a
number from `[1, sum_]` and walks over the weights until it is used up, and `recover` writes
the weights back to their positions.

A draw is an argument of the model: `getResult` takes the value that `rand_` yields, and a
`shuffle` takes one value for each turn of its loop.  The file follows the pairs of weight
and position through any number of shuffles and compares `getResult` with
`CppServer.Lib.Choice`.
-/
import Mathlib.Algebra.Order.BigOperators.Group.List
import Mathlib.Algebra.Order.Ring.Int
import CppServer.Lib.Choice
import CppServer.Lib.Run
import CppServer.Lib.Swap

namespace CppServer.Rand

/-- The `param_type` of a distribution: it yields values from `a` to `b`. -/
structure Range (α : Type) where
  a : α
  b : α

/-- `RandomImpl`, without the engines. -/
structure RandomImpl where
  iValue_ : Range Int32
  iValue64_ : Range Int64
  fValue_ : Range Float32

namespace RandomImpl

/-- The default constructor. -/
def make : RandomImpl where
  iValue_ := ⟨0, Int32.maxValue⟩
  iValue64_ := ⟨0, Int64.maxValue⟩
  fValue_ := ⟨0, 1⟩

/-- `betweenInt(a, b)`. -/
def betweenInt (x : RandomImpl) (a b : Int32) : RandomImpl := { x with iValue_ := ⟨a, b⟩ }

/-- `betweenInt64(a, b)`. -/
def betweenInt64 (x : RandomImpl) (a b : Int64) : RandomImpl := { x with iValue64_ := ⟨a, b⟩ }

/-- `betweenFloat(a, b)`. -/
def betweenFloat (x : RandomImpl) (a b : Float32) : RandomImpl := { x with fValue_ := ⟨a, b⟩ }

/-- The values that `randInt_mt` can yield. -/
def randInt_mt (x : RandomImpl) (r : Int32) : Prop := x.iValue_.a ≤ r ∧ r ≤ x.iValue_.b

instance (x : RandomImpl) (r : Int32) : Decidable (x.randInt_mt r) :=
  inferInstanceAs (Decidable (_ ∧ _))

end RandomImpl

/-- `WeightImpl`. -/
structure WeightImpl where
  rand_ : RandomImpl
  sum_ : Int32
  weight_ : List Int32
  indxId_ : List ℕ

/-- The outcomes of the draws of one `shuffle`: the one of the turn `i` is from 0 to `i`. -/
abbrev Draws := (i : ℕ) → Fin (i + 1)

/-- `std::vector::resize`. -/
def resize {α : Type} (l : List α) (n : ℕ) (x : α) : List α :=
  l.take n ++ List.replicate (n - l.length) x

namespace WeightImpl

/-- The default constructor. -/
def make : WeightImpl := ⟨.make, 0, [], []⟩

/-- The body of the loop of `init`. -/
def initAt (weight : List Int32) (w : WeightImpl) (i : ℕ) : WeightImpl :=
  { w with
    weight_ := w.weight_.set i (weight.getD i 0)
    indxId_ := w.indxId_.set i i
    sum_ := w.sum_ + weight.getD i 0 }

/-- `WeightImpl::init`, on the array `weight`. -/
def init (ndebug : Bool) (w : WeightImpl) (weight : List Int32) : Option WeightImpl := do
  let w := { w with
    indxId_ := resize w.indxId_ weight.length 0
    weight_ := resize w.weight_ weight.length 0
    sum_ := 0 }
  let w := (List.range w.weight_.length).foldl (initAt weight) w
  cassert ndebug (1 ≤ w.sum_)
  return { w with rand_ := w.rand_.betweenInt 1 w.sum_ }

/-- The loop of `shuffle` from the turn `i` down to the turn 1. -/
def shuffleFrom (d : Draws) : ℕ → WeightImpl → WeightImpl
  | 0, w => w
  | i + 1, w => shuffleFrom d i { w with
      weight_ := swapAt w.weight_ (i + 1) (d (i + 1))
      indxId_ := swapAt w.indxId_ (i + 1) (d (i + 1)) }

/-- `WeightImpl::shuffle`. -/
def shuffle (w : WeightImpl) (d : Draws) : WeightImpl :=
  shuffleFrom d (w.weight_.length - 1) w

/-- The loop of `getResult`; `none` is running off its end. -/
def getResultLoop : Int32 → List Int32 → List ℕ → Option ℕ
  | c, x :: weight_, i :: indxId_ =>
    let c := c - x
    if c ≤ 0 then some i else getResultLoop c weight_ indxId_
  | _, _, _ => none

/-- `WeightImpl::getResult` when `rand_` yields `r`. -/
def getResult (ndebug : Bool) (w : WeightImpl) (r : Int32) : Option ℕ := do
  cassert ndebug (0 < w.weight_.length)
  getResultLoop r w.weight_ w.indxId_

/-- `WeightImpl::recover`, into an array whose length the caller gives as `len`. -/
def recover (ndebug : Bool) (w : WeightImpl) (weight : List Int32) (len : ℕ) :
    Option (List Int32) := do
  cassert ndebug (w.weight_.length ≤ len)
  scatter weight (w.indxId_.zip w.weight_)

/-! ## What `init` stores -/

section Init

variable {weight : List Int32}

@[simp] lemma length_resize {α : Type} (l : List α) (n : ℕ) (x : α) :
    (resize l n x).length = n := by
  simp only [resize, List.length_append, List.length_take, List.length_replicate]
  omega

/-- Writing the place behind the part that is already written. -/
lemma set_append_drop {α : Type} {l m : List α} {k : ℕ} (x : α) (hl : l.length = k)
    (hm : k < m.length) : (l ++ m.drop k).set k x = l ++ [x] ++ m.drop (k + 1) := by
  rw [List.set_append_right _ _ (by omega), hl, Nat.sub_self, List.drop_eq_getElem_cons hm,
    List.set_cons_zero, List.append_assoc]
  rfl

/-- After `k` turns the first `k` places hold the array and their own positions, and the sum
is that of the first `k` weights. -/
lemma foldl_initAt {w : WeightImpl} (hw : w.weight_.length = weight.length)
    (hi : w.indxId_.length = weight.length) {k : ℕ} (hk : k ≤ weight.length) :
    (List.range k).foldl (initAt weight) w = { w with
      weight_ := weight.take k ++ w.weight_.drop k
      indxId_ := List.range k ++ w.indxId_.drop k
      sum_ := (weight.take k).foldl (· + ·) w.sum_ } := by
  induction k with
  | zero => simp
  | succ k ih =>
    -- the turn writes the place behind the first `k`
    have hget : weight.getD k 0 = weight[k] := by
      rw [List.getD_eq_getElem?_getD, List.getElem?_eq_getElem hk, Option.getD_some]
    have htake : weight.take (k + 1) = weight.take k ++ [weight[k]] := by simp
    rw [List.range_succ, List.foldl_append, ih (by omega), htake, List.foldl_append]
    simp only [List.foldl_cons, List.foldl_nil, initAt, hget]
    rw [set_append_drop _ (by simp; omega) (by omega), set_append_drop _ (by simp) (by omega)]

/-- What `init` stores: the array, the positions, the sum and the range of the draw. -/
def initialised (w : WeightImpl) (weight : List Int32) : WeightImpl where
  rand_ := w.rand_.betweenInt 1 (weight.foldl (· + ·) 0)
  sum_ := weight.foldl (· + ·) 0
  weight_ := weight
  indxId_ := List.range weight.length

/-- `init` returns when its assertion holds or is not compiled, and then the object holds the
array, the positions and the sum, whatever it held before. -/
lemma init_eq_some_iff (ndebug : Bool) (w w' : WeightImpl) :
    w.init ndebug weight = some w' ↔
      (ndebug = true ∨ 1 ≤ weight.foldl (· + ·) (0 : Int32)) ∧ w' = w.initialised weight := by
  simp only [init, length_resize]
  rw [foldl_initAt (by simp) (by simp) le_rfl]
  by_cases h : ndebug = true ∨ 1 ≤ weight.foldl (· + ·) (0 : Int32)
  · simp [cassert, initialised, h, List.drop_eq_nil_of_le, eq_comm]
  · simp [cassert, h]

lemma init_eq (ndebug : Bool) (w : WeightImpl)
    (hsum : 1 ≤ weight.foldl (· + ·) (0 : Int32)) :
    w.init ndebug weight = some (w.initialised weight) :=
  (init_eq_some_iff ndebug w _).mpr ⟨Or.inr hsum, rfl⟩

end Init

/-! ## What `shuffle` keeps -/

/-- The object holds the array `weight` in some order, each weight with the position it has
in the array. -/
structure Rearranged (weight : List Int32) (w : WeightImpl) : Prop where
  length : w.weight_.length = w.indxId_.length
  pairs : (w.weight_.zip w.indxId_).Perm (weight.zip (List.range weight.length))

/-- The pairs of an array are its elements with their positions. -/
lemma mem_zip_range {α : Type} {l : List α} {x : α} {k : ℕ} :
    (x, k) ∈ l.zip (List.range l.length) ↔ l[k]? = some x := by
  constructor
  · intro hmem
    obtain ⟨j, hj, heq⟩ := List.getElem_of_mem hmem
    rw [List.getElem_zip, List.getElem_range, Prod.mk.injEq] at heq
    obtain ⟨rfl, rfl⟩ := heq
    exact List.getElem?_eq_getElem (by simpa using hj)
  · intro hget
    obtain ⟨hk, rfl⟩ := List.getElem?_eq_some_iff.mp hget
    have hlt : k < (l.zip (List.range l.length)).length := by simpa using hk
    have hzip : (l.zip (List.range l.length))[k] = (l[k], k) := by simp
    rw [← hzip]
    exact List.getElem_mem hlt

section Shuffle

variable {weight : List Int32} {w : WeightImpl}

lemma rearranged_initialised (w : WeightImpl) (weight : List Int32) :
    Rearranged weight (w.initialised weight) :=
  ⟨by simp [initialised], List.Perm.refl _⟩

/-- One turn of the loop exchanges two pairs. -/
lemma Rearranged.swapAt {i j : ℕ} (h : Rearranged weight w) (hi : i < w.weight_.length)
    (hj : j < w.weight_.length) :
    Rearranged weight { w with
      weight_ := swapAt w.weight_ i j, indxId_ := swapAt w.indxId_ i j } := by
  refine ⟨by simpa using h.length, ?_⟩
  show ((CppServer.swapAt w.weight_ i j).zip (CppServer.swapAt w.indxId_ i j)).Perm _
  rw [zip_swapAt h.length hi hj]
  exact (swapAt_perm _ _ _).trans h.pairs

/-- The loop of `shuffle` keeps the pairs. -/
lemma Rearranged.shuffleFrom (d : Draws) {k : ℕ} (h : Rearranged weight w)
    (hk : k = 0 ∨ k < w.weight_.length) : Rearranged weight (shuffleFrom d k w) := by
  induction k generalizing w with
  | zero => exact h
  | succ k ih =>
    have hlt : k + 1 < w.weight_.length := by omega
    have hd : (d (k + 1) : ℕ) < w.weight_.length := by
      have := (d (k + 1)).isLt
      omega
    exact ih (h.swapAt hlt hd) (Or.inr (by rw [length_swapAt]; omega))

lemma Rearranged.shuffle (d : Draws) (h : Rearranged weight w) :
    Rearranged weight (w.shuffle d) :=
  h.shuffleFrom d (by omega)

/-- A shuffle keeps the sum and the range of the draw. -/
lemma shuffle_sum_rand (w : WeightImpl) (d : Draws) :
    (w.shuffle d).sum_ = w.sum_ ∧ (w.shuffle d).rand_ = w.rand_ := by
  suffices ∀ k, (WeightImpl.shuffleFrom d k w).sum_ = w.sum_ ∧
      (WeightImpl.shuffleFrom d k w).rand_ = w.rand_ from this _
  intro k
  induction k generalizing w with
  | zero => exact ⟨rfl, rfl⟩
  | succ k ih => exact ih _

lemma Rearranged.foldl_shuffle (ds : List Draws) (h : Rearranged weight w) :
    Rearranged weight (ds.foldl WeightImpl.shuffle w) ∧ (ds.foldl WeightImpl.shuffle w).sum_ = w.sum_ ∧
      (ds.foldl WeightImpl.shuffle w).rand_ = w.rand_ := by
  induction ds generalizing w with
  | nil => exact ⟨h, rfl, rfl⟩
  | cons d ds ih =>
    obtain ⟨hsum, hrand⟩ := shuffle_sum_rand w d
    rw [List.foldl_cons, ← hsum, ← hrand]
    exact ih (h.shuffle d)

end Shuffle

/-! ## What `getResult` picks -/

/-- The weights as natural numbers, with their positions. -/
def choices (weight_ : List Int32) (indxId_ : List ℕ) : List (ℕ × ℕ) :=
  (weight_.zip indxId_).map fun p => (p.1.toInt.toNat, p.2)

section GetResult

variable {weight : List Int32} {w : WeightImpl} {c x : Int32}

/-- Taking a weight from what is left of the draw does not overflow. -/
lemma toInt_sub_of_nonneg (hc : 1 ≤ c.toInt) (hx : 0 ≤ x.toInt) :
    (c - x).toInt = c.toInt - x.toInt := by
  have h₁ := c.toInt_lt
  have h₂ := x.toInt_lt
  rw [Int32.toInt_sub]
  exact Int.bmod_eq_of_le (by omega) (by omega)

/-- The loop picks what the number `c` falls on. -/
lemma getResultLoop_eq_pick {weight_ : List Int32} (hnonneg : ∀ x ∈ weight_, 0 ≤ x.toInt)
    (indxId_ : List ℕ) (hc : 1 ≤ c.toInt) :
    getResultLoop c weight_ indxId_ = Choice.pick (choices weight_ indxId_) c.toInt.toNat := by
  induction weight_ generalizing c indxId_ with
  | nil => rfl
  | cons x weight_ ih =>
    cases indxId_ with
    | nil => rfl
    | cons i indxId_ =>
      have hx : 0 ≤ x.toInt := hnonneg x (by simp)
      have hsub := toInt_sub_of_nonneg hc hx
      have htest : c - x ≤ 0 ↔ c.toInt.toNat ≤ x.toInt.toNat := by
        rw [Int32.le_iff_toInt_le, hsub]
        show c.toInt - x.toInt ≤ 0 ↔ _
        omega
      have hchoices : choices (x :: weight_) (i :: indxId_) =
          (x.toInt.toNat, i) :: choices weight_ indxId_ := rfl
      rw [hchoices, getResultLoop, Choice.pick]
      by_cases hle : c.toInt.toNat ≤ x.toInt.toNat
      · rw [if_pos (htest.mpr hle), if_pos hle]
      · rw [if_neg (mt htest.mp hle), if_neg hle,
          ih (fun y hy => hnonneg y (by simp [hy])) indxId_ (by omega), hsub]
        congr 1
        omega

/-- The sum that `init` computes is the exact one if that is an `int`. -/
lemma toInt_foldl_add {s : Int32} (hs : 0 ≤ s.toInt) (hnonneg : ∀ x ∈ weight, 0 ≤ x.toInt)
    (hmax : s.toInt + (weight.map Int32.toInt).sum < 2 ^ 31) :
    (weight.foldl (· + ·) s).toInt = s.toInt + (weight.map Int32.toInt).sum := by
  induction weight generalizing s with
  | nil => simp
  | cons x weight ih =>
    have hx : 0 ≤ x.toInt := hnonneg x (by simp)
    have hrest : 0 ≤ (weight.map Int32.toInt).sum := by
      refine List.sum_nonneg fun y hy => ?_
      obtain ⟨x', hx', rfl⟩ := List.mem_map.mp hy
      exact hnonneg x' (by simp [hx'])
    rw [List.map_cons, List.sum_cons] at hmax ⊢
    have hadd : (s + x).toInt = s.toInt + x.toInt := by
      rw [Int32.toInt_add]
      exact Int.bmod_eq_of_le (by omega) (by omega)
    rw [List.foldl_cons, ih (by omega) (fun y hy => hnonneg y (by simp [hy])) (by omega), hadd]
    omega

lemma toInt_sum_of_nonneg (hnonneg : ∀ x ∈ weight, 0 ≤ x)
    (hmax : (weight.map Int32.toInt).sum ≤ 2 ^ 31 - 1) :
    (weight.foldl (· + ·) (0 : Int32)).toInt = (weight.map Int32.toInt).sum := by
  have hnonneg' : ∀ x ∈ weight, 0 ≤ x.toInt := fun x hx => Int32.le_iff_toInt_le.mp (hnonneg x hx)
  have h := toInt_foldl_add (s := 0) le_rfl hnonneg' (by rw [Int32.toInt_zero]; omega)
  rwa [Int32.toInt_zero, Int.zero_add] at h

/-- Weights with a positive exact sum meet the assertion of `init`. -/
lemma one_le_sum_of_nonneg (hnonneg : ∀ x ∈ weight, 0 ≤ x)
    (hpos : 1 ≤ (weight.map Int32.toInt).sum) (hmax : (weight.map Int32.toInt).sum ≤ 2 ^ 31 - 1) :
    1 ≤ weight.foldl (· + ·) (0 : Int32) := by
  rw [Int32.le_iff_toInt_le, toInt_sum_of_nonneg hnonneg hmax]
  exact hpos

lemma map_snd_choices {weight_ : List Int32} {indxId_ : List ℕ}
    (hlen : weight_.length = indxId_.length) :
    (choices weight_ indxId_).map Prod.snd = indxId_ := by
  rw [choices, List.map_map]
  exact List.map_snd_zip (le_of_eq hlen.symm)

/-- The natural weights add up to the exact sum. -/
lemma total_choices {weight_ : List Int32} {indxId_ : List ℕ}
    (hlen : weight_.length = indxId_.length) (hnonneg : ∀ x ∈ weight_, 0 ≤ x.toInt) :
    (Choice.total (choices weight_ indxId_) : ℤ) = (weight_.map Int32.toInt).sum := by
  induction weight_ generalizing indxId_ with
  | nil => rfl
  | cons x weight_ ih =>
    cases indxId_ with
    | nil => simp at hlen
    | cons i indxId_ =>
      have hx : 0 ≤ x.toInt := hnonneg x (by simp)
      have ih := ih (by simpa using hlen) fun y hy => hnonneg y (by simp [hy])
      have hchoices : choices (x :: weight_) (i :: indxId_) =
          (x.toInt.toNat, i) :: choices weight_ indxId_ := rfl
      rw [hchoices, Choice.total_cons, List.map_cons, List.sum_cons]
      push_cast
      omega

/-- The shuffled object offers the choices of the original array in another order. -/
lemma Rearranged.choices_perm (h : Rearranged weight w) :
    (choices w.weight_ w.indxId_).Perm (choices weight (List.range weight.length)) :=
  h.pairs.map _

lemma Rearranged.nonneg (h : Rearranged weight w) (hnonneg : ∀ x ∈ weight, 0 ≤ x.toInt) :
    ∀ x ∈ w.weight_, 0 ≤ x.toInt := by
  intro x hx
  have hfst : (w.weight_.zip w.indxId_).map Prod.fst = w.weight_ :=
    List.map_fst_zip (le_of_eq h.length)
  rw [← hfst] at hx
  obtain ⟨p, hp, rfl⟩ := List.mem_map.mp hx
  exact hnonneg p.1 (List.of_mem_zip (h.pairs.subset hp)).1

/-- What `getResult` returns is what the drawn number falls on. -/
lemma Rearranged.getResult_eq_pick (ndebug : Bool) (h : Rearranged weight w)
    (hnonneg : ∀ x ∈ weight, 0 ≤ x.toInt) (hne : weight ≠ []) (hc : 1 ≤ c.toInt) :
    w.getResult ndebug c = Choice.pick (choices w.weight_ w.indxId_) c.toInt.toNat := by
  have hlen : 0 < w.weight_.length := by
    have := h.pairs.length_eq
    have := List.length_pos_iff.mpr hne
    simp only [List.length_zip, List.length_range, ← h.length, min_self] at *
    omega
  rw [getResult, ← getResultLoop_eq_pick (h.nonneg hnonneg) _ hc]
  simp [cassert, hlen]

lemma mem_choices_range {n i : ℕ} :
    (n, i) ∈ choices weight (List.range weight.length) ↔
      ∃ hi : i < weight.length, n = weight[i].toInt.toNat := by
  simp only [choices, List.mem_map, Prod.exists, Prod.mk.injEq]
  constructor
  · rintro ⟨x, k, hmem, rfl, rfl⟩
    obtain ⟨hi, rfl⟩ := List.getElem?_eq_some_iff.mp (mem_zip_range.mp hmem)
    exact ⟨hi, rfl⟩
  · rintro ⟨hi, rfl⟩
    exact ⟨weight[i], i, mem_zip_range.mpr (List.getElem?_eq_getElem hi), rfl, rfl⟩

/-- The numbers that the choices of the shuffled object are laid out on. -/
lemma Rearranged.total_eq (h : Rearranged weight w) (hnonneg : ∀ x ∈ weight, 0 ≤ x.toInt) :
    (Choice.total (choices w.weight_ w.indxId_) : ℤ) = (weight.map Int32.toInt).sum := by
  have hperm : Choice.total (choices w.weight_ w.indxId_) =
      Choice.total (choices weight (List.range weight.length)) := (h.choices_perm.map _).sum_eq
  rw [hperm, total_choices (by simp) hnonneg]

/-- Every draw picks an item of positive weight. -/
lemma Rearranged.exists_getResult (ndebug : Bool) (h : Rearranged weight w)
    (hnonneg : ∀ x ∈ weight, 0 ≤ x.toInt) (hne : weight ≠ []) (hc : 1 ≤ c.toInt)
    (hle : c.toInt ≤ (weight.map Int32.toInt).sum) :
    ∃ i, ∃ hi : i < weight.length, w.getResult ndebug c = some i ∧ 0 < weight[i] := by
  have htotal := h.total_eq hnonneg
  obtain ⟨n, i, hmem, hpos, hpick⟩ :=
    Choice.exists_pick (l := choices w.weight_ w.indxId_) (r := c.toInt.toNat) (by omega) (by omega)
  obtain ⟨hi, rfl⟩ := mem_choices_range.mp (h.choices_perm.subset hmem)
  refine ⟨i, hi, ?_, ?_⟩
  · rw [h.getResult_eq_pick ndebug hnonneg hne hc, hpick]
  · rw [Int32.lt_iff_toInt_lt]
    show 0 < weight[i].toInt
    omega

/-- Every item is picked by as many draws as its weight says. -/
lemma Rearranged.card_getResult (ndebug : Bool) (h : Rearranged weight w)
    (hnonneg : ∀ x ∈ weight, 0 ≤ x.toInt) (hne : weight ≠ [])
    (hmax : (weight.map Int32.toInt).sum ≤ 2 ^ 31 - 1) {i : ℕ} (hi : i < weight.length) :
    (((Finset.Icc 1 (weight.map Int32.toInt).sum).filter fun r =>
      w.getResult ndebug (Int32.ofInt r) = some i).card : ℤ) = weight[i].toInt := by
  have hcongr : ∀ r ∈ Finset.Icc 1 (weight.map Int32.toInt).sum,
      (w.getResult ndebug (Int32.ofInt r) = some i ↔
        Choice.pick (choices w.weight_ w.indxId_) r.toNat = some i) := by
    intro r hr
    obtain ⟨hr₁, hr₂⟩ := Finset.mem_Icc.mp hr
    have hto : (Int32.ofInt r).toInt = r := Int32.toInt_ofInt_of_le (by omega) (by omega)
    rw [h.getResult_eq_pick ndebug hnonneg hne (by rw [hto]; exact hr₁), hto]
  -- each position occurs once, so its weight is that of the array
  have hweight : Choice.weightOf i (choices w.weight_ w.indxId_) = weight[i].toInt.toNat := by
    rw [Choice.weightOf_perm h.choices_perm]
    refine Choice.weightOf_of_mem ?_ (mem_choices_range.mpr ⟨hi, rfl⟩)
    rw [map_snd_choices (by simp)]
    exact List.nodup_range
  have hi' : 0 ≤ weight[i].toInt := hnonneg _ (List.getElem_mem hi)
  rw [Finset.filter_congr hcongr, ← h.total_eq hnonneg, Choice.card_filter_Icc]
  have htoNat : ∀ k : ℕ, ((k : ℤ) + 1).toNat = k + 1 := fun k => by omega
  simp only [htoNat]
  rw [Choice.count_pick, hweight]
  omega

end GetResult

/-- **Exact weighted choice.**  For non-negative weights with a sum that is a positive `int`,
after `init` and any shuffles the draw is from 1 to the sum, every draw picks an item of
positive weight, and every item is picked by as many draws as its weight says. -/
theorem getResult_exact (ndebug : Bool) (old : WeightImpl) (weight : List Int32)
    (hnonneg : ∀ x ∈ weight, 0 ≤ x) (hpos : 1 ≤ (weight.map Int32.toInt).sum)
    (hmax : (weight.map Int32.toInt).sum ≤ 2 ^ 31 - 1) (ds : List Draws) :
    ∃ w, (old.init ndebug weight).map (fun w => ds.foldl WeightImpl.shuffle w) = some w ∧
      (∀ r, w.rand_.randInt_mt r ↔ 1 ≤ r.toInt ∧ r.toInt ≤ (weight.map Int32.toInt).sum) ∧
      (∀ r, w.rand_.randInt_mt r →
        ∃ i, ∃ hi : i < weight.length, w.getResult ndebug r = some i ∧ 0 < weight[i]) ∧
      ∀ i (hi : i < weight.length),
        (((Finset.Icc 1 (weight.map Int32.toInt).sum).filter fun r =>
          w.getResult ndebug (Int32.ofInt r) = some i).card : ℤ) = weight[i].toInt := by
  have hnonneg' : ∀ x ∈ weight, 0 ≤ x.toInt := fun x hx => Int32.le_iff_toInt_le.mp (hnonneg x hx)
  have hsum := toInt_sum_of_nonneg hnonneg hmax
  have hne : weight ≠ [] := by
    rintro rfl
    simp at hpos
  rw [init_eq ndebug old (one_le_sum_of_nonneg hnonneg hpos hmax)]
  obtain ⟨hre, -, hrand⟩ := (rearranged_initialised old weight).foldl_shuffle ds
  refine ⟨_, rfl, ?_, ?_, fun i hi => hre.card_getResult ndebug hnonneg' hne hmax hi⟩
  all_goals
    intro r
    rw [hrand]
    simp only [initialised, RandomImpl.randInt_mt, RandomImpl.betweenInt, Int32.le_iff_toInt_le,
      hsum]
  · exact Iff.rfl
  · rintro ⟨hr₁, hr₂⟩
    exact hre.exists_getResult ndebug hnonneg' hne hr₁ hr₂

lemma nonneg_thirty_twenty_fifty : ∀ x ∈ [30, 20, 50], (0 : Int32) ≤ x := by
  intro x hx
  simp only [List.mem_cons, List.not_mem_nil, or_false] at hx
  rcases hx with rfl | rfl | rfl <;> decide

/-- The weights of the source's own test, shuffled once. -/
theorem getResult_thirty_twenty_fifty :
    ∃ w, (make.init false [30, 20, 50]).map
        (fun w => [fun i => (⟨i / 2, by omega⟩ : Fin (i + 1))].foldl WeightImpl.shuffle w) = some w ∧
      (((Finset.Icc 1 100).filter fun r =>
        w.getResult false (Int32.ofInt r) = some 2).card : ℤ) = 50 := by
  obtain ⟨w, hw, -, -, hcard⟩ := getResult_exact false make [30, 20, 50]
    nonneg_thirty_twenty_fifty (by decide) (by decide) [fun i => ⟨i / 2, by omega⟩]
  exact ⟨w, hw, hcard 2 (by decide)⟩

end WeightImpl

end CppServer.Rand
