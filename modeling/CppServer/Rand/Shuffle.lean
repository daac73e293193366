/-
# What shuffles of the weights keep

Whatever the draws of the shuffles are, the object keeps every weight with its position, so
`recover` writes the array back as it was given to `init`.  And since the walk of `getResult`
takes all weights from the drawn number in the end, it stops for every number from 1 to
`sum_`, for arbitrary `int` weights and with the wrap-around of `int` arithmetic.
-/
import Mathlib.Data.List.Zip
import CppServer.Rand.Weight

namespace CppServer.Rand.WeightImpl

variable {weight : List Int32} {w : WeightImpl}

/-! ## The positions -/

lemma Rearranged.length_weight_ (h : Rearranged weight w) : w.weight_.length = weight.length := by
  have hlen := h.pairs.length_eq
  simpa [← h.length] using hlen

lemma Rearranged.length_indxId_ (h : Rearranged weight w) : w.indxId_.length = weight.length :=
  h.length.symm.trans h.length_weight_

lemma Rearranged.indxId_perm (h : Rearranged weight w) :
    w.indxId_.Perm (List.range weight.length) := by
  have hperm := h.pairs.map Prod.snd
  rwa [List.map_snd_zip (le_of_eq h.length.symm), List.map_snd_zip (by simp)] at hperm

lemma Rearranged.weight_perm (h : Rearranged weight w) : w.weight_.Perm weight := by
  have hperm := h.pairs.map Prod.fst
  rwa [List.map_fst_zip (le_of_eq h.length), List.map_fst_zip (by simp)] at hperm

/-- Each weight is the one that the array has at its position. -/
lemma Rearranged.exists_position (h : Rearranged weight w) {i : ℕ} (hi : i < weight.length) :
    ∃ k < weight.length, w.indxId_[i]? = some k ∧ w.weight_[i]? = weight[k]? := by
  have hw : i < w.weight_.length := by rwa [h.length_weight_]
  have hx : i < w.indxId_.length := by rwa [h.length_indxId_]
  have hmem : (w.weight_[i], w.indxId_[i]) ∈ w.weight_.zip w.indxId_ := by
    rw [← List.getElem_zip (h := by simpa using ⟨hw, hx⟩)]
    exact List.getElem_mem _
  have hget : weight[w.indxId_[i]]? = some w.weight_[i] := mem_zip_range.mp (h.pairs.subset hmem)
  refine ⟨w.indxId_[i], (List.getElem?_eq_some_iff.mp hget).1, List.getElem?_eq_getElem hx, ?_⟩
  rw [hget]
  exact List.getElem?_eq_getElem hw

/-- `recover` writes the array to its first places and leaves the others alone. -/
lemma Rearranged.recover (ndebug : Bool) (h : Rearranged weight w) {out : List Int32} {len : ℕ}
    (hlen : weight.length ≤ len) (hout : len ≤ out.length) :
    ∃ out', w.recover ndebug out len = some out' ∧ out'.length = out.length ∧
      (∀ k < weight.length, out'[k]? = weight[k]?) ∧
      ∀ k, weight.length ≤ k → out'[k]? = out[k]? := by
  have hkeys : (w.indxId_.zip w.weight_).map Prod.fst = w.indxId_ :=
    List.map_fst_zip (le_of_eq h.length.symm)
  have hmem : ∀ p ∈ w.indxId_.zip w.weight_, weight[p.1]? = some p.2 := by
    intro p hp
    refine mem_zip_range.mp (h.pairs.subset ?_)
    rw [← List.zip_swap]
    exact List.mem_map.mpr ⟨p, hp, rfl⟩
  -- no position is written twice
  have hnodup : w.indxId_.Nodup := h.indxId_perm.nodup_iff.mpr List.nodup_range
  have hlt : ∀ p ∈ w.indxId_.zip w.weight_, p.1 < out.length := by
    intro p hp
    have := (List.getElem?_eq_some_iff.mp (hmem p hp)).1
    omega
  obtain ⟨out', hscatter, hlen', hwritten, hkept⟩ := exists_scatter hlt (by rwa [hkeys])
  refine ⟨out', ?_, hlen', ?_, ?_⟩
  · have hle : w.weight_.length ≤ len := by rwa [h.length_weight_]
    rw [WeightImpl.recover, hscatter]
    simp [cassert, hle]
  · intro k hk
    -- every position is written, and with the weight that belongs there
    have hk' : k ∈ (w.indxId_.zip w.weight_).map Prod.fst := by
      rw [hkeys, h.indxId_perm.mem_iff]
      exact List.mem_range.mpr hk
    obtain ⟨p, hp, rfl⟩ := List.mem_map.mp hk'
    rw [hwritten p hp, hmem p hp]
  · intro k hk
    refine hkept k ?_
    rw [hkeys, h.indxId_perm.mem_iff, List.mem_range]
    omega

/-- **Shuffles lose nothing.**  After `init` and any shuffles the positions are a permutation,
each weight stands beside its position, lengths and sum are those of the array, and `recover`
gives the array back. -/
theorem shuffle_recover_exact (ndebug : Bool) (old : WeightImpl) (weight : List Int32)
    (w₀ : WeightImpl) (hinit : old.init ndebug weight = some w₀) (ds : List Draws) :
    (ds.foldl shuffle w₀).indxId_.Perm (List.range weight.length) ∧
      (∀ i < weight.length, ∃ k < weight.length, (ds.foldl shuffle w₀).indxId_[i]? = some k ∧
        (ds.foldl shuffle w₀).weight_[i]? = weight[k]?) ∧
      (ds.foldl shuffle w₀).weight_.length = weight.length ∧
      (ds.foldl shuffle w₀).indxId_.length = weight.length ∧
      (ds.foldl shuffle w₀).sum_ = w₀.sum_ ∧
      ∀ (out : List Int32) (len : ℕ), weight.length ≤ len → len ≤ out.length →
        ∃ out', (ds.foldl shuffle w₀).recover ndebug out len = some out' ∧
          out'.length = out.length ∧
          (∀ k < weight.length, out'[k]? = weight[k]?) ∧
          ∀ k, weight.length ≤ k → out'[k]? = out[k]? := by
  obtain ⟨-, rfl⟩ := (init_eq_some_iff ndebug old w₀).mp hinit
  obtain ⟨hre, hsum, -⟩ := (rearranged_initialised old weight).foldl_shuffle ds
  exact ⟨hre.indxId_perm, fun i hi => hre.exists_position hi, hre.length_weight_,
    hre.length_indxId_, hsum, fun out len hlen hout => hre.recover ndebug hlen hout⟩

lemma half_lt_succ (i : ℕ) : i / 2 < i + 1 := by
  omega

/-- An object that held one weight takes three, shuffles them twice and gives them back. -/
theorem recover_after_two_shuffles :
    ∃ out', ([fun i => ⟨i / 2, half_lt_succ i⟩, fun _ => 0].foldl shuffle
        ((make.initialised [7]).initialised [30, 20, 50])).recover false [1, 2, 3, 4] 4 = some out' ∧
      out'[0]? = some 30 ∧ out'[1]? = some 20 ∧ out'[2]? = some 50 ∧ out'[3]? = some 4 := by
  have hinit : (make.initialised [7]).init false [30, 20, 50] =
      some ((make.initialised [7]).initialised [30, 20, 50]) := init_eq false _ (by decide)
  obtain ⟨-, -, -, -, -, hrecover⟩ := shuffle_recover_exact false (make.initialised [7])
    [30, 20, 50] _ hinit [fun i => ⟨i / 2, half_lt_succ i⟩, fun _ => 0]
  obtain ⟨out', hout, -, hfirst, hrest⟩ := hrecover [1, 2, 3, 4] 4 (by simp) (by simp)
  exact ⟨out', hout, hfirst 0 (by simp), hfirst 1 (by simp), hfirst 2 (by simp),
    hrest 3 (by simp)⟩

/-! ## The end of the walk -/

/-- The walk that does not stop has a positive rest after the last weight. -/
lemma pos_of_getResultLoop_eq_none {c : Int32} {weight_ : List Int32} {indxId_ : List ℕ}
    (hlen : weight_.length = indxId_.length) (hc : 0 < c)
    (h : getResultLoop c weight_ indxId_ = none) : 0 < weight_.foldl (· - ·) c := by
  induction weight_ generalizing c indxId_ with
  | nil => exact hc
  | cons x weight_ ih =>
    cases indxId_ with
    | nil => simp at hlen
    | cons i indxId_ =>
      rw [getResultLoop] at h
      by_cases hle : c - x ≤ 0
      · simp [hle] at h
      · rw [if_neg hle] at h
        exact ih (by simpa using hlen) (Int32.not_le.mp hle) h

/-- The walk over the weights with the number `c` first comes to a rest that is not positive in
the slot `k`. -/
structure FirstStop (c : Int32) (weight_ : List Int32) (k : ℕ) : Prop where
  lt : k < weight_.length
  stop : (weight_.take (k + 1)).foldl (· - ·) c ≤ 0
  before : ∀ j < k, 0 < (weight_.take (j + 1)).foldl (· - ·) c

/-- The walk that stops returns the position in the first slot with a rest that is not positive. -/
lemma exists_firstStop_of_getResultLoop {c : Int32} {weight_ : List Int32} {indxId_ : List ℕ} {i : ℕ}
    (h : getResultLoop c weight_ indxId_ = some i) :
    ∃ k, FirstStop c weight_ k ∧ indxId_[k]? = some i := by
  induction weight_ generalizing c indxId_ with
  | nil => simp [getResultLoop] at h
  | cons x weight_ ih =>
    cases indxId_ with
    | nil => simp [getResultLoop] at h
    | cons i' indxId_ =>
      rw [getResultLoop] at h
      by_cases hle : c - x ≤ 0
      · rw [if_pos hle] at h
        exact ⟨0, ⟨by simp, hle, fun j hj => absurd hj (Nat.not_lt_zero j)⟩, h⟩
      · rw [if_neg hle] at h
        obtain ⟨k, ⟨hlt, hstop, hbefore⟩, hi⟩ := ih h
        refine ⟨k + 1, ⟨by simpa using hlt, hstop, fun j hj => ?_⟩, hi⟩
        cases j with
        | zero => exact Int32.not_le.mp hle
        | succ j => exact hbefore j (by omega)

/-- Taking the weights away one after the other takes their sum away, also when it wraps. -/
lemma foldl_sub_eq (c s : Int32) (weight_ : List Int32) :
    weight_.foldl (· - ·) (c - s) = c - weight_.foldl (· + ·) s := by
  induction weight_ generalizing s with
  | nil => rfl
  | cons x weight_ ih =>
    have hsub : c - s - x = c - (s + x) := by grind
    rw [List.foldl_cons, List.foldl_cons, hsub, ih]

/-- The wrapped sum does not depend on the order of the weights. -/
lemma foldl_add_perm {l l' : List Int32} (h : l.Perm l') (s : Int32) :
    l.foldl (· + ·) s = l'.foldl (· + ·) s := by
  have hcomm : RightCommutative (fun a b : Int32 => a + b) := ⟨fun a b c => by grind⟩
  exact h.foldl_eq s

/-- Every number from 1 to the wrapped sum stops in a slot and picks the position there. -/
lemma Rearranged.getResult_stops (ndebug : Bool) (h : Rearranged weight w)
    (hsum : w.sum_ = weight.foldl (· + ·) 0) {r : Int32} (hr : 1 ≤ r) (hle : r ≤ w.sum_) :
    ∃ k i, FirstStop r w.weight_ k ∧ w.indxId_[k]? = some i ∧ i < weight.length ∧
      w.getResult ndebug r = some i := by
  rw [Int32.le_iff_toInt_le] at hr hle
  have hone : (1 : Int32).toInt = 1 := rfl
  have hpos : 0 < weight.length := by
    cases weight with
    | nil =>
      rw [hsum] at hle
      exact absurd (le_trans hr hle) (by decide)
    | cons x weight => simp
  -- all weights together take the number to `r - sum_`, which is not positive
  have hrest : w.weight_.foldl (· - ·) r ≤ 0 := by
    have hzero : r - 0 = r := by grind
    rw [← hzero, foldl_sub_eq, foldl_add_perm h.weight_perm, ← hsum, Int32.le_iff_toInt_le]
    have hlt := w.sum_.toInt_lt
    rw [Int32.toInt_sub, Int.bmod_eq_of_le (by omega) (by omega), Int32.toInt_zero]
    omega
  -- a walk that does not stop would leave a positive rest
  cases hloop : getResultLoop r w.weight_ w.indxId_ with
  | none =>
    have hr' : 0 < r := Int32.lt_iff_toInt_lt.mpr hr
    have hgt := pos_of_getResultLoop_eq_none h.length hr' hloop
    exact absurd hrest (Int32.not_le.mpr hgt)
  | some i =>
    obtain ⟨k, hstop, hi⟩ := exists_firstStop_of_getResultLoop hloop
    refine ⟨k, i, hstop, hi, ?_, ?_⟩
    · exact List.mem_range.mp (h.indxId_perm.mem_iff.mp (List.mem_of_getElem? hi))
    · rw [getResult, hloop]
      simp [cassert, h.length_weight_, hpos]

/-- **The walk never runs off its end.**  For arbitrary weights whose wrapped sum passes the
assertion of `init`, after any shuffles, the walk with every number from 1 to `sum_` comes to a
rest that is not positive in some slot; it stops in the first such slot and returns the position
there, a position of the array. -/
theorem getResult_total (ndebug : Bool) (old : WeightImpl) (weight : List Int32)
    (w₀ : WeightImpl) (hinit : old.init ndebug weight = some w₀) (ds : List Draws) (r : Int32)
    (hr : 1 ≤ r) (hle : r ≤ (ds.foldl shuffle w₀).sum_) :
    ∃ k i, FirstStop r (ds.foldl shuffle w₀).weight_ k ∧
      (ds.foldl shuffle w₀).indxId_[k]? = some i ∧ i < weight.length ∧
      (ds.foldl shuffle w₀).getResult ndebug r = some i := by
  obtain ⟨-, rfl⟩ := (init_eq_some_iff ndebug old w₀).mp hinit
  obtain ⟨hre, hsum, -⟩ := (rearranged_initialised old weight).foldl_shuffle ds
  exact hre.getResult_stops ndebug hsum hr hle

/-- Weights whose sum wraps twice: the walk goes up and down and still stops. -/
theorem getResult_of_wrapping_weights :
    ∃ k i, FirstStop 3 ([fun i => (⟨i / 2, half_lt_succ i⟩ : Fin (i + 1))].foldl shuffle
        (make.initialised [2147483647, -5, 2147483647, 17])).weight_ k ∧ i < 4 ∧
      ([fun i => (⟨i / 2, half_lt_succ i⟩ : Fin (i + 1))].foldl shuffle
        (make.initialised [2147483647, -5, 2147483647, 17])).getResult false 3 = some i := by
  have hinit : make.init false [2147483647, -5, 2147483647, 17] =
      some (make.initialised [2147483647, -5, 2147483647, 17]) := init_eq false _ (by decide)
  obtain ⟨k, i, hstop, -, hlt, hresult⟩ :=
    getResult_total false make _ _ hinit [fun i => ⟨i / 2, half_lt_succ i⟩] 3 (by decide) (by decide)
  exact ⟨k, i, hstop, hlt, hresult⟩

end CppServer.Rand.WeightImpl
