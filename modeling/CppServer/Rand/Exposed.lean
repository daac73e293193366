/-
# The random source that callers share with the weighted choice

The range of the number that `WeightImpl::getResult` draws is set once, by `init`, in the
member `rand_`.  That member is public, and `STD::Weight::rand` hands it out, so a caller can
give it another range; `getResult` neither sets the range again nor checks the number.

The file follows an object through any sequence of its own operations and of uses of `rand_`,
and says exactly which uses leave every later draw inside the weights.
-/
import CppServer.Rand.Shuffle

namespace CppServer.Rand

/-- What callers do with an object and with its `rand_`.  The numbers that are drawn are
arguments. -/
inductive Op where
  | init (weight : List Int32)
  | shuffle (d : Draws)
  | recover (weight : List Int32) (len : ℕ)
  | getResult (r : Int32)
  | betweenInt (a b : Int32)
  | betweenInt64 (a b : Int64)
  | betweenFloat (a b : Float32)
  | randInt_mt (r : Int32)
  | randInt_re (r : Int32)
  | randInt64_mt (r : Int64)
  | randInt64_re (r : Int64)
  | randFloat_mt (r : Float32)
  | randFloat_re (r : Float32)

namespace WeightImpl

/-- One operation.  `init` is given weights that meet its assertion, a range of integers is
not empty, and `getResult` draws a number that `rand_` can yield; it cannot be continued when
it runs off its end. -/
def step (ndebug : Bool) (w : WeightImpl) : Op → Option WeightImpl
  | .init weight => if 1 ≤ weight.foldl (· + ·) (0 : Int32) then w.init ndebug weight else none
  | .shuffle d => some (w.shuffle d)
  | .recover weight len => (w.recover ndebug weight len).map fun _ => w
  | .getResult r =>
    if w.rand_.randInt_mt r then (w.getResult ndebug r).map fun _ => w else none
  | .betweenInt a b => if a ≤ b then some { w with rand_ := w.rand_.betweenInt a b } else none
  | .betweenInt64 a b => some { w with rand_ := w.rand_.betweenInt64 a b }
  | .betweenFloat a b => some { w with rand_ := w.rand_.betweenFloat a b }
  -- a draw changes only the engine
  | .randInt_mt _ | .randInt_re _ | .randInt64_mt _ | .randInt64_re _ | .randFloat_mt _
  | .randFloat_re _ => some w

/-- Every number that `rand_` can yield is from 1 to `sum_`, and `getResult` answers it with an
index of the weights. -/
def Served (ndebug : Bool) (w : WeightImpl) : Prop :=
  ∀ r, w.rand_.randInt_mt r →
    (1 ≤ r ∧ r ≤ w.sum_) ∧ ∃ i < w.weight_.length, w.getResult ndebug r = some i

/-- The object was given weights before. -/
def Initialised (ops : List Op) : Prop := ∃ weight, Op.init weight ∈ ops

/-- An object with weights gets no range of integers beyond `[1, sum_]`. -/
def RangeKept (w : WeightImpl) : Op → Prop
  | .betweenInt a b => 1 ≤ w.sum_ → 1 ≤ a ∧ b ≤ w.sum_
  | _ => True

/-! ## One operation -/

/-- The object holds some array in some order, and its sum. -/
def Loaded (w : WeightImpl) : Prop :=
  ∃ weight, Rearranged weight w ∧ w.sum_ = weight.foldl (· + ·) 0

section Step

variable {ndebug : Bool} {w w' : WeightImpl} {op : Op}

/-- Only `init` and `betweenInt` set the range of the draw, and only `init` changes which
weights there are. -/
lemma step_cases (h : step ndebug w op = some w') :
    (∃ weight, op = .init weight ∧ 1 ≤ weight.foldl (· + ·) (0 : Int32) ∧
      w' = w.initialised weight) ∨
    (∃ a b, op = .betweenInt a b ∧ a ≤ b ∧ w' = { w with rand_ := w.rand_.betweenInt a b }) ∨
    ((∀ weight, op ≠ .init weight) ∧ RangeKept w op ∧ w'.sum_ = w.sum_ ∧
      w'.rand_.iValue_ = w.rand_.iValue_ ∧ ∀ weight, Rearranged weight w → Rearranged weight w') := by
  cases op with
  | init weight =>
    simp only [step] at h
    split at h
    · rename_i hsum
      exact Or.inl ⟨weight, rfl, hsum, ((init_eq_some_iff ndebug w w').mp h).2⟩
    · exact absurd h (by simp)
  | betweenInt a b =>
    simp only [step] at h
    split at h
    · rename_i hab
      exact Or.inr (Or.inl ⟨a, b, rfl, hab, (Option.some.inj h).symm⟩)
    · exact absurd h (by simp)
  | shuffle d =>
    obtain rfl : w.shuffle d = w' := Option.some.inj h
    obtain ⟨hsum, hrand⟩ := shuffle_sum_rand w d
    exact Or.inr (Or.inr ⟨by simp, trivial, hsum, by rw [hrand], fun _ hre => hre.shuffle d⟩)
  | recover weight len =>
    obtain ⟨_, -, rfl⟩ := Option.map_eq_some_iff.mp h
    exact Or.inr (Or.inr ⟨by simp, trivial, rfl, rfl, fun _ hre => hre⟩)
  | getResult r =>
    simp only [step] at h
    split at h
    · obtain ⟨_, -, rfl⟩ := Option.map_eq_some_iff.mp h
      exact Or.inr (Or.inr ⟨by simp, trivial, rfl, rfl, fun _ hre => hre⟩)
    · exact absurd h (by simp)
  | betweenInt64 | betweenFloat | randInt_mt | randInt_re | randInt64_mt | randInt64_re
  | randFloat_mt | randFloat_re =>
    obtain rfl := Option.some.inj h
    exact Or.inr (Or.inr ⟨by simp, trivial, rfl, rfl, fun _ hre => ⟨hre.length, hre.pairs⟩⟩)

lemma Loaded.step (hw : Loaded w) (h : step ndebug w op = some w') : Loaded w' := by
  obtain ⟨weight, hre, hsum⟩ := hw
  rcases step_cases h with ⟨weight', rfl, -, rfl⟩ | ⟨a, b, rfl, -, rfl⟩ | ⟨-, -, hsum', -, hre'⟩
  · exact ⟨weight', rearranged_initialised w weight', rfl⟩
  · exact ⟨weight, ⟨hre.length, hre.pairs⟩, hsum⟩
  · exact ⟨weight, hre' weight hre, hsum'.trans hsum⟩

/-- The numbers of a range that is not empty are from 1 to `s` when its ends are. -/
lemma forall_range_iff {a b s : Int32} (hab : a ≤ b) :
    (∀ r, a ≤ r ∧ r ≤ b → 1 ≤ r ∧ r ≤ s) ↔ 1 ≤ a ∧ b ≤ s := by
  constructor
  · intro h
    exact ⟨(h a ⟨Int32.le_refl a, hab⟩).1, (h b ⟨hab, Int32.le_refl b⟩).2⟩
  · rintro ⟨ha, hb⟩ r ⟨har, hrb⟩
    exact ⟨Int32.le_trans ha har, Int32.le_trans hrb hb⟩

/-- The walk stops for every number from 1 to `sum_`, so only the range of the draw counts. -/
lemma Loaded.served_iff (hw : Loaded w) :
    Served ndebug w ↔ ∀ r, w.rand_.randInt_mt r → 1 ≤ r ∧ r ≤ w.sum_ := by
  obtain ⟨weight, hre, hsum⟩ := hw
  constructor
  · exact fun h r hr => (h r hr).1
  · intro h r hr
    obtain ⟨hr₁, hr₂⟩ := h r hr
    obtain ⟨_, i, -, -, hi, hresult⟩ := hre.getResult_stops ndebug hsum hr₁ hr₂
    exact ⟨⟨hr₁, hr₂⟩, i, by rwa [hre.length_weight_], hresult⟩

/-- An operation keeps the draws of an object with weights inside them exactly when it keeps
the range. -/
lemma served_step_iff (hw : Loaded w) (hserved : 1 ≤ w.sum_ → Served ndebug w)
    (h : step ndebug w op = some w') :
    (1 ≤ w'.sum_ → Served ndebug w') ↔ RangeKept w op := by
  have hw' : Loaded w' := hw.step h
  rw [hw'.served_iff]
  rcases step_cases h with ⟨weight, rfl, -, rfl⟩ | ⟨a, b, rfl, hab, rfl⟩ |
    ⟨-, hkept, hsum, hrange, -⟩
  · -- `init` sets the range `[1, sum_]`
    exact iff_of_true (fun _ r hr => hr) trivial
  · exact imp_congr_right fun _ => forall_range_iff hab
  · -- neither the range nor the sum has changed
    refine iff_of_true (fun hpos => ?_) hkept
    rw [hsum] at hpos ⊢
    simpa only [RandomImpl.randInt_mt, hrange] using hw.served_iff.mp (hserved hpos)

end Step

/-! ## Whole runs -/

/-- In every run the object holds an array, and its sum is positive once it was given one. -/
lemma loaded_of_run {ndebug : Bool} {ops : List Op} {w : WeightImpl}
    (hrun : run (step ndebug) make ops = some w) :
    Loaded w ∧ (1 ≤ w.sum_ ↔ Initialised ops) := by
  refine run_history (P := fun ops w => Loaded w ∧ (1 ≤ w.sum_ ↔ Initialised ops)) ?_ ?_ hrun
  · refine ⟨⟨[], ⟨rfl, List.Perm.refl _⟩, rfl⟩, iff_of_false (by decide) ?_⟩
    rintro ⟨weight, hmem⟩
    exact absurd hmem (by simp)
  · rintro ops w₁ op w₂ - ⟨hloaded, hinit⟩ h
    refine ⟨hloaded.step h, ?_⟩
    rcases step_cases h with ⟨weight, rfl, hsum, rfl⟩ | ⟨a, b, rfl, -, rfl⟩ |
      ⟨hne, -, hsum, -, -⟩
    · exact iff_of_true hsum ⟨weight, by simp⟩
    · simpa [Initialised] using hinit
    · have hne' : ∀ weight, Op.init weight ≠ op := fun weight => (hne weight).symm
      simpa [Initialised, hsum, hne'] using hinit

/-- **When the shared source leaves the choice alone.**  In a run of any operations, every
number that `getResult` can draw after an `init` is from 1 to `sum_` and picks an index of the
current weights, at every point of the run, exactly when no `betweenInt` after an `init` sets
a range that leaves `[1, sum_]`. -/
theorem draws_served_iff_range_kept (ndebug : Bool) (ops : List Op) (w : WeightImpl)
    (hrun : run (step ndebug) make ops = some w) :
    (∀ pre post w₁, ops = pre ++ post → run (step ndebug) make pre = some w₁ →
      Initialised pre → Served ndebug w₁) ↔
    ∀ pre a b post w₁, ops = pre ++ .betweenInt a b :: post →
      run (step ndebug) make pre = some w₁ → Initialised pre → 1 ≤ a ∧ b ≤ w₁.sum_ := by
  have hiff := run_invariant_iff (I := fun w => 1 ≤ w.sum_ → Served ndebug w)
    (fun pre w₁ op w₂ hpre h₁ h => served_step_iff (loaded_of_run hpre).1 h₁ h)
    (fun hpos => absurd hpos (by decide)) hrun
  -- the sum is positive exactly from the first `init` on
  constructor
  · intro h pre a b post w₁ heq hpre hinit
    have hok := hiff.mp (fun pre' post' w' heq' hpre' hpos =>
      h pre' post' w' heq' hpre' ((loaded_of_run hpre').2.mp hpos))
    exact hok pre (.betweenInt a b) post w₁ heq hpre ((loaded_of_run hpre).2.mpr hinit)
  · intro h pre post w₁ heq hpre hinit
    refine hiff.mpr ?_ pre post w₁ heq hpre ((loaded_of_run hpre).2.mpr hinit)
    intro pre' op post' w' heq' hpre'
    cases op with
    | betweenInt a b =>
      exact fun hpos => h pre' a b post' w' heq' hpre' ((loaded_of_run hpre').2.mp hpos)
    | _ => trivial

/-- Every `init` with nonnegative weights of which the exact sum is a positive `int` is a step. -/
lemma step_init_of_nonneg {ndebug : Bool} {weight : List Int32} (w : WeightImpl)
    (hnonneg : ∀ x ∈ weight, 0 ≤ x) (hpos : 1 ≤ (weight.map Int32.toInt).sum)
    (hmax : (weight.map Int32.toInt).sum ≤ 2 ^ 31 - 1) :
    step ndebug w (.init weight) = some (w.initialised weight) := by
  have hsum := one_le_sum_of_nonneg hnonneg hpos hmax
  rw [step, if_pos hsum, init_eq ndebug w hsum]

/-- The weights of the source's own test are stored. -/
lemma run_init_thirty_twenty_fifty :
    run (step false) make [.init [30, 20, 50]] = some (make.initialised [30, 20, 50]) := by
  rw [run_singleton]
  exact step_init_of_nonneg make nonneg_thirty_twenty_fifty (by decide) (by decide)

/-- The weights of the source's own test, with a range that is narrowed by a caller. -/
theorem narrowed_range_served :
    ∃ w, run (step false) make [.init [30, 20, 50], .betweenInt 1 50] = some w ∧
      Served false w := by
  have hinit := run_init_thirty_twenty_fifty
  have hrun : run (step false) make [.init [30, 20, 50], .betweenInt 1 50] = some
      { make.initialised [30, 20, 50] with
        rand_ := (make.initialised [30, 20, 50]).rand_.betweenInt 1 50 } :=
    run_snoc_eq_some.mpr ⟨_, hinit, rfl⟩
  refine ⟨_, hrun, (draws_served_iff_range_kept false _ _ hrun).mpr ?_ _ [] _ (by simp) hrun
    ⟨[30, 20, 50], by simp⟩⟩
  intro pre a b post w₁ heq hpre _
  rcases pre with _ | ⟨x, _ | ⟨y, pre⟩⟩
  · simp at heq
  · obtain ⟨rfl, ⟨rfl, rfl⟩, rfl⟩ : _ = x ∧ (1 = a ∧ 50 = b) ∧ [] = post := by simpa using heq
    obtain rfl := Option.some.inj (hinit.symm.trans hpre)
    decide
  · simp at heq

/-- A caller takes the shared source for a number up to 1000; the next draw can be 500, and
the walk over weights that add up to 100 runs off its end. -/
theorem widened_range_runs_off :
    ∃ w, run (step false) make [.init [30, 20, 50], .betweenInt 1 1000] = some w ∧
      w.rand_.randInt_mt 500 ∧ ¬ (500 : Int32) ≤ w.sum_ ∧ w.getResult false 500 = none := by
  exact ⟨_, run_snoc_eq_some.mpr ⟨_, run_init_thirty_twenty_fifty, rfl⟩, by decide, by decide,
    by decide⟩

end WeightImpl

end CppServer.Rand
