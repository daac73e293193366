/-
# Runs of a partial step function and what they remember

A component is a deterministic step function `step : σ → ι → Option σ` on its states: the
label `ι` says which operation is performed and with which arguments, and `none` says that
the operation cannot be performed there (a failed assertion stops the program, or the
caller cannot own the argument it would have to pass).  A run performs a list of
operations one after the other.

The properties proved with this file relate a state to the whole list of operations that
led to it, so the induction rule `run_history` lets the invariant see the operations
performed so far.  `LastStep A ops pre op post` says where the most recent operation of
a given kind stands in the list.
-/
import Mathlib.Data.List.DropRight
import Mathlib.Data.List.Induction

namespace CppServer

variable {σ ι : Type*}

/-- Perform the operations `ops` one after the other, starting in state `s`. -/
def run (step : σ → ι → Option σ) (s : σ) : List ι → Option σ
  | [] => some s
  | op :: ops => (step s op).bind fun s' => run step s' ops

section Run

variable {step : σ → ι → Option σ} {s s' : σ} {ops ops' : List ι} {op : ι}

@[simp] lemma run_nil (step : σ → ι → Option σ) (s : σ) : run step s [] = some s := rfl

lemma run_cons (step : σ → ι → Option σ) (s : σ) (op : ι) (ops : List ι) :
    run step s (op :: ops) = (step s op).bind fun s' => run step s' ops := rfl

lemma run_append (step : σ → ι → Option σ) (s : σ) (ops ops' : List ι) :
    run step s (ops ++ ops') = (run step s ops).bind fun s' => run step s' ops' := by
  induction ops generalizing s with
  | nil => simp
  | cons op ops ih =>
    rw [List.cons_append, run_cons, run_cons, Option.bind_assoc]
    congr 1
    funext s'
    exact ih s'

lemma run_append_eq_some {s'' : σ} :
    run step s (ops ++ ops') = some s'' ↔
      ∃ s', run step s ops = some s' ∧ run step s' ops' = some s'' := by
  rw [run_append, Option.bind_eq_some_iff]

lemma run_singleton (step : σ → ι → Option σ) (s : σ) (op : ι) :
    run step s [op] = step s op := by
  rw [run_cons]
  simp

lemma run_cons_eq_some {s'' : σ} :
    run step s (op :: ops) = some s'' ↔
      ∃ s', step s op = some s' ∧ run step s' ops = some s'' := by
  rw [run_cons, Option.bind_eq_some_iff]

lemma run_snoc_eq_some {s'' : σ} :
    run step s (ops ++ [op]) = some s'' ↔
      ∃ s', run step s ops = some s' ∧ step s' op = some s'' := by
  simp only [run_append_eq_some, run_singleton]

/-- **Induction over a run.**  A relation between the operations performed so far and the
state they lead to holds of every run when it holds at the start and every step extends
it. -/
theorem run_history {P : List ι → σ → Prop} (hinit : P [] s)
    (hstep : ∀ ops s₁ op s₂, run step s ops = some s₁ → P ops s₁ → step s₁ op = some s₂ →
      P (ops ++ [op]) s₂) :
    ∀ {ops s'}, run step s ops = some s' → P ops s' := by
  intro ops
  induction ops using List.reverseRecOn with
  | nil =>
    intro s' h
    obtain rfl : s = s' := by simpa using h
    exact hinit
  | append_singleton ops op ih =>
    intro s' h
    obtain ⟨s₁, h₁, h₂⟩ := run_snoc_eq_some.mp h
    exact hstep ops s₁ op s' h₁ (ih h₁) h₂

/-- A property that every step preserves holds along every run. -/
theorem run_invariant {I : σ → Prop} (hstep : ∀ s₁ op s₂, I s₁ → step s₁ op = some s₂ → I s₂)
    (hinit : I s) (h : run step s ops = some s') : I s' :=
  run_history (P := fun _ => I) hinit (fun _ s₁ op s₂ _ => hstep s₁ op s₂) h

/-- The rest of a run behind its first operations. -/
lemma run_rest {pre post : List ι} {s₁ : σ} (hrun : run step s (pre ++ post) = some s')
    (hpre : run step s pre = some s₁) : run step s₁ post = some s' := by
  obtain ⟨s₁', hpre', hrest⟩ := run_append_eq_some.mp hrun
  obtain rfl : s₁ = s₁' := Option.some.inj (hpre.symm.trans hpre')
  exact hrest

/-- The step that a run takes behind its first operations. -/
lemma exists_step_of_run {pre post : List ι} {s₁ : σ}
    (hrun : run step s (pre ++ op :: post) = some s') (hpre : run step s pre = some s₁) :
    ∃ s₂, step s₁ op = some s₂ ∧ run step s₂ post = some s' :=
  run_cons_eq_some.mp (run_rest hrun hpre)

/-- A property that steps preserve when they meet `ok` holds along every run all of whose steps
meet it. -/
theorem run_invariant_of_steps {I : σ → Prop} {ok : σ → ι → Prop}
    (hstep : ∀ pre s₁ op s₂, run step s pre = some s₁ → I s₁ → ok s₁ op →
      step s₁ op = some s₂ → I s₂)
    (hinit : I s) (hrun : run step s ops = some s')
    (hok : ∀ pre op post s₁, ops = pre ++ op :: post → run step s pre = some s₁ → ok s₁ op) :
    I s' := by
  refine run_history (P := fun ops s' => (∀ pre op post s₁, ops = pre ++ op :: post →
    run step s pre = some s₁ → ok s₁ op) → I s') (fun _ => hinit) ?_ hrun hok
  intro ops s₁ op s₂ hrun₁ ih hstep₁ hok
  refine hstep ops s₁ op s₂ hrun₁ (ih ?_) (hok ops op [] s₁ rfl hrun₁) hstep₁
  exact fun pre op' post s' heq => hok pre op' (post ++ [op]) s' (by simp [heq])

/-- Maps of the states and of the operations under which each step is a step of another
system map runs to runs of that system. -/
lemma run_map {τ κ : Type*} {step' : τ → κ → Option τ} (f : σ → τ) (g : ι → κ)
    (hstep : ∀ s op, (step s op).map f = step' (f s) (g op)) (s : σ) (ops : List ι) :
    (run step s ops).map f = run step' (f s) (ops.map g) := by
  induction ops generalizing s with
  | nil => rfl
  | cons op ops ih =>
    rw [List.map_cons, run_cons, run_cons, ← hstep]
    cases step s op with
    | none => rfl
    | some s' => simpa using ih s'

end Run

/-- Every operation meets `ok` in the state in which it is performed. -/
def Along (step : σ → ι → Option σ) (ok : σ → ι → Prop) (s : σ) : List ι → Prop
  | [] => True
  | op :: ops => ok s op ∧ ∀ s', step s op = some s' → Along step ok s' ops

/-- The steps of a given run can be checked one after the other. -/
instance Along.decidable {step : σ → ι → Option σ} {ok : σ → ι → Prop}
    [∀ s op, Decidable (ok s op)] : ∀ s ops, Decidable (Along step ok s ops)
  | _, [] => isTrue trivial
  | s, op :: ops =>
    match h : step s op with
    | none => decidable_of_iff (ok s op) (by simp [Along, h])
    | some s' =>
      have : Decidable (Along step ok s' ops) := Along.decidable s' ops
      decidable_of_iff (ok s op ∧ Along step ok s' ops) (by simp [Along, h])

lemma along_iff {step : σ → ι → Option σ} {ok : σ → ι → Prop} {s : σ} {ops : List ι} :
    Along step ok s ops ↔
      ∀ pre op post s₁, ops = pre ++ op :: post → run step s pre = some s₁ → ok s₁ op := by
  induction ops generalizing s with
  | nil => exact ⟨fun _ pre op post s₁ h => absurd h (by simp), fun _ => trivial⟩
  | cons op ops ih =>
    constructor
    · rintro ⟨hop, hrest⟩ pre op' post s₁ heq hrun
      cases pre with
      | nil =>
        obtain ⟨rfl, -⟩ : op = op' ∧ ops = post := by simpa using heq
        obtain rfl : s = s₁ := by simpa using hrun
        exact hop
      | cons x pre =>
        obtain ⟨rfl, rfl⟩ : op = x ∧ ops = pre ++ op' :: post := by simpa using heq
        obtain ⟨s', hstep, hrun'⟩ := run_cons_eq_some.mp hrun
        exact ih.mp (hrest s' hstep) pre op' post s₁ rfl hrun'
    · intro h
      refine ⟨h [] op ops s rfl rfl, fun s' hstep => ih.mpr fun pre op' post s₁ heq hrun => ?_⟩
      exact h (op :: pre) op' post s₁ (by simp [heq]) (run_cons_eq_some.mpr ⟨s', hstep, hrun⟩)

lemma along_append {step : σ → ι → Option σ} {ok : σ → ι → Prop} {s : σ} {ops ops' : List ι} :
    Along step ok s (ops ++ ops') ↔
      Along step ok s ops ∧ ∀ s', run step s ops = some s' → Along step ok s' ops' := by
  induction ops generalizing s with
  | nil => simp [Along]
  | cons op ops ih =>
    rw [List.cons_append, Along, Along, and_assoc]
    refine and_congr_right fun _ => ?_
    simp only [ih, run_cons_eq_some]
    constructor
    · intro h
      exact ⟨fun s' hstep => (h s' hstep).1,
        fun s'' ⟨s', hstep, hrun⟩ => (h s' hstep).2 s'' hrun⟩
    · rintro ⟨h, h'⟩ s' hstep
      exact ⟨h s' hstep, fun s'' hrun => h' s'' ⟨s', hstep, hrun⟩⟩

/-- An invariant that a step keeps exactly when it meets `ok` holds at every point of a run
exactly when every step of the run meets it. -/
theorem run_invariant_iff {step : σ → ι → Option σ} {I : σ → Prop} {ok : σ → ι → Prop}
    {s s' : σ} {ops : List ι}
    (hok : ∀ pre s₁ op s₂, run step s pre = some s₁ → I s₁ → step s₁ op = some s₂ →
      (I s₂ ↔ ok s₁ op))
    (hinit : I s) (hrun : run step s ops = some s') :
    (∀ pre post s₁, ops = pre ++ post → run step s pre = some s₁ → I s₁) ↔
      ∀ pre op post s₁, ops = pre ++ op :: post → run step s pre = some s₁ → ok s₁ op := by
  constructor
  · intro h pre op post s₁ heq hrun₁
    obtain ⟨s₂, hstep, -⟩ := exists_step_of_run (heq ▸ hrun) hrun₁
    have h₁ : I s₁ := h pre (op :: post) s₁ heq hrun₁
    have h₂ : I s₂ :=
      h (pre ++ [op]) post s₂ (by simp [heq]) (run_snoc_eq_some.mpr ⟨s₁, hrun₁, hstep⟩)
    exact (hok pre s₁ op s₂ hrun₁ h₁ hstep).mp h₂
  · intro h pre post s₁ heq hrun₁
    have hpre : ∀ pre' op post' s₁', pre = pre' ++ op :: post' →
        run step s pre' = some s₁' → ok s₁' op :=
      fun pre' op post' s₁' heq' => h pre' op (post' ++ post) s₁' (by simp [heq, heq'])
    refine run_invariant_of_steps ?_ hinit hrun₁ hpre
    intro pre' s₁ op s₂ hrun' h₁ hop hstep
    exact (hok pre' s₁ op s₂ hrun' h₁ hstep).mpr hop

/-- A run stays in the class of its start exactly when each of its steps stays in the class
of the state it starts in. -/
lemma run_class_iff {step : σ → ι → Option σ} {R : σ → σ → Prop} (hR : Equivalence R)
    {ok : σ → ι → Prop} (hok : ∀ s op s', step s op = some s' → (R s' s ↔ ok s op))
    {s s' : σ} {ops : List ι} (hrun : run step s ops = some s') :
    (∀ pre post s₁, ops = pre ++ post → run step s pre = some s₁ → R s₁ s) ↔
      ∀ pre op post s₁, ops = pre ++ op :: post → run step s pre = some s₁ → ok s₁ op := by
  refine run_invariant_iff (I := fun s₁ => R s₁ s) ?_ (hR.refl s) hrun
  intro _ s₁ op s₂ _ h₁ hstep
  rw [← hok s₁ op s₂ hstep]
  exact ⟨fun h₂ => hR.trans h₂ (hR.symm h₁), fun h₂ => hR.trans h₂ h₁⟩

/-- What `assert(p)` does: nothing when it holds or when the program is compiled with
`NDEBUG`, and otherwise it stops the program. -/
def cassert (ndebug : Bool) (p : Prop) [Decidable p] : Option Unit :=
  if ndebug ∨ p then some () else none

/-- Why a call has no result: an assertion fails, or it accesses memory outside an object. -/
inductive Fault where
  | assertion
  | outOfBounds
deriving DecidableEq

/-- `assert(p)` in a program whose accesses to memory are checked too. -/
def require (p : Prop) [Decidable p] : Except Fault Unit :=
  if p then .ok () else .error .assertion

/-- A call behind a call that succeeded. -/
lemma except_bind_eq_ok {ε α β : Type} {x : Except ε α} {f : α → Except ε β} {b : β} :
    x >>= f = .ok b ↔ ∃ a, x = .ok a ∧ f a = .ok b := by
  cases x <;> simp [bind, Except.bind]

/-- A call fails by itself, or behind a call that succeeded. -/
lemma except_bind_eq_error {ε α β : Type} {x : Except ε α} {f : α → Except ε β} {e : ε} :
    x >>= f = .error e ↔ x = .error e ∨ ∃ a, x = .ok a ∧ f a = .error e := by
  cases x <;> simp [bind, Except.bind]

section Require

variable {α : Type} {p : Prop} [Decidable p] {f : Unit → Except Fault α}

@[simp] lemma require_bind_eq_ok {a : α} :
    require p >>= f = .ok a ↔ p ∧ f () = .ok a := by
  by_cases h : p
  · simp [require, h, bind, Except.bind]
  · simp [require, h, bind, Except.bind]

@[simp] lemma require_bind_eq_outOfBounds :
    require p >>= f = .error .outOfBounds ↔ p ∧ f () = .error .outOfBounds := by
  by_cases h : p
  · simp [require, h, bind, Except.bind]
  · simp [require, h, bind, Except.bind]

end Require

/-! ## The operations behind a reset -/

section SinceLast

variable [DecidableEq ι] {ops : List ι} {op reset : ι}

/-- The operations behind the last `reset`, or all of them if there is none. -/
def sinceLast (reset : ι) (ops : List ι) : List ι := ops.rtakeWhile (· ≠ reset)

lemma sinceLast_self : sinceLast reset (ops ++ [reset]) = [] := by
  simp [sinceLast]

lemma sinceLast_snoc (h : op ≠ reset) : sinceLast reset (ops ++ [op]) = sinceLast reset ops ++ [op] := by
  simp [sinceLast, h]

/-- What is read off the operations behind the last `reset` grows at its end. -/
lemma filterMap_sinceLast_snoc {α : Type*} (f : ι → Option α) (h : op ≠ reset) :
    (sinceLast reset (ops ++ [op])).filterMap f =
      (sinceLast reset ops).filterMap f ++ (f op).toList := by
  rw [sinceLast_snoc h, List.filterMap_append]
  cases hf : f op <;> simp [hf]

end SinceLast

/-! ## The most recent step of a kind -/

/-- The last element of a list that has a last element splits off in one of two ways. -/
lemma snoc_eq_split_iff {ops pre post : List ι} {x op : ι} :
    ops ++ [x] = pre ++ op :: post ↔
      (pre = ops ∧ op = x ∧ post = []) ∨ ∃ post', post = post' ++ [x] ∧ ops = pre ++ op :: post' := by
  constructor
  · intro h
    induction post using List.reverseRecOn with
    | nil =>
      obtain ⟨h₁, h₂⟩ := List.append_inj' h rfl
      exact Or.inl ⟨h₁.symm, by simpa using h₂.symm, rfl⟩
    | append_singleton post' y _ =>
      rw [← List.cons_append, ← List.append_assoc] at h
      obtain ⟨h₁, h₂⟩ := List.append_inj' h rfl
      obtain rfl : x = y := by simpa using h₂
      exact Or.inr ⟨post', rfl, h₁⟩
  · rintro (⟨rfl, rfl, rfl⟩ | ⟨post', rfl, rfl⟩)
    · rfl
    · simp

/-- `LastStep A ops pre op post`: the history `ops` is `pre`, then `op`, then `post`, where
`op` is an `A`-step after the history `pre` and no step of `post` is an `A`-step after the
history it then has. -/
structure LastStep (A : List ι → ι → Prop) (ops pre : List ι) (op : ι) (post : List ι) :
    Prop where
  split : ops = pre ++ op :: post
  holds : A pre op
  none_after : ∀ mid op' rest, post = mid ++ op' :: rest → ¬ A (pre ++ op :: mid) op'

section LastStep

variable {A : List ι → ι → Prop} {ops pre post : List ι} {op x : ι}

lemma not_lastStep_nil : ¬ LastStep A [] pre op post := by
  intro h
  exact absurd h.split (by simp)

/-- After an `A`-step, that step is the last one. -/
lemma lastStep_snoc_of_holds (hx : A ops x) :
    LastStep A (ops ++ [x]) pre op post ↔ pre = ops ∧ op = x ∧ post = [] := by
  constructor
  · intro h
    rcases snoc_eq_split_iff.mp h.split with h' | ⟨post', rfl, rfl⟩
    · exact h'
    · exact absurd hx (h.none_after post' x [] rfl)
  · rintro ⟨rfl, rfl, rfl⟩
    exact ⟨rfl, hx, fun mid op' rest h => absurd h (by simp)⟩

/-- A step that is not an `A`-step leaves the last one where it is. -/
lemma lastStep_snoc_of_not (hx : ¬ A ops x) :
    LastStep A (ops ++ [x]) pre op post ↔
      ∃ post', post = post' ++ [x] ∧ LastStep A ops pre op post' := by
  constructor
  · intro h
    rcases snoc_eq_split_iff.mp h.split with ⟨rfl, rfl, rfl⟩ | ⟨post', rfl, hops⟩
    · exact absurd h.holds hx
    · refine ⟨post', rfl, hops, h.holds, fun mid op' rest hpost => ?_⟩
      exact h.none_after mid op' (rest ++ [x]) (by simp [hpost])
  · rintro ⟨post', rfl, h⟩
    refine ⟨by simp [h.split], h.holds, fun mid op' rest hpost => ?_⟩
    rcases snoc_eq_split_iff.mp hpost with ⟨rfl, rfl, rfl⟩ | ⟨rest', rfl, hpost'⟩
    · rw [← h.split]
      exact hx
    · exact h.none_after mid op' rest' hpost'

/-- There is only one last step. -/
lemma LastStep.unique {pre' post' : List ι} {op' : ι} (h : LastStep A ops pre op post)
    (h' : LastStep A ops pre' op' post') : pre = pre' ∧ op = op' ∧ post = post' := by
  have heq : pre ++ op :: post = pre' ++ op' :: post' := h.split.symm.trans h'.split
  rcases List.append_eq_append_iff.mp heq with ⟨as, rfl, has⟩ | ⟨as, rfl, has⟩
  · cases as with
    | nil => simpa using has
    | cons a as =>
      obtain ⟨rfl, hpost⟩ : op = a ∧ post = as ++ op' :: post' := by simpa using has
      exact absurd h'.holds (h.none_after as op' post' hpost)
  · cases as with
    | nil => simpa [eq_comm] using has
    | cons a as =>
      obtain ⟨rfl, hpost⟩ : op' = a ∧ post' = as ++ op :: post := by simpa using has
      exact absurd h.holds (h'.none_after as op post hpost)

end LastStep

end CppServer
