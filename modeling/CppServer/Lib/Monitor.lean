/-
# Monitors with condition variables

A monitor is a shared state behind a mutex.  An operation of a thread locks the mutex, waits in
a loop on a condition variable until the state is ready for it, acts, and notifies a condition
variable.  The mutex is free only while a thread waits, so what a thread does between two points
at which it is free is one step: the test of the loop together with the wait, or with the rest
of the operation.

A notification wakes one of the threads that are blocked on the condition variable, if there are
any; a thread may also wake up without one.  A thread that was woken tests again.

Condition variables that count units of a resource lose no wakeup: as long as a thread is blocked
on one, there are no more units than threads that were woken and have not tested yet.

What a run leaves is what its operations leave that are performed one after the other.
-/
import Mathlib.Data.Fintype.Card
import CppServer.Lib.Run

namespace CppServer

/-- The operations `ι` on the shared state `σ` with the condition variables `γ`. -/
structure Monitor (σ ι γ : Type) where
  /-- The condition variable of the loop, for an operation that has one. -/
  cond : ι → Option γ
  /-- The loop ends. -/
  ready : ι → σ → Bool
  /-- What the operation does behind the loop. -/
  act : ι → σ → σ
  /-- The condition variable that is notified behind it. -/
  notify : ι → Option γ

namespace Monitor

/-- Where a thread is: outside, blocked in the loop of an operation, or woken and about to
test again. -/
inductive Phase (ι : Type) where
  | idle
  | blocked (op : ι)
  | woken (op : ι)
deriving DecidableEq

/-- The shared state and the threads. -/
structure State (σ ι τ : Type) where
  shared : σ
  phase : τ → Phase ι

/-- The steps.  The thread that a notification wakes is named with the step. -/
inductive Label (ι τ : Type) where
  /-- An idle thread calls an operation. -/
  | call (t : τ) (op : ι) (woken : Option τ)
  /-- A woken thread tests again. -/
  | resume (t : τ) (woken : Option τ)
  /-- A blocked thread wakes up without a notification. -/
  | spurious (t : τ)
deriving DecidableEq

variable {σ ι γ τ : Type} [DecidableEq γ] [DecidableEq τ] [Fintype τ]

/-- The threads whose phase belongs to a condition variable. -/
def threadsAt (f : Phase ι → Option γ) (phase : τ → Phase ι) (c : γ) : Finset τ :=
  Finset.univ.filter fun t => f (phase t) = some c

section Step

variable (m : Monitor σ ι γ)

/-- The condition variable on which a thread is blocked. -/
def blockedAt : Phase ι → Option γ
  | .blocked op => m.cond op
  | .idle | .woken _ => none

/-- The condition variable from which a thread was woken. -/
def wokenAt : Phase ι → Option γ
  | .woken op => m.cond op
  | .idle | .blocked _ => none

/-- The threads that are blocked on a condition variable. -/
def blockedOn (phase : τ → Phase ι) (c : γ) : Finset τ := threadsAt m.blockedAt phase c

/-- The threads that were woken from a condition variable and did not test yet. -/
def wokenFrom (phase : τ → Phase ι) (c : γ) : Finset τ := threadsAt m.wokenAt phase c

/-- A blocked thread is woken. -/
def Phase.wake : Phase ι → Phase ι
  | .blocked op => .woken op
  | .idle => .idle
  | .woken op => .woken op

/-- `notify` on a condition variable. -/
def signal (phase : τ → Phase ι) : Option γ → Option τ → Option (τ → Phase ι)
  | none, none => some phase
  | none, some _ => none
  | some c, none => if m.blockedOn phase c = ∅ then some phase else none
  | some c, some t =>
    if t ∈ m.blockedOn phase c then some (Function.update phase t (phase t).wake) else none

/-- A thread tests: it acts and leaves, or it waits. -/
def attempt (s : State σ ι τ) (t : τ) (op : ι) (woken : Option τ) : Option (State σ ι τ) :=
  if m.ready op s.shared then
    (m.signal (Function.update s.phase t .idle) (m.notify op) woken).map fun phase =>
      ⟨m.act op s.shared, phase⟩
  else if woken = none then some { s with phase := Function.update s.phase t (.blocked op) }
  else none

/-- One step between two points at which the mutex is free. -/
def step (s : State σ ι τ) : Label ι τ → Option (State σ ι τ)
  | .call t op woken =>
    match s.phase t with
    | .idle => m.attempt s t op woken
    | .blocked _ | .woken _ => none
  | .resume t woken =>
    match s.phase t with
    | .woken op => m.attempt s t op woken
    | .idle | .blocked _ => none
  | .spurious t =>
    match s.phase t with
    | .blocked op => some { s with phase := Function.update s.phase t (.woken op) }
    | .idle | .woken _ => none

end Step

/-! ## Counting threads -/

section Counting

variable {f : Phase ι → Option γ} {phase : τ → Phase ι} {t : τ} {c : γ}

omit [DecidableEq τ] in
lemma mem_threadsAt : t ∈ threadsAt f phase c ↔ f (phase t) = some c := by
  simp [threadsAt]

/-- A thread that changes its phase leaves one set and enters another. -/
lemma card_threadsAt_update (f : Phase ι → Option γ) (phase : τ → Phase ι) (t : τ) (ph : Phase ι)
    (c : γ) :
    (threadsAt f (Function.update phase t ph) c).card + (if f (phase t) = some c then 1 else 0) =
      (threadsAt f phase c).card + (if f ph = some c then 1 else 0) := by
  -- without the thread the two sets are the same
  have hrest : (threadsAt f (Function.update phase t ph) c).erase t =
      (threadsAt f phase c).erase t := by
    ext u
    by_cases hu : u = t
    · simp [hu]
    · simp [hu, mem_threadsAt]
  have hcount : ∀ (phase : τ → Phase ι), (threadsAt f phase c).card =
      ((threadsAt f phase c).erase t).card + (if f (phase t) = some c then 1 else 0) := by
    intro phase
    by_cases h : f (phase t) = some c
    · rw [if_pos h, Finset.card_erase_add_one (mem_threadsAt.mpr h)]
    · rw [if_neg h, Finset.erase_eq_of_notMem (fun hmem => h (mem_threadsAt.mp hmem)),
        Nat.add_zero]
  have hnew := hcount (Function.update phase t ph)
  have hold := hcount phase
  rw [Function.update_self, hrest] at hnew
  omega

end Counting

section Step

variable {m : Monitor σ ι γ} {s s' : State σ ι τ} {l : Label ι τ}

/-- The thread can test for the operation: it is about to call it, or it was woken in it. -/
def CanTest (s : State σ ι τ) (t : τ) (op : ι) : Prop :=
  s.phase t = .idle ∨ s.phase t = .woken op

lemma attempt_cases {t : τ} {op : ι} {woken : Option τ} (hcan : CanTest s t op)
    (h : m.attempt s t op woken = some s') :
    (∃ t op woken phase, CanTest s t op ∧ m.ready op s.shared = true ∧
      m.signal (Function.update s.phase t .idle) (m.notify op) woken = some phase ∧
      s' = ⟨m.act op s.shared, phase⟩) ∨
    (∃ t op, CanTest s t op ∧ m.ready op s.shared = false ∧
      s' = { s with phase := Function.update s.phase t (.blocked op) }) := by
  rw [attempt] at h
  split at h
  · rename_i hready
    obtain ⟨phase, hphase, rfl⟩ := Option.map_eq_some_iff.mp h
    exact .inl ⟨t, op, woken, phase, hcan, hready, hphase, rfl⟩
  · rename_i hready
    split at h
    · exact .inr ⟨t, op, hcan, by simpa using hready, (Option.some.inj h).symm⟩
    · exact absurd h (by simp)

/-- What a step can be: an operation is performed, a thread blocks, or a thread wakes up by
itself. -/
lemma step_cases (h : m.step s l = some s') :
    (∃ t op woken phase, CanTest s t op ∧ m.ready op s.shared = true ∧
      m.signal (Function.update s.phase t .idle) (m.notify op) woken = some phase ∧
      s' = ⟨m.act op s.shared, phase⟩) ∨
    (∃ t op, CanTest s t op ∧ m.ready op s.shared = false ∧
      s' = { s with phase := Function.update s.phase t (.blocked op) }) ∨
    (∃ t op, s.phase t = .blocked op ∧
      s' = { s with phase := Function.update s.phase t (.woken op) }) := by
  cases l with
  | call t op woken =>
    cases hphase : s.phase t with
    | idle =>
      have hatt : m.attempt s t op woken = some s' := by simpa [step, hphase] using h
      exact (attempt_cases (.inl hphase) hatt).imp_right .inl
    | blocked op' => simp [step, hphase] at h
    | woken op' => simp [step, hphase] at h
  | resume t woken =>
    cases hphase : s.phase t with
    | woken op =>
      have hatt : m.attempt s t op woken = some s' := by simpa [step, hphase] using h
      exact (attempt_cases (.inr hphase) hatt).imp_right .inl
    | idle => simp [step, hphase] at h
    | blocked op' => simp [step, hphase] at h
  | spurious t =>
    cases hphase : s.phase t with
    | blocked op => exact .inr (.inr ⟨t, op, hphase, by simpa [step, hphase, eq_comm] using h⟩)
    | idle => simp [step, hphase] at h
    | woken op' => simp [step, hphase] at h

/-- A notification moves one thread from the blocked ones to the woken ones, if there is one. -/
lemma signal_counts {phase phase' : τ → Phase ι} {n : Option γ} {woken : Option τ}
    (h : m.signal phase n woken = some phase') (c : γ) :
    (m.blockedOn phase' c).card ≤ (m.blockedOn phase c).card ∧
      (m.wokenFrom phase c).card ≤ (m.wokenFrom phase' c).card ∧
      (n = some c → (m.blockedOn phase c).Nonempty →
        (m.wokenFrom phase c).card + 1 ≤ (m.wokenFrom phase' c).card) := by
  cases n with
  | none =>
    cases woken with
    | none =>
      obtain rfl := Option.some.inj h
      simp
    | some t => simp [signal] at h
  | some c' =>
    cases woken with
    | none =>
      simp only [signal] at h
      split at h
      · rename_i hempty
        obtain rfl := Option.some.inj h
        refine ⟨Nat.le_refl _, Nat.le_refl _, fun hc hne => ?_⟩
        obtain rfl := Option.some.inj hc
        rw [hempty] at hne
        exact absurd hne (by simp)
      · exact absurd h (by simp)
    | some t =>
      simp only [signal] at h
      split at h
      · rename_i hmem
        obtain rfl := Option.some.inj h
        have hat : m.blockedAt (phase t) = some c' := mem_threadsAt.mp hmem
        cases hphase : phase t with
        | idle => simp [hphase, blockedAt] at hat
        | woken op => simp [hphase, blockedAt] at hat
        | blocked op =>
          have hop : m.cond op = some c' := by simpa [hphase, blockedAt] using hat
          have hb := card_threadsAt_update m.blockedAt phase t (.woken op) c
          have hw := card_threadsAt_update m.wokenAt phase t (.woken op) c
          simp only [hphase, blockedAt, wokenAt, hop, reduceCtorEq, if_false, Nat.add_zero] at hb hw
          simp only [Phase.wake, blockedOn, wokenFrom]
          refine ⟨by omega, by omega, fun hc _ => ?_⟩
          rw [if_pos hc] at hw
          omega
      · exact absurd h (by simp)

end Step

/-- A thread that can test can always take its step: whom a notification wakes is not up to
it. -/
lemma exists_attempt (m : Monitor σ ι γ) (s : State σ ι τ) (t : τ) (op : ι) :
    ∃ woken s', m.attempt s t op woken = some s' := by
  cases hready : m.ready op s.shared with
  | false => exact ⟨none, _, by rw [attempt, hready, if_neg (by simp), if_pos rfl]⟩
  | true =>
    have hsignal : ∃ woken phase,
        m.signal (Function.update s.phase t .idle) (m.notify op) woken = some phase := by
      cases m.notify op with
      | none => exact ⟨none, _, rfl⟩
      | some c =>
        rcases Finset.eq_empty_or_nonempty (m.blockedOn (Function.update s.phase t .idle) c) with
          hempty | ⟨u, hu⟩
        · exact ⟨none, _, if_pos hempty⟩
        · exact ⟨some u, _, if_pos hu⟩
    obtain ⟨woken, phase, hphase⟩ := hsignal
    exact ⟨woken, _, by rw [attempt, if_pos hready, hphase, Option.map_some]⟩

/-- A thread that is outside or was woken can take a step. -/
lemma exists_step_of_not_blocked (m : Monitor σ ι γ) {s : State σ ι τ} {t : τ}
    (h : ∀ op, s.phase t ≠ .blocked op) (op : ι) :
    ∃ l s', m.step s l = some s' ∧ ((∃ woken, l = .call t op woken) ∨ ∃ woken, l = .resume t woken) := by
  cases hphase : s.phase t with
  | blocked op' => exact absurd hphase (h op')
  | idle =>
    obtain ⟨woken, s', hs'⟩ := exists_attempt m s t op
    exact ⟨.call t op woken, s', by simpa [step, hphase] using hs', .inl ⟨woken, rfl⟩⟩
  | woken op' =>
    obtain ⟨woken, s', hs'⟩ := exists_attempt m s t op'
    exact ⟨.resume t woken, s', by simpa [step, hphase] using hs', .inr ⟨woken, rfl⟩⟩

/-! ## The operations of a run -/

section History

variable (m : Monitor σ ι γ)

/-- The operation that is performed in a step, where a thread tests and its loop ends. -/
def performed (s : State σ ι τ) : Label ι τ → Option ι
  | .call _ op _ => if m.ready op s.shared then some op else none
  | .resume t _ =>
    match s.phase t with
    | .woken op => if m.ready op s.shared then some op else none
    | .idle | .blocked _ => none
  | .spurious _ => none

/-- The operations that are performed in a run, in their order. -/
def history (s : State σ ι τ) : List (Label ι τ) → List ι
  | [] => []
  | l :: ls => (m.performed s l).toList ++ (m.step s l).elim [] fun s' => history s' ls

/-- What operations return that are performed one after the other. -/
def outputs {β : Type} (result : ι → σ → List β) (q : σ) : List ι → List β
  | [] => []
  | op :: ops => result op q ++ outputs result (m.act op q) ops

variable {m} {s s' : State σ ι τ} {l : Label ι τ} {ls : List (Label ι τ)}

lemma shared_of_attempt {t : τ} {op : ι} {woken : Option τ} (h : m.attempt s t op woken = some s') :
    s'.shared = (if m.ready op s.shared then some op else none).elim s.shared
      fun op => m.act op s.shared := by
  rw [attempt] at h
  split_ifs at h with hready
  · obtain ⟨phase, -, rfl⟩ := Option.map_eq_some_iff.mp h
    rw [if_pos hready]
    rfl
  · obtain rfl := Option.some.inj h
    rw [if_neg hready]
    rfl

lemma shared_of_step (h : m.step s l = some s') :
    s'.shared = (m.performed s l).elim s.shared fun op => m.act op s.shared := by
  cases l with
  | call t op woken =>
    cases hphase : s.phase t with
    | idle =>
      have hattempt : m.attempt s t op woken = some s' := by simpa [step, hphase] using h
      exact shared_of_attempt hattempt
    | blocked op' => simp [step, hphase] at h
    | woken op' => simp [step, hphase] at h
  | resume t woken =>
    cases hphase : s.phase t with
    | woken op =>
      have hattempt : m.attempt s t op woken = some s' := by simpa [step, hphase] using h
      simp only [performed, hphase]
      exact shared_of_attempt hattempt
    | idle => simp [step, hphase] at h
    | blocked op' => simp [step, hphase] at h
  | spurious t =>
    cases hphase : s.phase t with
    | blocked op =>
      obtain rfl : _ = s' := by simpa [step, hphase] using h
      rfl
    | idle => simp [step, hphase] at h
    | woken op' => simp [step, hphase] at h

/-- The shared state behind a run is that of its operations, performed one after the other. -/
theorem shared_of_run (hrun : run m.step s ls = some s') :
    s'.shared = (m.history s ls).foldl (fun q op => m.act op q) s.shared := by
  induction ls generalizing s with
  | nil =>
    obtain rfl := Option.some.inj hrun
    rfl
  | cons l ls ih =>
    obtain ⟨s₁, hstep, hrest⟩ := run_cons_eq_some.mp hrun
    have hshared := shared_of_step hstep
    rw [ih hrest, history, hstep, Option.elim_some, List.foldl_append, hshared]
    cases m.performed s l <;> rfl

omit [DecidableEq γ] in
/-- A log to which every operation adds what it returns. -/
lemma log_foldl {β : Type} {log : σ → List β} {result : ι → σ → List β}
    (h : ∀ op q, log (m.act op q) = log q ++ result op q) (ops : List ι) (q : σ) :
    log (ops.foldl (fun q op => m.act op q) q) = log q ++ m.outputs result q ops := by
  induction ops generalizing q with
  | nil => simp [outputs]
  | cons op ops ih => rw [List.foldl_cons, ih, h, outputs, List.append_assoc]

omit [DecidableEq γ] in
/-- What does not depend on the state is read off the operations. -/
lemma outputs_eq_filterMap {β : Type} (f : ι → Option β) (q : σ) (ops : List ι) :
    m.outputs (fun op _ => (f op).toList) q ops = ops.filterMap f := by
  induction ops generalizing q with
  | nil => rfl
  | cons op ops ih =>
    rw [outputs, ih, List.filterMap_cons]
    cases f op <;> rfl

end History

/-! ## No lost wakeup -/

/-- The condition variables count units: `avail c` units are there for the operations that wait
on `c`, such an operation takes one, and one is added to a condition variable only by an
operation that notifies it. -/
structure Counts (m : Monitor σ ι γ) (avail : γ → σ → ℕ) : Prop where
  ready_iff : ∀ op s c, m.cond op = some c → (m.ready op s = true ↔ 0 < avail c s)
  takes : ∀ op s c, m.cond op = some c → m.ready op s = true → avail c (m.act op s) + 1 ≤ avail c s
  adds : ∀ op s c, m.cond op ≠ some c → m.ready op s = true →
    avail c (m.act op s) ≤ avail c s + if m.notify op = some c then 1 else 0

/-- As long as a thread is blocked, the units are left to threads that were woken. -/
def NoLostWakeup (m : Monitor σ ι γ) (avail : γ → σ → ℕ) (s : State σ ι τ) : Prop :=
  ∀ c, (m.blockedOn s.phase c).Nonempty → avail c s.shared ≤ (m.wokenFrom s.phase c).card

section NoLostWakeup

variable {m : Monitor σ ι γ} {avail : γ → σ → ℕ} {s s' : State σ ι τ} {l : Label ι τ}

/-- A thread that leaves its test is no blocked thread, and was woken from at most one condition
variable. -/
lemma counts_leave {t : τ} {op : ι} (hcan : CanTest s t op) (ph : Phase ι) (c : γ) :
    (m.blockedOn (Function.update s.phase t ph) c).card =
        (m.blockedOn s.phase c).card + (if m.blockedAt ph = some c then 1 else 0) ∧
      (m.wokenFrom s.phase c).card ≤ (m.wokenFrom (Function.update s.phase t ph) c).card +
        (if m.cond op = some c then 1 else 0) := by
  have hb := card_threadsAt_update m.blockedAt s.phase t ph c
  have hw := card_threadsAt_update m.wokenAt s.phase t ph c
  rcases hcan with hphase | hphase
  · simp only [hphase, blockedAt, wokenAt, reduceCtorEq, if_false, Nat.add_zero] at hb hw
    refine ⟨hb, ?_⟩
    simp only [wokenFrom]
    omega
  · simp only [hphase, blockedAt, wokenAt, reduceCtorEq, if_false, Nat.add_zero] at hb hw
    refine ⟨hb, ?_⟩
    simp only [wokenFrom]
    omega

lemma noLostWakeup_step (hm : m.Counts avail) (h : NoLostWakeup m avail s)
    (hstep : m.step s l = some s') : NoLostWakeup m avail s' := by
  intro c hne
  rcases step_cases hstep with ⟨t, op, woken, phase, hcan, hready, hsignal, rfl⟩ |
    ⟨t, op, hcan, hready, rfl⟩ | ⟨t, op, hphase, rfl⟩
  · -- the operation is performed
    obtain ⟨hb, hw⟩ := counts_leave (m := m) hcan .idle c
    obtain ⟨hb', hw', hsig⟩ := signal_counts hsignal c
    simp only [blockedAt, reduceCtorEq, if_false, Nat.add_zero] at hb
    have hpos := Finset.card_pos.mpr hne
    have hold := h c (Finset.card_pos.mp (by simp only at hpos; omega))
    by_cases hc : m.cond op = some c
    · have htakes := hm.takes op s.shared c hc hready
      rw [if_pos hc] at hw
      simp only
      omega
    · have hadds := hm.adds op s.shared c hc hready
      rw [if_neg hc] at hw
      by_cases hn : m.notify op = some c
      · rw [if_pos hn] at hadds
        have hmore := hsig hn (Finset.card_pos.mp (by simp only at hpos; omega))
        simp only
        omega
      · rw [if_neg hn] at hadds
        simp only
        omega
  · -- a thread that has to wait found no unit
    obtain ⟨hb, hw⟩ := counts_leave (m := m) hcan (.blocked op) c
    by_cases hc : m.cond op = some c
    · have hnone : ¬ 0 < avail c s.shared := fun hpos => by
        rw [(hm.ready_iff op s.shared c hc).mpr hpos] at hready
        exact absurd hready (by simp)
      simp only
      omega
    · simp only [blockedAt, hc, if_false, Nat.add_zero] at hb hw
      have hpos := Finset.card_pos.mpr hne
      have hold := h c (Finset.card_pos.mp (by simp only at hpos; omega))
      simp only
      omega
  · have hb := card_threadsAt_update m.blockedAt s.phase t (.woken op) c
    have hw := card_threadsAt_update m.wokenAt s.phase t (.woken op) c
    simp only [hphase, blockedAt, wokenAt, reduceCtorEq, if_false, Nat.add_zero] at hb hw
    have hpos := Finset.card_pos.mpr hne
    have hold := h c (Finset.card_pos.mp (by simp only [blockedOn] at hpos ⊢; omega))
    simp only [wokenFrom] at hold ⊢
    omega

/-- **No wakeup is lost** in any run of the threads. -/
theorem noLostWakeup_run (hm : m.Counts avail) {ls : List (Label ι τ)} {s₀ : σ}
    (hrun : run m.step ⟨s₀, fun _ => .idle⟩ ls = some s) : NoLostWakeup m avail s := by
  refine run_invariant (I := NoLostWakeup m avail) (fun _ _ _ h hstep => noLostWakeup_step hm h hstep)
    ?_ hrun
  intro c hne
  obtain ⟨t, ht⟩ := hne
  exact absurd (mem_threadsAt.mp ht) (by simp [blockedAt])

/-- What holds behind a run of threads that begins with the shared state `s₀`. -/
structure Behaved (m : Monitor σ ι γ) (avail : γ → σ → ℕ) (s₀ : σ) (ls : List (Label ι τ))
    (s : State σ ι τ) : Prop where
  /-- The shared state is that of the operations, performed one after the other. -/
  shared_eq : s.shared = (m.history ⟨s₀, fun _ => .idle⟩ ls).foldl (fun q op => m.act op q) s₀
  /-- As long as a thread is blocked, there are no more units than threads that were woken. -/
  noLostWakeup : NoLostWakeup m avail s
  /-- A thread that is not blocked can go on. -/
  goes_on (t : τ) (op : ι) : (∀ op', s.phase t ≠ .blocked op') →
    ∃ l s', m.step s l = some s' ∧ ((∃ woken, l = .call t op woken) ∨ ∃ woken, l = .resume t woken)

/-- **Every run is a sequence of operations**, loses no wakeup, and never stops a thread that is not
blocked. -/
theorem behaved_of_run (hm : m.Counts avail) {ls : List (Label ι τ)} {s₀ : σ}
    (hrun : run m.step ⟨s₀, fun _ => .idle⟩ ls = some s) : m.Behaved avail s₀ ls s :=
  ⟨shared_of_run hrun, noLostWakeup_run hm hrun, fun _ op ht => exists_step_of_not_blocked m ht op⟩

end NoLostWakeup

end Monitor

end CppServer
