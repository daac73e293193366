/-
# The wait lock of the RPC client

`SpinLockImpl` of `thirdpart/Logger/src/lock/impl/SpinLockImpl.h` lets one thread `wait` until
another calls `notify`: a flag `sync_` under a mutex, with a condition variable.  A thread that
sends requests one after the other, each followed by a `wait`, is woken by the answers.  The
flag does not say which request an answer belongs to, so an answer that comes after its own
wait has timed out ends the wait of a later request.

Each part of `wait` between two points at which the mutex is released is one step.  The mutex
is released while the thread is in `wait_for`, from which it may come back at any moment, for a
`notify`, without a reason or for the timeout.
-/
import Mathlib.Tactic.Common
import CppServer.Lib.Run

namespace CppServer.Threads

/-- `SpinLockImpl`, without the time. -/
structure SpinLockImpl where
  sync_ : Bool
deriving DecidableEq

namespace SpinLockImpl

/-- The constructor. -/
def make : SpinLockImpl := ⟨false⟩

/-- The part of `wait` from the test `while (!sync_)` on, with the mutex held: the thread goes
into `wait_for` (`false`), or it leaves the loop and returns (`true`). -/
def waitTest (this : SpinLockImpl) : SpinLockImpl × Bool :=
  if !this.sync_ then (this, false) else ({ this with sync_ := false }, true)

/-- The part of `wait` behind a `wait_for` that timed out. -/
def waitBreak (this : SpinLockImpl) : SpinLockImpl := { this with sync_ := false }

/-- `SpinLockImpl::notify`. -/
def notify (this : SpinLockImpl) : SpinLockImpl := { this with sync_ := true }

end SpinLockImpl

/-! ## One thread that sends requests -/

/-- Where the thread is: it has no request to wait for, it has sent one, or it is in the
`wait_for` of that request. -/
inductive Phase where
  | idle
  | sent
  | waiting
deriving DecidableEq

/-- The lock, the number of requests sent so far, and the requests that were answered. -/
structure Client where
  lock : SpinLockImpl
  phase : Phase
  sent : ℕ
  answered : List ℕ
deriving DecidableEq

/-- The steps of the thread, and the answer to the request `k`. -/
inductive LockOp where
  /-- The next request is sent. -/
  | send
  /-- `wait` is called. -/
  | wait
  /-- `wait_for` comes back without a timeout. -/
  | wake
  /-- `wait_for` comes back with a timeout. -/
  | timeout
  | notify (k : ℕ)
deriving DecidableEq

namespace Client

/-- The client before its first operation. -/
def init : Client := ⟨.make, .idle, 0, []⟩

/-- The thread tests the flag and waits or returns. -/
def test (s : Client) : Client :=
  { s with
    lock := s.lock.waitTest.1
    phase := if s.lock.waitTest.2 then .idle else .waiting }

/-- One step.  Requests are numbered from 1, and each is answered once at most, after it was
sent. -/
def step (s : Client) : LockOp → Option Client
  | .send => if s.phase = .idle then some { s with phase := .sent, sent := s.sent + 1 } else none
  | .wait => if s.phase = .sent then some s.test else none
  | .wake => if s.phase = .waiting then some s.test else none
  | .timeout =>
    if s.phase = .waiting then some { s with lock := s.lock.waitBreak, phase := .idle } else none
  | .notify k =>
    if 1 ≤ k ∧ k ≤ s.sent ∧ k ∉ s.answered then
      some { s with lock := s.lock.notify, answered := k :: s.answered }
    else none

end Client

open Client

/-- The wait for the last request returns in this step. -/
def Returns (s s' : Client) : Prop := s.phase ≠ .idle ∧ s'.phase = .idle

/-- In the run `ops` a wait returns only if its own request was answered or its own timeout
elapsed. -/
def ReturnsOwn (ops : List LockOp) : Prop :=
  ∀ pre op post s₁ s₂, ops = pre ++ op :: post → run step .init pre = some s₁ →
    step s₁ op = some s₂ → Returns s₁ s₂ → op = .timeout ∨ .notify s₁.sent ∈ pre

/-- In the run `ops` a wait for a request that is already answered returns at once. -/
def KeepsEarly (ops : List LockOp) : Prop :=
  ∀ pre post s₁ s₂, ops = pre ++ .wait :: post → run step .init pre = some s₁ →
    step s₁ .wait = some s₂ → .notify s₁.sent ∈ pre → Returns s₁ s₂

/-- The condition on a step: an answer comes before the wait of its request has returned, or the
request that is waited for has its answer already. -/
def OnTime (s : Client) : LockOp → Prop
  | .notify k => s.phase ≠ .idle ∧ (k = s.sent ∨ s.sent ∈ s.answered)
  | _ => True

instance (s : Client) : ∀ op, Decidable (OnTime s op)
  | .notify _ => inferInstanceAs (Decidable (_ ∧ _))
  | .send | .wait | .wake | .timeout => isTrue trivial

section Step

variable {s s' : Client} {ops : List LockOp} {k : ℕ}

lemma step_send : step s .send = some s' ↔
    s.phase = .idle ∧ { s with phase := .sent, sent := s.sent + 1 } = s' := by
  simp [step]

lemma step_wait : step s .wait = some s' ↔ s.phase = .sent ∧ s.test = s' := by
  simp [step]

lemma step_wake : step s .wake = some s' ↔ s.phase = .waiting ∧ s.test = s' := by
  simp [step]

lemma step_timeout : step s .timeout = some s' ↔
    s.phase = .waiting ∧ { s with lock := s.lock.waitBreak, phase := .idle } = s' := by
  simp [step]

lemma step_notify : step s (.notify k) = some s' ↔ (1 ≤ k ∧ k ≤ s.sent ∧ k ∉ s.answered) ∧
    { s with lock := s.lock.notify, answered := k :: s.answered } = s' := by
  simp [step]

/-- The test ends the wait and clears the flag, or finds it down. -/
lemma test_of_sync (h : s.lock.sync_ = true) :
    s.test = { s with lock := ⟨false⟩, phase := .idle } := by
  simp [test, SpinLockImpl.waitTest, h]

lemma test_of_not_sync (h : s.lock.sync_ = false) : s.test = { s with phase := .waiting } := by
  simp [test, SpinLockImpl.waitTest, h]

lemma phase_test_ne_sent : s.test.phase ≠ .sent := by
  cases h : s.lock.sync_ with
  | true => simp [test_of_sync h]
  | false => simp [test_of_not_sync h]

/-- What is answered is what was notified, and only requests that were sent are. -/
structure Tracks (ops : List LockOp) (s : Client) : Prop where
  answered : ∀ k, k ∈ s.answered ↔ .notify k ∈ ops
  le_sent : ∀ k ∈ s.answered, k ≤ s.sent

lemma tracks_of_run (hrun : run step .init ops = some s) : Tracks ops s := by
  refine run_history ⟨by simp [Client.init], by simp [Client.init]⟩ ?_ hrun
  intro ops s₁ op s₂ _ ih hstep
  cases op with
  | send =>
    obtain ⟨-, rfl⟩ := step_send.mp hstep
    exact ⟨by simpa using ih.answered, fun k hk => Nat.le_succ_of_le (ih.le_sent k hk)⟩
  | wait =>
    obtain ⟨-, rfl⟩ := step_wait.mp hstep
    exact ⟨by simpa [test] using ih.answered, ih.le_sent⟩
  | wake =>
    obtain ⟨-, rfl⟩ := step_wake.mp hstep
    exact ⟨by simpa [test] using ih.answered, ih.le_sent⟩
  | timeout =>
    obtain ⟨-, rfl⟩ := step_timeout.mp hstep
    exact ⟨by simpa using ih.answered, ih.le_sent⟩
  | notify k =>
    obtain ⟨⟨-, hle, -⟩, rfl⟩ := step_notify.mp hstep
    refine ⟨fun j => ?_, fun j hj => ?_⟩
    · rw [List.mem_cons, List.mem_append, ih.answered j, List.mem_singleton, LockOp.notify.injEq,
        or_comm]
    · rcases List.mem_cons.mp hj with rfl | hj
      · exact hle
      · exact ih.le_sent j hj

end Step

/-! ## Answers that come early -/

/-- An answer that came before its wait is still there. -/
lemma sync_of_run {ops : List LockOp} {s : Client} (hrun : run step .init ops = some s) :
    s.phase = .sent → s.sent ∈ s.answered → s.lock.sync_ = true := by
  refine run_history (P := fun _ s => s.phase = .sent → s.sent ∈ s.answered → s.lock.sync_ = true)
    (fun h => by simp [Client.init] at h) ?_ hrun
  intro ops s₁ op s₂ hrun₁ ih hstep hphase hans
  cases op with
  | send =>
    -- a request that was just sent is not answered
    obtain ⟨-, rfl⟩ := step_send.mp hstep
    have hle := (tracks_of_run hrun₁).le_sent _ hans
    exact absurd hle (Nat.not_succ_le_self _)
  | wait =>
    obtain ⟨-, rfl⟩ := step_wait.mp hstep
    exact absurd hphase phase_test_ne_sent
  | wake =>
    obtain ⟨-, rfl⟩ := step_wake.mp hstep
    exact absurd hphase phase_test_ne_sent
  | timeout =>
    obtain ⟨-, rfl⟩ := step_timeout.mp hstep
    exact absurd hphase (by simp)
  | notify k =>
    obtain ⟨-, rfl⟩ := step_notify.mp hstep
    rfl

lemma keepsEarly (ops : List LockOp) : KeepsEarly ops := by
  intro pre post s₁ s₂ _ hrun₁ hstep hans
  obtain ⟨hphase, rfl⟩ := step_wait.mp hstep
  have hsync := sync_of_run hrun₁ hphase (((tracks_of_run hrun₁).answered _).mpr hans)
  exact ⟨by simp [hphase], by rw [test_of_sync hsync]⟩

/-! ## Answers that come late -/

/-- The flag is up only for the answer of the request that is waited for. -/
def Fresh (s : Client) : Prop :=
  s.lock.sync_ = true → s.phase ≠ .idle ∧ s.sent ∈ s.answered

lemma Fresh.step {s s' : Client} {op : LockOp} (hs : Fresh s) (hop : OnTime s op)
    (hstep : step s op = some s') : Fresh s' := by
  cases op with
  | send =>
    obtain ⟨hidle, rfl⟩ := step_send.mp hstep
    intro hsync
    exact absurd hidle (hs hsync).1
  | wait | wake =>
    have htest : Fresh s.test := by
      intro hsync
      cases h : s.lock.sync_ with
      | true => simp [test_of_sync h] at hsync
      | false => simp [test_of_not_sync h, h] at hsync
    simp only [Client.step, Option.ite_none_right_eq_some, Option.some.injEq] at hstep
    exact hstep.2 ▸ htest
  | timeout =>
    obtain ⟨-, rfl⟩ := step_timeout.mp hstep
    intro hsync
    simp [SpinLockImpl.waitBreak] at hsync
  | notify k =>
    obtain ⟨-, rfl⟩ := step_notify.mp hstep
    obtain ⟨hphase, hk⟩ := hop
    refine fun _ => ⟨hphase, ?_⟩
    rcases hk with rfl | hans
    · exact List.mem_cons_self
    · exact List.mem_cons_of_mem _ hans

/-- A wait that returns without a timeout found the flag up. -/
lemma sync_of_returns {s s' : Client} {op : LockOp} (hstep : step s op = some s')
    (hret : Returns s s') (hop : op ≠ .timeout) : s.lock.sync_ = true := by
  obtain ⟨hphase, hidle⟩ := hret
  cases op with
  | send =>
    obtain ⟨h, -⟩ := step_send.mp hstep
    exact absurd h hphase
  | wait | wake =>
    simp only [Client.step, Option.ite_none_right_eq_some, Option.some.injEq] at hstep
    obtain ⟨-, rfl⟩ := hstep
    cases h : s.lock.sync_ with
    | true => rfl
    | false => simp [test_of_not_sync h] at hidle
  | timeout => exact absurd rfl hop
  | notify k =>
    obtain ⟨-, rfl⟩ := step_notify.mp hstep
    exact absurd hidle hphase

/-- If every answer is on time, every wait returns for its own reasons. -/
lemma returnsOwn_of_onTime {ops : List LockOp} (h : Along step OnTime .init ops) :
    ReturnsOwn ops := by
  intro pre op post s₁ s₂ heq hrun₁ hstep hret
  by_cases hop : op = .timeout
  · exact Or.inl hop
  · have hpre : Along step OnTime .init pre := (along_append.mp (heq ▸ h)).1
    have hfresh : Fresh s₁ :=
      run_invariant_of_steps (fun _ _ _ _ _ hs hop hstep => hs.step hop hstep)
        (fun hsync => by simp [Client.init, SpinLockImpl.make] at hsync) hrun₁ (along_iff.mp hpre)
    have hans := (hfresh (sync_of_returns hstep hret hop)).2
    exact Or.inr (((tracks_of_run hrun₁).answered _).mp hans)

/-- Steps of the thread are on time. -/
lemma along_onTime_of_no_notify {s : Client} {cont : List LockOp}
    (h : ∀ op ∈ cont, ∀ k, op ≠ .notify k) : Along step OnTime s cont := by
  refine along_iff.mpr fun pre op post s₁ heq _ => ?_
  have hop := h op (by simp [heq])
  cases op with
  | notify k => exact absurd rfl (hop k)
  | send | wait | wake | timeout => trivial

/-- Where the flag is up and the request has no answer, the wait returns nevertheless. -/
lemma exists_stale_test {ops : List LockOp} {s : Client} (hrun : run step .init ops = some s)
    (hsync : s.lock.sync_ = true) (hphase : s.phase ≠ .idle) (hans : s.sent ∉ s.answered) :
    ∃ op s', (∀ k, op ≠ .notify k) ∧ run step .init (ops ++ [op]) = some s' ∧
      ¬ ReturnsOwn (ops ++ [op]) := by
  obtain ⟨op, hop, hstep, htimeout⟩ : ∃ op, (∀ k, op ≠ .notify k) ∧ step s op = some s.test ∧
      op ≠ .timeout := by
    cases hp : s.phase with
    | idle => exact absurd hp hphase
    | sent => exact ⟨.wait, by simp, step_wait.mpr ⟨hp, rfl⟩, by simp⟩
    | waiting => exact ⟨.wake, by simp, step_wake.mpr ⟨hp, rfl⟩, by simp⟩
  have hret : Returns s s.test := ⟨hphase, by rw [test_of_sync hsync]⟩
  refine ⟨op, s.test, hop, run_snoc_eq_some.mpr ⟨s, hrun, hstep⟩, fun h => ?_⟩
  rcases h ops op [] s s.test rfl hrun hstep hret with h | h
  · exact htimeout h
  · exact hans (((tracks_of_run hrun).answered _).mpr h)

/-- After an answer that is not on time the thread can go on so that a wait returns for it. -/
lemma exists_stale_return {pre : List LockOp} {s₁ s₂ : Client} {k : ℕ}
    (hrun : run step .init pre = some s₁) (hstep : step s₁ (.notify k) = some s₂)
    (hlate : ¬ OnTime s₁ (.notify k)) :
    ∃ cont s₃, (∀ op ∈ cont, ∀ j, op ≠ .notify j) ∧
      run step .init (pre ++ [.notify k] ++ cont) = some s₃ ∧
      ¬ ReturnsOwn (pre ++ [.notify k] ++ cont) := by
  have hrun₂ : run step .init (pre ++ [.notify k]) = some s₂ :=
    run_snoc_eq_some.mpr ⟨s₁, hrun, hstep⟩
  have htracks := tracks_of_run hrun₂
  obtain ⟨-, rfl⟩ := step_notify.mp hstep
  by_cases hidle : s₁.phase = .idle
  · -- the next request is sent and finds the flag up
    have hsend := step_send (s := { s₁ with lock := s₁.lock.notify, answered := k :: s₁.answered })
      |>.mpr ⟨hidle, rfl⟩
    have hans : s₁.sent + 1 ∉ k :: s₁.answered := fun h =>
      absurd (htracks.le_sent _ h) (Nat.not_succ_le_self _)
    obtain ⟨op, s₃, hop, hrun₃, hnot⟩ :=
      exists_stale_test (run_snoc_eq_some.mpr ⟨_, hrun₂, hsend⟩) rfl (by simp) hans
    refine ⟨[.send, op], s₃, ?_, by simpa using hrun₃, by simpa using hnot⟩
    intro op' hop' j
    rcases List.mem_cons.mp hop' with rfl | hop'
    · simp
    · rw [List.mem_singleton.mp hop']
      exact hop j
  · -- the request that is waited for has no answer
    have hans : s₁.sent ∉ k :: s₁.answered := by
      intro h
      refine hlate ⟨hidle, ?_⟩
      rcases List.mem_cons.mp h with h | h
      · exact Or.inl h.symm
      · exact Or.inr h
    obtain ⟨op, s₃, hop, hrun₃, hnot⟩ := exists_stale_test hrun₂ rfl hidle hans
    refine ⟨[op], s₃, ?_, hrun₃, hnot⟩
    intro op' hop' j
    rw [List.mem_singleton.mp hop']
    exact hop j

/-- **When answers and waits are paired.**  In every run a wait for a request that is already
answered returns at once.  Whatever the thread does next, at every point of a run, no wait
returns before its own answer or its own timeout, exactly when every answer of the run comes
before the wait of its request has returned, or while the request that is waited for has its
answer already. -/
theorem waits_paired_iff_on_time (ops : List LockOp) (s : Client)
    (hrun : run step .init ops = some s) :
    ((∀ pre post cont s', ops = pre ++ post → (∀ op ∈ cont, ∀ k, op ≠ .notify k) →
        run step .init (pre ++ cont) = some s' →
        ReturnsOwn (pre ++ cont) ∧ KeepsEarly (pre ++ cont)) ↔
      ∀ pre op post s₁, ops = pre ++ op :: post → run step .init pre = some s₁ →
        OnTime s₁ op) ∧ KeepsEarly ops := by
  refine ⟨⟨fun h pre op post s₁ heq hrun₁ => ?_, fun h pre post cont s' heq hcont hrun' => ?_⟩,
    keepsEarly ops⟩
  · cases op with
    | send | wait | wake | timeout => trivial
    | notify k =>
      by_contra hlate
      obtain ⟨s₂, hstep, -⟩ := exists_step_of_run (heq ▸ hrun) hrun₁
      obtain ⟨cont, s₃, hcont, hrun₃, hnot⟩ := exists_stale_return hrun₁ hstep hlate
      exact hnot (h (pre ++ [.notify k]) post cont s₃ (by simp [heq]) hcont hrun₃).1
  · refine ⟨returnsOwn_of_onTime (along_append.mpr ⟨?_, fun s₁ _ => ?_⟩), keepsEarly _⟩
    · exact (along_append.mp (heq ▸ along_iff.mpr h)).1
    · exact along_onTime_of_no_notify hcont

/-- A request that is answered before its wait, and one that is answered during it. -/
def answeredInTime : List LockOp :=
  [.send, .notify 1, .wait, .send, .wait, .notify 2, .wake]

/-- Both waits return for their own answers. -/
theorem answeredInTime_paired :
    ∃ s, run step .init answeredInTime = some s ∧ s.phase = .idle ∧
      ReturnsOwn answeredInTime := by
  have honTime : Along step OnTime .init answeredInTime := by decide
  refine ⟨_, rfl, rfl, ?_⟩
  have h := (waits_paired_iff_on_time answeredInTime _ rfl).1.mpr (along_iff.mp honTime)
    answeredInTime [] [] _ (List.append_nil _).symm (by simp) rfl
  exact h.1

/-- The answer to the first request comes after its timeout and ends the wait for the second,
which is never answered. -/
theorem late_answer_ends_next_wait :
    ∃ s₁ s₂, run step .init [.send, .wait, .timeout, .notify 1, .send] = some s₁ ∧
      step s₁ .wait = some s₂ ∧ Returns s₁ s₂ ∧ s₁.sent = 2 ∧ s₁.answered = [1] ∧
      ¬ ReturnsOwn [.send, .wait, .timeout, .notify 1, .send, .wait] := by
  refine ⟨_, _, rfl, rfl, ⟨nofun, rfl⟩, rfl, rfl, fun h => ?_⟩
  exact absurd (h [.send, .wait, .timeout, .notify 1, .send] .wait [] _ _ rfl rfl rfl
    ⟨nofun, rfl⟩) (by decide)

end CppServer.Threads
