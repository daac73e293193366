/-
# The blocking queues

`BlockingQueue` and `BoundedBlockingQueue` of `muduo/base` hand items from threads that `put` to
threads that `take`.  A `take` waits while the queue is empty, and on the bounded queue a `put`
waits while it is full; every operation holds the mutex but for the waits.  Both are monitors,
whose condition variables count the items and the free slots.

The shared state carries, beside the queue, the items in the order in which they were put and
in the order in which they were handed out.
-/
import CppServer.Lib.CircularBuffer
import CppServer.Lib.Monitor

namespace CppServer.Threads

open Monitor

/-! ## The bounded queue -/

/-- The operations of a thread. -/
inductive QueueOp (α : Type) where
  | put (x : α)
  | take
deriving DecidableEq

/-- The item of a `put`. -/
def QueueOp.item? {α : Type} : QueueOp α → Option α
  | .put x => some x
  | .take => none

/-- The condition variables. -/
inductive QueueCond where
  | notEmpty_
  | notFull_
deriving DecidableEq

/-- `BoundedBlockingQueue`, with the items put and taken so far. -/
structure BoundedBlockingQueue (α : Type) where
  queue_ : CircularBuffer α
  puts : List α
  taken : List α

namespace BoundedBlockingQueue

variable {α : Type}

/-- The constructor. -/
def make (maxSize : ℕ) : BoundedBlockingQueue α := ⟨⟨maxSize, [], Nat.zero_le _⟩, [], []⟩

/-- `queue_.full()`. -/
def full (q : BoundedBlockingQueue α) : Bool := q.queue_.elems.length == q.queue_.capacity

/-- `put` and `take` with their loops. -/
def monitor : Monitor (BoundedBlockingQueue α) (QueueOp α) QueueCond where
  cond
    | .put _ => some .notFull_
    | .take => some .notEmpty_
  ready
    | .put _, q => !q.full
    | .take, q => !q.queue_.elems.isEmpty
  act
    | .put x, q => { q with queue_ := q.queue_.push_back x, puts := q.puts ++ [x] }
    | .take, q =>
      { q with queue_ := q.queue_.pop_front, taken := q.taken ++ q.queue_.elems.take 1 }
  notify
    | .put _ => some .notEmpty_
    | .take => some .notFull_

/-- The item that an operation returns. -/
def returned : QueueOp α → BoundedBlockingQueue α → List α
  | .put _, _ => []
  | .take, q => q.queue_.elems.take 1

/-- The items for those who take, and the free slots for those who put. -/
def avail : QueueCond → BoundedBlockingQueue α → ℕ
  | .notEmpty_, q => q.queue_.elems.length
  | .notFull_, q => q.queue_.capacity - q.queue_.elems.length

section Step

variable {q : BoundedBlockingQueue α} {op : QueueOp α}

lemma ready_put {x : α} : monitor.ready (.put x) q = true ↔
    q.queue_.elems.length < q.queue_.capacity := by
  have hle := q.queue_.size_le
  simp only [monitor, full, Bool.not_eq_true', beq_eq_false_iff_ne, ne_eq]
  omega

lemma ready_take : monitor.ready .take q = true ↔ 0 < q.queue_.elems.length := by
  simp [monitor, List.length_pos_iff]

lemma elems_act_put {x : α} (hready : monitor.ready (.put x) q = true) :
    (monitor.act (.put x) q).queue_.elems = q.queue_.elems ++ [x] :=
  CircularBuffer.elems_push_back_of_lt (ready_put.mp hready) x

lemma capacity_act : (monitor.act op q).queue_.capacity = q.queue_.capacity := by
  cases op <;> rfl

lemma avail_put {x : α} (hready : monitor.ready (.put x) q = true) :
    avail .notEmpty_ (monitor.act (.put x) q) = avail .notEmpty_ q + 1 ∧
      avail .notFull_ (monitor.act (.put x) q) + 1 = avail .notFull_ q := by
  have hlt := ready_put.mp hready
  simp only [avail, capacity_act, elems_act_put hready, List.length_append, List.length_singleton,
    true_and]
  omega

lemma avail_take (hready : monitor.ready .take q = true) :
    avail .notEmpty_ (monitor.act .take q) + 1 = avail .notEmpty_ q ∧
      avail .notFull_ (monitor.act .take q) = avail .notFull_ q + 1 := by
  have hpos := ready_take.mp hready
  have hle := q.queue_.size_le
  simp only [avail, monitor, CircularBuffer.pop_front, List.length_tail]
  omega

lemma counts : (monitor (α := α)).Counts avail := by
  refine ⟨fun op q c hc => ?_, fun op q c hc hready => ?_, fun op q c hc hready => ?_⟩
  · cases op with
    | put x =>
      obtain rfl : QueueCond.notFull_ = c := Option.some.inj hc
      rw [ready_put, avail]
      omega
    | take =>
      obtain rfl : QueueCond.notEmpty_ = c := Option.some.inj hc
      rw [ready_take, avail]
  · cases op with
    | put x =>
      obtain rfl : QueueCond.notFull_ = c := Option.some.inj hc
      exact Nat.le_of_eq (avail_put hready).2
    | take =>
      obtain rfl : QueueCond.notEmpty_ = c := Option.some.inj hc
      exact Nat.le_of_eq (avail_take hready).1
  · cases op with
    | put x =>
      cases c with
      | notEmpty_ => exact Nat.le_of_eq (avail_put hready).1
      | notFull_ => exact absurd rfl hc
    | take =>
      cases c with
      | notEmpty_ => exact absurd rfl hc
      | notFull_ => exact Nat.le_of_eq (avail_take hready).2

end Step

/-! ### Runs -/

section Runs

variable {τ : Type} [DecidableEq τ] [Fintype τ] {maxSize : ℕ} {ls : List (Label (QueueOp α) τ)}
  {s s' : State (BoundedBlockingQueue α) (QueueOp α) τ} {l : Label (QueueOp α) τ}

/-- The items that were put are those that were taken and those in the queue, in this order. -/
def InOrder (maxSize : ℕ) (q : BoundedBlockingQueue α) : Prop :=
  q.queue_.capacity = maxSize ∧ q.taken ++ q.queue_.elems = q.puts

lemma inOrder_step (h : InOrder maxSize s.shared) (hstep : monitor.step s l = some s') :
    InOrder maxSize s'.shared := by
  obtain ⟨hcap, horder⟩ := h
  rcases step_cases hstep with ⟨t, op, woken, phase, -, hready, -, rfl⟩ | ⟨t, op, -, -, rfl⟩ |
    ⟨t, op, -, rfl⟩
  · refine ⟨by rw [capacity_act, hcap], ?_⟩
    cases op with
    | put x =>
      rw [elems_act_put hready]
      show s.shared.taken ++ (s.shared.queue_.elems ++ [x]) = s.shared.puts ++ [x]
      rw [← List.append_assoc, horder]
    | take =>
      show s.shared.taken ++ s.shared.queue_.elems.take 1 ++ s.shared.queue_.elems.tail =
        s.shared.puts
      rw [← List.drop_one, List.append_assoc, List.take_append_drop, horder]
  · exact ⟨hcap, horder⟩
  · exact ⟨hcap, horder⟩

lemma inOrder_run (hrun : run monitor.step ⟨make maxSize, fun _ => .idle⟩ ls = some s) :
    InOrder maxSize s.shared :=
  run_invariant (I := fun s => InOrder maxSize s.shared)
    (fun _ _ _ h hstep => inOrder_step h hstep) ⟨rfl, rfl⟩ hrun

lemma puts_act (op : QueueOp α) (q : BoundedBlockingQueue α) :
    (monitor.act op q).puts = q.puts ++ (QueueOp.item? op).toList := by
  cases op <;> simp [monitor, QueueOp.item?]

lemma taken_act (op : QueueOp α) (q : BoundedBlockingQueue α) :
    (monitor.act op q).taken = q.taken ++ returned op q := by
  cases op <;> simp [monitor, returned]

end Runs

/-- **The bounded queue under every interleaving.**  In every run of any number of threads that
put and take, with wakeups without a reason:
* the items returned by the `take`s and then those in the queue are the items of the `put`s, in
  their order: none is lost or handed out twice; and the queue never holds more than `maxSize`
  items;
* no wakeup is lost: as long as a thread waits to take, there are no more items than threads
  that were woken to take, and likewise for the free slots;
* threads never wait to take and to put at the same time, in a queue with slots, unless one of
  them was woken. -/
theorem bounded_queue_of_run (τ : Type) [DecidableEq τ] [Fintype τ] (maxSize : ℕ)
    (ls : List (Label (QueueOp α) τ)) (s : State (BoundedBlockingQueue α) (QueueOp α) τ)
    (hrun : run monitor.step ⟨make maxSize, fun _ => .idle⟩ ls = some s) :
    (s.shared.puts = (monitor.history ⟨make maxSize, fun _ => .idle⟩ ls).filterMap QueueOp.item? ∧
      s.shared.taken = monitor.outputs returned (make maxSize)
        (monitor.history ⟨make maxSize, fun _ => .idle⟩ ls)) ∧
    (s.shared.taken ++ s.shared.queue_.elems = s.shared.puts ∧
      s.shared.queue_.elems.length ≤ maxSize) ∧
    ((monitor.blockedOn s.phase .notEmpty_).Nonempty →
      s.shared.queue_.elems.length ≤ (monitor.wokenFrom s.phase .notEmpty_).card) ∧
    ((monitor.blockedOn s.phase .notFull_).Nonempty →
      maxSize - s.shared.queue_.elems.length ≤ (monitor.wokenFrom s.phase .notFull_).card) ∧
    (0 < maxSize → (∀ t op, s.phase t ≠ .woken op) →
      ¬ ((monitor.blockedOn s.phase .notEmpty_).Nonempty ∧
        (monitor.blockedOn s.phase .notFull_).Nonempty)) := by
  obtain ⟨hcap, horder⟩ := inOrder_run hrun
  have hbehaved := behaved_of_run counts hrun
  have hputs := log_foldl puts_act (monitor.history ⟨make maxSize, fun _ => .idle⟩ ls) (make maxSize)
  have htaken := log_foldl taken_act (monitor.history ⟨make maxSize, fun _ => .idle⟩ ls) (make maxSize)
  have hsize := s.shared.queue_.size_le
  have hitems := hbehaved.noLostWakeup .notEmpty_
  have hslots := hbehaved.noLostWakeup .notFull_
  simp only [avail, hcap] at hitems hslots hsize
  rw [← hbehaved.shared_eq, outputs_eq_filterMap] at hputs
  rw [← hbehaved.shared_eq] at htaken
  refine ⟨⟨hputs, htaken⟩, ⟨horder, hsize⟩, hitems, hslots, fun hpos hnone hboth => ?_⟩
  have hwoken : ∀ c, (monitor.wokenFrom s.phase c).card = 0 := by
    intro c
    refine Finset.card_eq_zero.mpr (Finset.eq_empty_of_forall_notMem fun t ht => ?_)
    have hat := mem_threadsAt.mp ht
    cases hphase : s.phase t with
    | woken op => exact hnone t op hphase
    | idle => simp [hphase, wokenAt] at hat
    | blocked op => simp [hphase, wokenAt] at hat
  have h₁ := hitems hboth.1
  have h₂ := hslots hboth.2
  rw [hwoken] at h₁ h₂
  omega

/-- One thread waits to take, another puts an item and wakes it and waits to put a second one; the
first takes its item and wakes the other. -/
def handOver : List (Label (QueueOp ℕ) (Fin 2)) :=
  [.call 0 .take none, .call 1 (.put 7) (some 0), .call 1 (.put 8) none, .resume 0 (some 1),
    .resume 1 none]

theorem bounded_queue_hands_over :
    ∃ s, run monitor.step ⟨make 1, fun _ => .idle⟩ handOver = some s ∧
      s.shared.puts = [7, 8] ∧ s.shared.taken = [7] ∧ s.shared.queue_.elems = [8] := by
  refine ⟨_, rfl, ?_⟩
  obtain ⟨⟨hputs, htaken⟩, ⟨horder, -⟩, -⟩ := bounded_queue_of_run (Fin 2) 1 handOver _ rfl
  have hputs' : _ = [7, 8] := hputs.trans (by decide)
  have htaken' : _ = [7] := htaken.trans (by decide)
  rw [hputs', htaken'] at horder
  exact ⟨hputs', htaken', List.append_cancel_left (show [7] ++ _ = [7] ++ [8] from horder)⟩

end BoundedBlockingQueue

/-! ## The unbounded queue -/

/-- The operations of a thread. -/
inductive UnboundedOp (α : Type) where
  | put (x : α)
  | take
  | drain
deriving DecidableEq

/-- The item of a `put`. -/
def UnboundedOp.item? {α : Type} : UnboundedOp α → Option α
  | .put x => some x
  | .take | .drain => none

/-- `BlockingQueue`, with the items put and handed out so far. -/
structure BlockingQueue (α : Type) where
  queue_ : List α
  puts : List α
  taken : List α

namespace BlockingQueue

variable {α : Type}

/-- The constructor. -/
def make : BlockingQueue α := ⟨[], [], []⟩

/-- Only `take` has a loop, and only `put` notifies. -/
def monitor : Monitor (BlockingQueue α) (UnboundedOp α) Unit where
  cond
    | .put _ | .drain => none
    | .take => some ()
  ready
    | .put _, _ | .drain, _ => true
    | .take, q => !q.queue_.isEmpty
  act
    | .put x, q => { q with queue_ := q.queue_ ++ [x], puts := q.puts ++ [x] }
    | .take, q => { q with queue_ := q.queue_.tail, taken := q.taken ++ q.queue_.take 1 }
    | .drain, q => { q with queue_ := [], taken := q.taken ++ q.queue_ }
  notify
    | .put _ => some ()
    | .take | .drain => none

/-- The items that an operation returns. -/
def returned : UnboundedOp α → BlockingQueue α → List α
  | .put _, _ => []
  | .take, q => q.queue_.take 1
  | .drain, q => q.queue_

/-- The items for those who take. -/
def avail (_ : Unit) (q : BlockingQueue α) : ℕ := q.queue_.length

lemma counts : (monitor (α := α)).Counts avail := by
  refine ⟨fun op q c hc => ?_, fun op q c hc hready => ?_, fun op q c hc hready => ?_⟩
  · cases op with
    | put x | drain => exact absurd hc (by simp [monitor])
    | take => simp [monitor, avail, List.length_pos_iff]
  · cases op with
    | put x | drain => exact absurd hc (by simp [monitor])
    | take =>
      have hpos : 0 < q.queue_.length := by simpa [monitor, List.length_pos_iff] using hready
      simp only [monitor, avail, List.length_tail]
      omega
  · cases op with
    | put x => simp [monitor, avail]
    | take => exact absurd rfl hc
    | drain => simp [monitor, avail]

section Runs

variable {τ : Type} [DecidableEq τ] [Fintype τ] {ls : List (Label (UnboundedOp α) τ)}
  {s s' : State (BlockingQueue α) (UnboundedOp α) τ} {l : Label (UnboundedOp α) τ}

lemma inOrder_step (h : s.shared.taken ++ s.shared.queue_ = s.shared.puts)
    (hstep : monitor.step s l = some s') : s'.shared.taken ++ s'.shared.queue_ = s'.shared.puts := by
  rcases step_cases hstep with ⟨t, op, woken, phase, -, -, -, rfl⟩ | ⟨t, op, -, -, rfl⟩ |
    ⟨t, op, -, rfl⟩
  · cases op with
    | put x =>
      show s.shared.taken ++ (s.shared.queue_ ++ [x]) = s.shared.puts ++ [x]
      rw [← List.append_assoc, h]
    | take =>
      show s.shared.taken ++ s.shared.queue_.take 1 ++ s.shared.queue_.tail = s.shared.puts
      rw [← List.drop_one, List.append_assoc, List.take_append_drop, h]
    | drain =>
      show s.shared.taken ++ s.shared.queue_ ++ [] = s.shared.puts
      rw [List.append_nil, h]
  · exact h
  · exact h

lemma puts_act (op : UnboundedOp α) (q : BlockingQueue α) :
    (monitor.act op q).puts = q.puts ++ (UnboundedOp.item? op).toList := by
  cases op <;> simp [monitor, UnboundedOp.item?]

lemma taken_act (op : UnboundedOp α) (q : BlockingQueue α) :
    (monitor.act op q).taken = q.taken ++ returned op q := by
  cases op <;> simp [monitor, returned]

end Runs

/-- **The unbounded queue under every interleaving.**  In every run of any number of threads that
put, take and drain, with wakeups without a reason, the items returned and then those in the queue
are the items of the `put`s, in their order: none is lost or handed out twice; and as long as a
thread waits to take, there are no more items than threads that were woken to take. -/
theorem unbounded_queue_of_run (τ : Type) [DecidableEq τ] [Fintype τ]
    (ls : List (Label (UnboundedOp α) τ)) (s : State (BlockingQueue α) (UnboundedOp α) τ)
    (hrun : run monitor.step ⟨make, fun _ => .idle⟩ ls = some s) :
    (s.shared.puts = (monitor.history ⟨make, fun _ => .idle⟩ ls).filterMap UnboundedOp.item? ∧
      s.shared.taken =
        monitor.outputs returned make (monitor.history ⟨make, fun _ => .idle⟩ ls)) ∧
    s.shared.taken ++ s.shared.queue_ = s.shared.puts ∧
    ((monitor.blockedOn s.phase ()).Nonempty →
      s.shared.queue_.length ≤ (monitor.wokenFrom s.phase ()).card) := by
  have hbehaved := behaved_of_run counts hrun
  have hputs := log_foldl puts_act (monitor.history ⟨make, fun _ => .idle⟩ ls) make
  have htaken := log_foldl taken_act (monitor.history ⟨make, fun _ => .idle⟩ ls) make
  rw [← hbehaved.shared_eq, outputs_eq_filterMap] at hputs
  rw [← hbehaved.shared_eq] at htaken
  refine ⟨⟨hputs, htaken⟩, ?_, hbehaved.noLostWakeup ()⟩
  exact run_invariant (I := fun s => s.shared.taken ++ s.shared.queue_ = s.shared.puts)
    (fun _ _ _ h hstep => inOrder_step h hstep) rfl hrun

/-- A thread that waits to take is woken by a put, but another one puts and drains first, so that it
waits again. -/
def drainFirst : List (Label (UnboundedOp ℕ) (Fin 2)) :=
  [.call 0 .take none, .call 1 (.put 7) (some 0), .call 1 (.put 8) none, .call 1 .drain none,
    .resume 0 none]

theorem unbounded_queue_drained :
    ∃ s, run monitor.step ⟨make, fun _ => .idle⟩ drainFirst = some s ∧
      s.shared.puts = [7, 8] ∧ s.shared.taken = [7, 8] ∧ s.phase 0 = .blocked .take := by
  refine ⟨_, rfl, ?_⟩
  obtain ⟨⟨hputs, htaken⟩, -⟩ := unbounded_queue_of_run (Fin 2) drainFirst _ rfl
  exact ⟨hputs.trans (by decide), htaken.trans (by decide), rfl⟩

end BlockingQueue

end CppServer.Threads
