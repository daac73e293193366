/-
# The statistics of the sudoku server

`SudokuStat` counts the responses of the server and adds up their latencies, in total and for each
of the latest seconds.  Two circular buffers have a number for each second, up to `lastSecond_`; a
response of a later second moves them on, one of an earlier second is added to its number if it is
still there.

The class comment states what the buffers are.  The result here is about the report, after any
calls in any order of their times: the number of each second that it shows is the number of all
responses of that second since the last `reset` whose latency is not negative, as long as all
numbers fit and the clock is past the first second of 1970, which stands for an empty buffer.  The
seconds reach 59 seconds back, or to the response that came 60 seconds or more behind all others.
-/
import Mathlib.Algebra.Order.BigOperators.Group.List
import CppServer.Lib.Run
import CppServer.Lib.Window

namespace CppServer.Sudoku

/-- `SudokuStat`, without the pool that only `queueSize` is asked of, and without the mutex that
every member function holds. -/
structure SudokuStat where
  lastSecond_ : ℤ
  requests_ : CircularBuffer ℤ
  latencies_ : CircularBuffer ℤ
  totalRequests_ : ℤ
  totalResponses_ : ℤ
  totalSolved_ : ℤ
  badRequests_ : ℤ
  droppedRequests_ : ℤ
  totalLatency_ : ℤ
  badLatency_ : ℤ

namespace SudokuStat

/-- The seconds that the buffers have room for. -/
def kSeconds : ℕ := 60

/-- The constructor. -/
def make : SudokuStat := ⟨0, .make kSeconds, .make kSeconds, 0, 0, 0, 0, 0, 0, 0⟩

/-- A second that nothing was counted in yet. -/
def pushSecond (s : SudokuStat) : SudokuStat :=
  { s with requests_ := s.requests_.push_back 0, latencies_ := s.latencies_.push_back 0 }

/-- `++requests_[i]` and `latencies_[i] += elapsed_us`, where the element has to be there. -/
def addAt (s : SudokuStat) (i : ℕ) (elapsed_us : ℤ) : Option SudokuStat :=
  if i < s.requests_.size ∧ i < s.latencies_.size then
    some { s with
      requests_ := s.requests_.modifyAt i (· + 1)
      latencies_ := s.latencies_.modifyAt i (· + elapsed_us) }
  else none

/-- `++requests_.back()` and `latencies_.back() += elapsed_us`. -/
def addBack (s : SudokuStat) (elapsed_us : ℤ) : Option SudokuStat :=
  s.addAt (s.requests_.size - 1) elapsed_us

/-- `while (lastSecond_ < second)`, where `second - lastSecond_` is `n`. -/
def advance : ℕ → SudokuStat → SudokuStat
  | 0, s => s
  | n + 1, s => advance n { s.pushSecond with lastSecond_ := s.lastSecond_ + 1 }

/-- The branches of `recordResponse` that count a response with a latency in its second. -/
def recordSecond (s : SudokuStat) (second elapsed_us : ℤ) : Option SudokuStat :=
  let firstSecond := s.lastSecond_ - s.requests_.size + 1
  if s.lastSecond_ = second then s.addBack elapsed_us
  else if s.lastSecond_ + 1 = second ∨ s.lastSecond_ = 0 then
    { s with lastSecond_ := second }.pushSecond.addBack elapsed_us
  else if second > s.lastSecond_ then
    if second < s.lastSecond_ + kSeconds then
      (s.advance (second - s.lastSecond_).toNat).addBack elapsed_us
    else
      { s with
        requests_ := s.requests_.clear
        latencies_ := s.latencies_.clear
        lastSecond_ := second }.pushSecond.addBack elapsed_us
  else if second ≥ firstSecond then s.addAt (second - firstSecond).toNat elapsed_us
  else some s

/-- A sum of type `int64_t`. -/
def Int64Fits (n : ℤ) : Prop := -2 ^ 63 ≤ n ∧ n < 2 ^ 63

instance (n : ℤ) : Decidable (Int64Fits n) := inferInstanceAs (Decidable (_ ∧ _))

/-- `++totalResponses_`, and `++totalSolved_` if it was solved. -/
def countResponse (s : SudokuStat) (solved : Bool) : SudokuStat :=
  { s with
    totalResponses_ := s.totalResponses_ + 1
    totalSolved_ := if solved then s.totalSolved_ + 1 else s.totalSolved_ }

/-- `recordResponse`, with time stamps in microseconds.  A negative latency is only counted as a bad
one. -/
def recordResponse (s : SudokuStat) (now receive : Int64) (solved : Bool) : Option SudokuStat :=
  let second := now.toInt.tdiv 1000000
  let elapsed_us := now.toInt - receive.toInt
  if ¬ Int64Fits elapsed_us then none
  else if s.requests_.size ≠ s.latencies_.size then none
  else
    let s := s.countResponse solved
    if elapsed_us < 0 then some { s with badLatency_ := s.badLatency_ + 1 }
    else
      ({ s with totalLatency_ := s.totalLatency_ + elapsed_us }.recordSecond second elapsed_us).filter
        fun s => s.requests_.size = s.latencies_.size

/-- `reset` leaves the dropped requests as they are. -/
def reset (s : SudokuStat) : SudokuStat :=
  { s with
    lastSecond_ := 0
    requests_ := s.requests_.clear
    latencies_ := s.latencies_.clear
    totalRequests_ := 0
    totalResponses_ := 0
    totalSolved_ := 0
    badRequests_ := 0
    totalLatency_ := 0
    badLatency_ := 0 }

/-- The numbers that `report` writes. -/
structure Report where
  task_queue_size : ℕ
  total_requests : ℤ
  total_responses : ℤ
  total_solved : ℤ
  bad_requests : ℤ
  dropped_requests : ℤ
  latency_sum_us : ℤ
  bad_latency : Option ℤ
  last_second : ℤ
  requests_per_second : List ℤ
  requests_60s : ℤ
  latency_sum_us_per_second : List ℤ
  latency_sum_us_60s : ℤ
  latency_us_60s : ℤ
  latency_us_avg : ℤ

/-- The loop `sum += ns[i]`. -/
def sum64 (ns : List ℤ) : Option ℤ :=
  ns.foldlM (fun sum n => if Int64Fits (sum + n) then some (sum + n) else none) 0

/-- `report`.  A sum that does not fit has no result. -/
def report (s : SudokuStat) (queueSize : ℕ) : Option Report := do
  let requests ← sum64 s.requests_.elems
  let latency ← sum64 s.latencies_.elems
  return {
    task_queue_size := queueSize
    total_requests := s.totalRequests_
    total_responses := s.totalResponses_
    total_solved := s.totalSolved_
    bad_requests := s.badRequests_
    dropped_requests := s.droppedRequests_
    latency_sum_us := s.totalLatency_
    bad_latency := if s.badLatency_ > 0 then some s.badLatency_ else none
    last_second := s.lastSecond_
    requests_per_second := s.requests_.elems
    requests_60s := requests
    latency_sum_us_per_second := s.latencies_.elems
    latency_sum_us_60s := latency
    latency_us_60s := if requests = 0 then 0 else latency.tdiv requests
    latency_us_avg := if s.totalResponses_ = 0 then 0 else s.totalLatency_.tdiv s.totalResponses_ }

/-- The calls of the server. -/
inductive Call where
  | recordResponse (now receive : Int64) (solved : Bool)
  | recordRequest
  | recordBadRequest
  | recordDroppedRequest
  | reset
deriving DecidableEq

/-- What a call does to the numbers. -/
def Call.perform (s : SudokuStat) : Call → Option SudokuStat
  | .recordResponse now receive solved => s.recordResponse now receive solved
  | .recordRequest => some { s with totalRequests_ := s.totalRequests_ + 1 }
  | .recordBadRequest => some { s with badRequests_ := s.badRequests_ + 1 }
  | .recordDroppedRequest => some { s with droppedRequests_ := s.droppedRequests_ + 1 }
  | .reset => some s.reset

/-- All numbers of the class are an `int64_t`. -/
def Fits (s : SudokuStat) : Prop :=
  ∀ n ∈ [s.totalRequests_, s.totalResponses_, s.totalSolved_, s.badRequests_, s.droppedRequests_,
    s.totalLatency_, s.badLatency_] ++ s.requests_.elems ++ s.latencies_.elems, Int64Fits n

instance (s : SudokuStat) : Decidable s.Fits := inferInstanceAs (Decidable (∀ n ∈ _, Int64Fits n))

/-- A call, which has no result if a number of the class would not fit behind it. -/
def step (s : SudokuStat) (c : Call) : Option SudokuStat := (c.perform s).filter fun s => s.Fits

/-! ## The window -/

/-- A response with its second and its latency. -/
structure Sample where
  second : ℤ
  elapsed_us : ℤ

/-- The response comes 60 seconds or more behind all responses before it, or is the first one. -/
def Restarts (before : List Sample) (x : Sample) : Prop := ∀ y ∈ before, y.second + kSeconds ≤ x.second

/-- The window was begun anew last with a response of the second `start`. -/
def LastStart (hist : List Sample) (start : ℤ) : Prop :=
  ∃ before x behind, LastStep Restarts hist before x behind ∧ x.second = start

/-- The buffers are in step, and their numbers are those of the responses, for all seconds from
`start` on or for the latest 60 of them. -/
structure Ready (hist : List Sample) (start : ℤ) (s : SudokuStat) : Prop where
  capacity_requests : s.requests_.capacity = kSeconds
  capacity_latencies : s.latencies_.capacity = kSeconds
  size_eq : s.requests_.elems.length = s.latencies_.elems.length
  length_eq : (s.requests_.elems.length : ℤ) = min (kSeconds : ℤ) (s.lastSecond_ - start + 1)
  start_le : start ≤ s.lastSecond_
  pos : 0 < s.lastSecond_
  le_last : ∀ x ∈ hist, x.second ≤ s.lastSecond_
  requests : Window.Tracks Sample.second (fun _ => (1 : ℤ)) hist s.lastSecond_ s.requests_
  latencies : Window.Tracks Sample.second Sample.elapsed_us hist s.lastSecond_ s.latencies_

/-- The buffers between two calls: empty ones, or a window that was begun with a response and
reaches up to another. -/
structure Windowed (hist : List Sample) (s : SudokuStat) : Prop where
  capacity_requests : s.requests_.capacity = kSeconds
  capacity_latencies : s.latencies_.capacity = kSeconds
  empty : s.lastSecond_ = 0 → hist = [] ∧ s.requests_.elems = [] ∧ s.latencies_.elems = []
  ready : s.lastSecond_ ≠ 0 → ∃ start, LastStart hist start ∧ Ready hist start s ∧
    ∃ x ∈ hist, x.second = s.lastSecond_

section Window

variable {s : SudokuStat} {hist : List Sample} {start : ℤ} {x : Sample}

lemma lastStart_of_restarts (hx : Restarts hist x) : LastStart (hist ++ [x]) x.second :=
  ⟨hist, x, [], (lastStep_snoc_of_holds hx).mpr ⟨rfl, rfl, rfl⟩, rfl⟩

lemma LastStart.snoc (h : LastStart hist start) (hx : ¬ Restarts hist x) :
    LastStart (hist ++ [x]) start := by
  obtain ⟨before, y, behind, hlast, hsecond⟩ := h
  exact ⟨before, y, behind ++ [x], (lastStep_snoc_of_not hx).mpr ⟨behind, rfl, hlast⟩, hsecond⟩

lemma length_push_back (b : CircularBuffer ℤ) (n : ℤ) :
    (b.push_back n).elems.length = min (b.elems.length + 1) b.capacity := by
  have hsize := b.size_le
  simp only [CircularBuffer.push_back, List.length_drop, List.length_append, List.length_singleton]
  omega

lemma Ready.size_pos (h : Ready hist start s) : 0 < s.requests_.elems.length := by
  have hlen := h.length_eq
  have hstart := h.start_le
  have hk : kSeconds = 60 := rfl
  omega

lemma tracks_nil {α : Type} [AddCommMonoid α] (weight : Sample → α) {last : ℤ} {b : CircularBuffer α}
    (h : b.elems = []) : Window.Tracks Sample.second weight hist last b := by
  intro k c hc
  simp [CircularBuffer.fromBack, h] at hc

namespace Windowed

lemma size_eq (h : Windowed hist s) : s.requests_.elems.length = s.latencies_.elems.length := by
  by_cases hzero : s.lastSecond_ = 0
  · obtain ⟨-, hreq, hlat⟩ := h.empty hzero
    rw [hreq, hlat]
  · obtain ⟨start, -, hready, -⟩ := h.ready hzero
    exact hready.size_eq

lemma le_last (h : Windowed hist s) : ∀ x ∈ hist, x.second ≤ s.lastSecond_ := by
  by_cases hzero : s.lastSecond_ = 0
  · obtain ⟨rfl, -⟩ := h.empty hzero
    exact fun x hx => absurd hx List.not_mem_nil
  · obtain ⟨start, -, hready, -⟩ := h.ready hzero
    exact hready.le_last

lemma requests (h : Windowed hist s) :
    Window.Tracks Sample.second (fun _ => (1 : ℤ)) hist s.lastSecond_ s.requests_ := by
  by_cases hzero : s.lastSecond_ = 0
  · exact tracks_nil _ (h.empty hzero).2.1
  · obtain ⟨start, -, hready, -⟩ := h.ready hzero
    exact hready.requests

lemma latencies (h : Windowed hist s) :
    Window.Tracks Sample.second Sample.elapsed_us hist s.lastSecond_ s.latencies_ := by
  by_cases hzero : s.lastSecond_ = 0
  · exact tracks_nil _ (h.empty hzero).2.2
  · obtain ⟨start, -, hready, -⟩ := h.ready hzero
    exact hready.latencies

end Windowed

/-- The next second. -/
lemma Ready.next (h : Ready hist start s) :
    Ready hist start { s.pushSecond with lastSecond_ := s.lastSecond_ + 1 } := by
  have hcap := h.capacity_requests
  have hcap' := h.capacity_latencies
  have hk : kSeconds = 60 := rfl
  have hpos := h.pos
  have hlen := h.length_eq
  have hstart := h.start_le
  refine ⟨hcap, hcap', ?_, ?_, ?_, ?_, fun x hx => ?_, h.requests.push (by omega) h.le_last,
    h.latencies.push (by omega) h.le_last⟩
  · show (s.requests_.push_back 0).elems.length = (s.latencies_.push_back 0).elems.length
    rw [length_push_back, length_push_back, hcap, hcap', h.size_eq]
  · show ((s.requests_.push_back 0).elems.length : ℤ) = min (kSeconds : ℤ) (s.lastSecond_ + 1 - start + 1)
    rw [length_push_back]
    omega
  · show start ≤ s.lastSecond_ + 1
    omega
  · show 0 < s.lastSecond_ + 1
    omega
  · have hle := h.le_last x hx
    show x.second ≤ s.lastSecond_ + 1
    omega

lemma Ready.advance (h : Ready hist start s) (n : ℕ) :
    Ready hist start (s.advance n) ∧ (s.advance n).lastSecond_ = s.lastSecond_ + n := by
  induction n generalizing s with
  | zero => exact ⟨h, by simp [SudokuStat.advance]⟩
  | succ n ih =>
    obtain ⟨hready, hlast⟩ := ih h.next
    refine ⟨hready, ?_⟩
    rw [SudokuStat.advance, hlast]
    push_cast
    omega

/-- The buffers begin with a second behind all responses. -/
lemma ready_start (hcap : s.requests_.capacity = kSeconds) (hcap' : s.latencies_.capacity = kSeconds)
    {second : ℤ} (hpos : 0 < second) (hlt : ∀ x ∈ hist, x.second < second) :
    Ready hist second { s with
      requests_ := s.requests_.clear
      latencies_ := s.latencies_.clear
      lastSecond_ := second }.pushSecond := by
  have hk : kSeconds = 60 := rfl
  refine ⟨hcap, hcap', ?_, ?_, le_rfl, hpos, fun x hx => (hlt x hx).le,
    Window.Tracks.start (by omega) hlt, Window.Tracks.start (by omega) hlt⟩
  · show (s.requests_.clear.push_back 0).elems.length = (s.latencies_.clear.push_back 0).elems.length
    rw [length_push_back, length_push_back]
    show min (0 + 1) s.requests_.capacity = min (0 + 1) s.latencies_.capacity
    rw [hcap, hcap']
  · show ((s.requests_.clear.push_back 0).elems.length : ℤ) = min (kSeconds : ℤ) (second - second + 1)
    rw [length_push_back]
    show ((min (0 + 1) s.requests_.capacity : ℕ) : ℤ) = _
    omega

/-- A response is added to the number of its second. -/
lemma Ready.addAt (h : Ready hist start s) {i : ℕ}
    (hi : x.second = s.lastSecond_ - s.requests_.elems.length + 1 + i)
    (hlt : i < s.requests_.elems.length) (hstart : LastStart (hist ++ [x]) start)
    (hlast : ∃ y ∈ hist ++ [x], y.second = s.lastSecond_) :
    ∃ s', s.addAt i x.elapsed_us = some s' ∧ Windowed (hist ++ [x]) s' := by
  have hlat : i < s.latencies_.elems.length := h.size_eq ▸ hlt
  have hpos := h.pos
  refine ⟨_, if_pos ⟨hlt, hlat⟩, ⟨h.capacity_requests, h.capacity_latencies,
    fun hzero => absurd hzero hpos.ne', fun _ => ⟨start, hstart, ?_, hlast⟩⟩⟩
  refine ⟨h.capacity_requests, h.capacity_latencies, ?_, ?_, h.start_le, hpos, ?_,
    h.requests.add hi, h.latencies.add (h.size_eq ▸ hi)⟩
  · simp [CircularBuffer.modifyAt, h.size_eq]
  · show ((s.requests_.elems.modify i (· + 1)).length : ℤ) = _
    rw [List.length_modify]
    exact h.length_eq
  · intro y hy
    obtain hy | hy := List.mem_append.mp hy
    · exact h.le_last y hy
    · obtain rfl := List.mem_singleton.mp hy
      show y.second ≤ s.lastSecond_
      omega

/-- A response of the newest second. -/
lemma Ready.addBack (h : Ready hist start s) (hx : x.second = s.lastSecond_)
    (hstart : LastStart (hist ++ [x]) start) :
    ∃ s', s.addBack x.elapsed_us = some s' ∧ Windowed (hist ++ [x]) s' := by
  have hpos := h.size_pos
  refine h.addAt ?_ ?_ hstart ⟨x, by simp, hx⟩
  · show x.second = _ + ((s.requests_.elems.length - 1 : ℕ) : ℤ)
    omega
  · show s.requests_.elems.length - 1 < _
    omega

/-- A buffer without elements is a cleared one. -/
lemma eq_clear {b : CircularBuffer ℤ} (h : b.elems = []) : b = b.clear := by
  cases b
  simp_all [CircularBuffer.clear]

/-- A response in front of the window is left out. -/
lemma Ready.leave (h : Ready hist start s) (hstart : LastStart (hist ++ [x]) start)
    (hlast : ∃ y ∈ hist, y.second = s.lastSecond_)
    (hx : x.second < s.lastSecond_ - s.requests_.elems.length + 1) : Windowed (hist ++ [x]) s := by
  have hpos := h.pos
  obtain ⟨y, hy, hsecond⟩ := hlast
  refine ⟨h.capacity_requests, h.capacity_latencies, fun hzero => absurd hzero hpos.ne',
    fun _ => ⟨start, hstart, ?_, y, by simp [hy], hsecond⟩⟩
  refine ⟨h.capacity_requests, h.capacity_latencies, h.size_eq, h.length_eq, h.start_le, hpos, ?_,
    h.requests.leave hx, h.latencies.leave (h.size_eq ▸ hx)⟩
  intro z hz
  obtain hz | hz := List.mem_append.mp hz
  · exact h.le_last z hz
  · obtain rfl := List.mem_singleton.mp hz
    omega

/-- A response that is less than 60 seconds behind another one does not begin the window anew. -/
lemma LastStart.keep (h : LastStart hist start) (hlast : ∃ y ∈ hist, y.second = s.lastSecond_)
    (hx : x.second < s.lastSecond_ + kSeconds) : LastStart (hist ++ [x]) start := by
  refine h.snoc fun hrestarts => ?_
  obtain ⟨y, hy, hsecond⟩ := hlast
  have hle := hrestarts y hy
  omega

/-- **A response is counted in its second**, or left out in front of the window. -/
lemma windowed_recordSecond (h : Windowed hist s) (hx : 0 < x.second) :
    ∃ s', s.recordSecond x.second x.elapsed_us = some s' ∧ Windowed (hist ++ [x]) s' := by
  have hk : kSeconds = 60 := rfl
  by_cases hzero : s.lastSecond_ = 0
  · -- the first response
    obtain ⟨rfl, hreq, hlat⟩ := h.empty hzero
    have hready := ready_start h.capacity_requests h.capacity_latencies hx
      (fun y hy => absurd hy List.not_mem_nil)
    rw [← eq_clear hreq, ← eq_clear hlat] at hready
    rw [recordSecond, if_neg (by omega), if_pos (.inr hzero)]
    exact hready.addBack rfl (lastStart_of_restarts fun y hy => absurd hy List.not_mem_nil)
  · obtain ⟨start, hstart, hready, hlast⟩ := h.ready hzero
    unfold recordSecond
    split_ifs with hsame hnext hlater hnear
    · exact hready.addBack hsame.symm (hstart.keep hlast (by omega))
    · have hsecond : s.lastSecond_ + 1 = x.second := hnext.resolve_right hzero
      have hready' := hready.next
      rw [hsecond] at hready'
      exact hready'.addBack rfl (hstart.keep hlast (by omega))
    · obtain ⟨hready', hsecond⟩ := hready.advance (x.second - s.lastSecond_).toNat
      exact hready'.addBack (by omega) (hstart.keep hlast hnear)
    · -- the window is begun anew
      have hrestarts : Restarts hist x := fun y hy => by
        have hle := hready.le_last y hy
        omega
      refine (ready_start h.capacity_requests h.capacity_latencies hx fun y hy => ?_).addBack rfl
        (lastStart_of_restarts hrestarts)
      have hle := hrestarts y hy
      omega
    · have hkept : LastStart (hist ++ [x]) start := hstart.keep hlast (by omega)
      by_cases hinside : x.second ≥ s.lastSecond_ - s.requests_.elems.length + 1
      · obtain ⟨y, hy, hsecond⟩ := hlast
        obtain ⟨s', hs', hwindow⟩ := hready.addAt (x := x)
          (i := (x.second - (s.lastSecond_ - s.requests_.elems.length + 1)).toNat) (by omega)
          (by omega) hkept ⟨y, by simp [hy], hsecond⟩
        exact ⟨s', (if_pos hinside).trans hs', hwindow⟩
      · exact ⟨s, if_neg hinside, hready.leave hkept hlast (by omega)⟩

end Window

/-! ## Runs -/

/-- The response of a call, if its latency is not negative. -/
def Call.sample? : Call → Option Sample
  | .recordResponse now receive _ =>
    if now.toInt - receive.toInt < 0 then none
    else some ⟨now.toInt.tdiv 1000000, now.toInt - receive.toInt⟩
  | _ => none

/-- The responses behind the last `reset` whose latencies are not negative. -/
def samples (calls : List Call) : List Sample := (sinceLast .reset calls).filterMap Call.sample?

/-- The clock is past the first second of 1970. -/
def Call.clocked : Call → Bool
  | .recordResponse now _ _ => 1000000 ≤ now.toInt
  | _ => true

/-- A response, of any latency. -/
def Call.isResponse : Call → Bool
  | .recordResponse _ _ _ => true
  | _ => false

/-- A response with a solution. -/
def Call.isSolved : Call → Bool
  | .recordResponse _ _ solved => solved
  | _ => false

/-- A response that was received behind `now`. -/
def Call.isEarly : Call → Bool
  | .recordResponse now receive _ => now.toInt - receive.toInt < 0
  | _ => false

/-- The totals of the class. -/
structure Totals where
  requests : ℤ
  responses : ℤ
  solved : ℤ
  badRequests : ℤ
  dropped : ℤ
  latency : ℤ
  badLatency : ℤ
deriving DecidableEq

/-- The totals that are kept. -/
def totals (s : SudokuStat) : Totals :=
  ⟨s.totalRequests_, s.totalResponses_, s.totalSolved_, s.badRequests_, s.droppedRequests_,
    s.totalLatency_, s.badLatency_⟩

/-- The totals of the calls: all but the dropped requests are counted from the last `reset` on. -/
def counted (calls : List Call) : Totals :=
  ⟨(sinceLast .reset calls).count .recordRequest, (sinceLast .reset calls).countP Call.isResponse,
    (sinceLast .reset calls).countP Call.isSolved, (sinceLast .reset calls).count .recordBadRequest,
    calls.count .recordDroppedRequest, ((samples calls).map Sample.elapsed_us).sum,
    (sinceLast .reset calls).countP Call.isEarly⟩

section Runs

variable {s s' : SudokuStat} {calls : List Call} {c : Call} {hist : List Sample}

lemma totals_addAt {i : ℕ} {e : ℤ} (h : s.addAt i e = some s') : s'.totals = s.totals := by
  rw [addAt] at h
  split_ifs at h
  obtain rfl := Option.some.inj h
  rfl

lemma totals_advance (n : ℕ) (s : SudokuStat) : (s.advance n).totals = s.totals := by
  induction n generalizing s with
  | zero => rfl
  | succ n ih => exact ih _

lemma totals_recordSecond {second e : ℤ} (h : s.recordSecond second e = some s') :
    s'.totals = s.totals := by
  unfold recordSecond at h
  split_ifs at h
  · exact totals_addAt h
  · exact (totals_addAt h).trans rfl
  · exact (totals_addAt h).trans (totals_advance _ s)
  · exact (totals_addAt h).trans rfl
  · simp only at h
    split_ifs at h
    · exact totals_addAt h
    · obtain rfl := Option.some.inj h
      rfl

/-- The totals do not matter for the window. -/
lemma Windowed.of_eq (h : Windowed hist s) (hlast : s'.lastSecond_ = s.lastSecond_)
    (hreq : s'.requests_ = s.requests_) (hlat : s'.latencies_ = s.latencies_) :
    Windowed hist s' where
  capacity_requests := by rw [hreq, h.capacity_requests]
  capacity_latencies := by rw [hlat, h.capacity_latencies]
  empty := by rw [hlast, hreq, hlat]; exact h.empty
  ready := by
    rw [hlast]
    intro hne
    obtain ⟨start, hstart, hready, hnewest⟩ := h.ready hne
    refine ⟨start, hstart, ⟨?_, ?_, ?_, ?_, ?_, ?_, ?_, ?_, ?_⟩, hnewest⟩
    · rw [hreq, h.capacity_requests]
    · rw [hlat, h.capacity_latencies]
    · rw [hreq, hlat, hready.size_eq]
    · rw [hreq, hlast, hready.length_eq]
    · rw [hlast]; exact hready.start_le
    · rw [hlast]; exact hready.pos
    · rw [hlast]; exact hready.le_last
    · rw [hreq, hlast]; exact hready.requests
    · rw [hlat, hlast]; exact hready.latencies

/-- What the calls have left. -/
structure Holds (calls : List Call) (s : SudokuStat) : Prop where
  windowed : Windowed (samples calls) s
  totals_eq : s.totals = counted calls

lemma holds_make : Holds [] make :=
  ⟨⟨rfl, rfl, fun _ => ⟨rfl, rfl, rfl⟩, fun hne => absurd rfl hne⟩, rfl⟩

lemma holds_reset (h : Holds calls s) : Holds (calls ++ [.reset]) s.reset := by
  have hnone : samples (calls ++ [.reset]) = [] := by
    rw [samples, sinceLast_self]
    rfl
  refine ⟨?_, ?_⟩
  · rw [hnone]
    exact ⟨h.windowed.capacity_requests, h.windowed.capacity_latencies, fun _ => ⟨rfl, rfl, rfl⟩,
      fun hne => absurd rfl hne⟩
  · have hdropped := congrArg Totals.dropped h.totals_eq
    simp only [totals, counted] at hdropped
    simp [totals, counted, reset, sinceLast_self, hnone, hdropped]

lemma samples_snoc (calls : List Call) (hc : c ≠ .reset) :
    samples (calls ++ [c]) = samples calls ++ c.sample?.toList :=
  filterMap_sinceLast_snoc _ hc

/-- One call more is one more in the totals it belongs to. -/
lemma counted_snoc (calls : List Call) (hc : c ≠ .reset) :
    counted (calls ++ [c]) =
      ⟨(counted calls).requests + if c = .recordRequest then 1 else 0,
        (counted calls).responses + if c.isResponse then 1 else 0,
        (counted calls).solved + if c.isSolved then 1 else 0,
        (counted calls).badRequests + if c = .recordBadRequest then 1 else 0,
        (counted calls).dropped + if c = .recordDroppedRequest then 1 else 0,
        (counted calls).latency + (c.sample?.toList.map Sample.elapsed_us).sum,
        (counted calls).badLatency + if c.isEarly then 1 else 0⟩ := by
  simp [counted, sinceLast_snoc hc, samples_snoc calls hc, List.count_append, List.countP_append,
    List.count_singleton, List.countP_singleton]

/-- A call without a response that has a latency leaves the window as it is. -/
lemma Holds.windowed_snoc (h : Holds calls s) (hc : c ≠ .reset) (hnone : c.sample? = none)
    (hlast : s'.lastSecond_ = s.lastSecond_) (hreq : s'.requests_ = s.requests_)
    (hlat : s'.latencies_ = s.latencies_) : Windowed (samples (calls ++ [c])) s' := by
  rw [samples_snoc calls hc, hnone, Option.toList_none, List.append_nil]
  exact h.windowed.of_eq hlast hreq hlat

/-- A response with a latency is counted in its second, any other one only in the totals. -/
lemma recordResponse_cases {now receive : Int64} {solved : Bool}
    (h : s.recordResponse now receive solved = some s') :
    (now.toInt - receive.toInt < 0 ∧
      s' = { s.countResponse solved with badLatency_ := s.badLatency_ + 1 }) ∨
    (¬ now.toInt - receive.toInt < 0 ∧
      { s.countResponse solved with
        totalLatency_ := s.totalLatency_ + (now.toInt - receive.toInt) }.recordSecond
          (now.toInt.tdiv 1000000) (now.toInt - receive.toInt) = some s') := by
  rw [recordResponse] at h
  simp only at h
  split_ifs at h with hfits hsize helapsed
  · exact .inl ⟨helapsed, (Option.some.inj h).symm⟩
  · exact .inr ⟨helapsed, (Option.filter_eq_some_iff.mp h).1⟩

/-- A response with a latency is always counted or left out. -/
lemma Windowed.record {now receive : Int64} (h : Windowed hist s) (solved : Bool)
    (hclock : 1000000 ≤ now.toInt) :
    ∃ s', { s.countResponse solved with
        totalLatency_ := s.totalLatency_ + (now.toInt - receive.toInt) }.recordSecond
          (now.toInt.tdiv 1000000) (now.toInt - receive.toInt) = some s' ∧
      Windowed (hist ++ [⟨now.toInt.tdiv 1000000, now.toInt - receive.toInt⟩]) s' := by
  have hsecond : 0 < now.toInt.tdiv 1000000 := by
    rw [Int.tdiv_eq_ediv_of_nonneg (by omega)]
    omega
  have hwindowed : Windowed hist { s.countResponse solved with
      totalLatency_ := s.totalLatency_ + (now.toInt - receive.toInt) } := h.of_eq rfl rfl rfl
  exact windowed_recordSecond
    (x := ⟨now.toInt.tdiv 1000000, now.toInt - receive.toInt⟩) hwindowed hsecond

lemma holds_response {now receive : Int64} {solved : Bool} (h : Holds calls s)
    (hclock : 1000000 ≤ now.toInt) (hs' : s.recordResponse now receive solved = some s') :
    Holds (calls ++ [.recordResponse now receive solved]) s' := by
  have htotals := h.totals_eq
  have hne : Call.recordResponse now receive solved ≠ .reset := by simp
  rcases recordResponse_cases hs' with ⟨hearly, rfl⟩ | ⟨hlate, hrecord⟩
  · have hnone : (Call.recordResponse now receive solved).sample? = none := if_pos hearly
    refine ⟨h.windowed_snoc hne hnone rfl rfl rfl, ?_⟩
    rw [counted_snoc calls hne, ← htotals, hnone]
    cases solved <;> simp [totals, countResponse, Call.isResponse, Call.isSolved, Call.isEarly, hearly]
  · have hsome : (Call.recordResponse now receive solved).sample? =
        some ⟨now.toInt.tdiv 1000000, now.toInt - receive.toInt⟩ := if_neg hlate
    refine ⟨?_, ?_⟩
    · obtain ⟨s'', hs'', hwindowed'⟩ := h.windowed.record solved hclock
      obtain rfl := Option.some.inj (hrecord.symm.trans hs'')
      rw [samples_snoc calls hne, hsome]
      exact hwindowed'
    · rw [totals_recordSecond hrecord, counted_snoc calls hne, ← htotals, hsome]
      cases solved <;> simp [totals, countResponse, Call.isResponse, Call.isSolved, Call.isEarly, hlate]

/-- **One call.**  The window and the totals are those of the calls so far. -/
lemma holds_step (h : Holds calls s) (hclock : c.clocked = true) (hs' : step s c = some s') :
    Holds (calls ++ [c]) s' := by
  have hperform := (Option.filter_eq_some_iff.mp hs').1
  have htotals := h.totals_eq
  cases c with
  | recordResponse now receive solved => exact holds_response h (of_decide_eq_true hclock) hperform
  | recordRequest =>
    obtain rfl := Option.some.inj hperform
    refine ⟨h.windowed_snoc (by simp) rfl rfl rfl rfl, ?_⟩
    rw [counted_snoc calls (by simp), ← htotals]
    simp [totals, Call.isResponse, Call.isSolved, Call.isEarly, Call.sample?]
  | recordBadRequest =>
    obtain rfl := Option.some.inj hperform
    refine ⟨h.windowed_snoc (by simp) rfl rfl rfl rfl, ?_⟩
    rw [counted_snoc calls (by simp), ← htotals]
    simp [totals, Call.isResponse, Call.isSolved, Call.isEarly, Call.sample?]
  | recordDroppedRequest =>
    obtain rfl := Option.some.inj hperform
    refine ⟨h.windowed_snoc (by simp) rfl rfl rfl rfl, ?_⟩
    rw [counted_snoc calls (by simp), ← htotals]
    simp [totals, Call.isResponse, Call.isSolved, Call.isEarly, Call.sample?]
  | reset =>
    obtain rfl := Option.some.inj hperform
    exact holds_reset h

/-- What holds behind every run. -/
lemma holds_of_run (hclock : ∀ c ∈ calls, c.clocked = true) (hrun : run step make calls = some s) :
    Holds calls s := by
  refine run_history (P := fun calls s => (∀ c ∈ calls, c.clocked = true) → Holds calls s)
    (fun _ => holds_make) ?_ hrun hclock
  intro calls s₁ c s₂ _ ih hs₂ hclock
  exact holds_step (ih fun c' hc' => hclock c' (by simp [hc'])) (hclock c (by simp)) hs₂

end Runs

/-! ## The report -/

/-- The second that the first number of a report stands for. -/
def Report.firstSecond (r : Report) : ℤ := r.last_second - r.requests_per_second.length + 1

/-- The totals that a report shows. -/
def Report.totals (r : Report) : Totals :=
  ⟨r.total_requests, r.total_responses, r.total_solved, r.bad_requests, r.dropped_requests,
    r.latency_sum_us, r.bad_latency.getD 0⟩

/-- What a report says about the calls: the totals, the newest second of a response that has a
latency, how far the seconds reach back, and what happened in each of them. -/
structure Report.Tells (calls : List Call) (r : Report) : Prop where
  totals_eq : r.totals = counted calls
  length_le : r.requests_per_second.length ≤ kSeconds
  length_eq : r.latency_sum_us_per_second.length = r.requests_per_second.length
  shown : samples calls ≠ [] → r.requests_per_second ≠ [] ∧
    IsGreatest {t | ∃ x ∈ samples calls, x.second = t} r.last_second
  reach : samples calls ≠ [] → ∃ start, LastStart (samples calls) start ∧
    r.firstSecond = max (r.last_second - kSeconds + 1) start
  requests (i : ℕ) (n : ℤ) : r.requests_per_second[i]? = some n →
    n = (samples calls).countP fun x => x.second = r.firstSecond + i
  latencies (i : ℕ) (n : ℤ) : r.latency_sum_us_per_second[i]? = some n →
    n = Window.sumAt Sample.second Sample.elapsed_us (samples calls) (r.firstSecond + i)
  requests_60s : r.requests_60s = (samples calls).countP fun x => r.firstSecond ≤ x.second
  latency_60s : r.latency_sum_us_60s =
    Window.sumFrom Sample.second Sample.elapsed_us (samples calls) r.firstSecond

section Report

variable {s : SudokuStat} {calls : List Call}

/-- A sum of numbers that are not negative fits on its way if it fits in the end. -/
lemma sum64_eq_some {ns : List ℤ} (hpos : ∀ n ∈ ns, 0 ≤ n) (hfits : Int64Fits ns.sum) :
    sum64 ns = some ns.sum := by
  have hloop : ∀ (ns : List ℤ) (sum : ℤ), 0 ≤ sum → (∀ n ∈ ns, 0 ≤ n) → Int64Fits (sum + ns.sum) →
      ns.foldlM (fun sum n => if Int64Fits (sum + n) then some (sum + n) else none) sum =
        some (sum + ns.sum) := by
    intro ns
    induction ns with
    | nil => simp
    | cons n ns ih =>
      intro sum hsum hpos hfits
      have hn : 0 ≤ n := hpos n (by simp)
      have hrest : 0 ≤ ns.sum := List.sum_nonneg fun m hm => hpos m (by simp [hm])
      rw [List.sum_cons, ← add_assoc] at hfits ⊢
      have hnext : Int64Fits (sum + n) := by
        obtain ⟨hlow, hhigh⟩ := hfits
        exact ⟨by omega, by omega⟩
      rw [List.foldlM_cons, if_pos hnext]
      exact ih (sum + n) (by omega) (fun m hm => hpos m (by simp [hm])) hfits
  have hsum := hloop ns 0 le_rfl hpos (by rwa [zero_add])
  rwa [zero_add] at hsum

lemma fits_of_run (hrun : run step make calls = some s) : s.Fits := by
  refine run_invariant (fun s₁ c s₂ _ hstep => ?_) (by decide) hrun
  exact of_decide_eq_true (Option.filter_eq_some_iff.mp hstep).2

/-- A response with a latency is a response. -/
lemma length_samples_le (calls : List Call) :
    (samples calls).length ≤ (sinceLast .reset calls).countP Call.isResponse := by
  rw [samples]
  induction sinceLast .reset calls with
  | nil => rfl
  | cons c rest ih =>
    cases hsample : c.sample? with
    | none =>
      rw [List.filterMap_cons_none hsample, List.countP_cons]
      omega
    | some x =>
      have hresponse : c.isResponse = true := by
        cases c with
        | recordResponse now receive solved => rfl
        | _ => simp [Call.sample?] at hsample
      rw [List.filterMap_cons_some hsample, List.countP_cons, if_pos hresponse, List.length_cons]
      omega

lemma elapsed_nonneg {x : Sample} (hx : x ∈ samples calls) : 0 ≤ x.elapsed_us := by
  obtain ⟨c, -, hc⟩ := List.mem_filterMap.mp hx
  cases c with
  | recordResponse now receive solved =>
    rw [Call.sample?] at hc
    split_ifs at hc with hearly
    obtain rfl := Option.some.inj hc
    exact not_lt.mp hearly
  | _ => simp [Call.sample?] at hc

lemma sumAt_one (hist : List Sample) (t : ℤ) :
    Window.sumAt Sample.second (fun _ => (1 : ℤ)) hist t = hist.countP fun x => x.second = t := by
  simp [Window.sumAt, List.countP_eq_length_filter]

lemma sumFrom_one (hist : List Sample) (t : ℤ) :
    Window.sumFrom Sample.second (fun _ => (1 : ℤ)) hist t = hist.countP fun x => t ≤ x.second := by
  simp [Window.sumFrom, List.countP_eq_length_filter]

/-- The latencies of some of the responses. -/
lemma latencies_nonneg (calls : List Call) (p : Sample → Bool) :
    0 ≤ (((samples calls).filter p).map Sample.elapsed_us).sum := by
  refine List.sum_nonneg fun n hn => ?_
  obtain ⟨x, hx, rfl⟩ := List.mem_map.mp hn
  exact elapsed_nonneg (List.mem_filter.mp hx).1

lemma latencies_le (calls : List Call) (p : Sample → Bool) :
    (((samples calls).filter p).map Sample.elapsed_us).sum ≤
      ((samples calls).map Sample.elapsed_us).sum := by
  refine List.Sublist.sum_le_sum (List.filter_sublist.map _) fun n hn => ?_
  obtain ⟨x, hx, rfl⟩ := List.mem_map.mp hn
  exact elapsed_nonneg hx

/-- The numbers of the requests in the window can be added up. -/
lemma sum64_requests (h : Holds calls s) (hfits : s.Fits) :
    sum64 s.requests_.elems = some s.requests_.elems.sum := by
  refine sum64_eq_some (fun n hn => ?_) ?_
  · obtain ⟨i, hi⟩ := List.mem_iff_getElem?.mp hn
    rw [h.windowed.requests.eq_sumAt hi, sumAt_one]
    omega
  · have hresponses : s.totalResponses_ = ((sinceLast .reset calls).countP Call.isResponse : ℕ) :=
      congrArg Totals.responses h.totals_eq
    have htotal : Int64Fits s.totalResponses_ := hfits _ (by simp)
    have hle := length_samples_le calls
    have hcount : (samples calls).countP
        (fun x => s.lastSecond_ - s.requests_.elems.length + 1 ≤ x.second) ≤ (samples calls).length :=
      List.countP_le_length
    rw [h.windowed.requests.sum_elems h.windowed.le_last, sumFrom_one]
    obtain ⟨hlow, hhigh⟩ := htotal
    exact ⟨by omega, by omega⟩

/-- The latencies in the window can be added up. -/
lemma sum64_latencies (h : Holds calls s) (hfits : s.Fits) :
    sum64 s.latencies_.elems = some s.latencies_.elems.sum := by
  refine sum64_eq_some (fun n hn => ?_) ?_
  · obtain ⟨i, hi⟩ := List.mem_iff_getElem?.mp hn
    rw [h.windowed.latencies.eq_sumAt hi]
    exact latencies_nonneg calls _
  · have htotal : Int64Fits s.totalLatency_ := hfits _ (by simp)
    have hlatency : s.totalLatency_ = ((samples calls).map Sample.elapsed_us).sum :=
      congrArg Totals.latency h.totals_eq
    have hle := latencies_le calls
      fun x => s.lastSecond_ - s.latencies_.elems.length + 1 ≤ x.second
    have hpos := latencies_nonneg calls
      fun x => s.lastSecond_ - s.latencies_.elems.length + 1 ≤ x.second
    rw [h.windowed.latencies.sum_elems h.windowed.le_last, Window.sumFrom]
    obtain ⟨hlow, hhigh⟩ := htotal
    exact ⟨by omega, by omega⟩

/-- **The report tells what happened.**  In a run in which all numbers of the class fit, whatever
the order of the times of the responses, the number of each second in the report is that of all
responses of the second with a latency that is not negative since the last `reset`.  The seconds
reach back to the response that began the window, or 59 seconds, and the sums over them fit. -/
theorem report_of_run (hclock : ∀ c ∈ calls, c.clocked = true)
    (hrun : run step make calls = some s) (queueSize : ℕ) :
    ∃ r, s.report queueSize = some r ∧ r.Tells calls := by
  have h := holds_of_run hclock hrun
  have hfits := fits_of_run hrun
  have hlen := h.windowed.size_eq
  rw [report, sum64_requests h hfits, sum64_latencies h hfits]
  have hready : samples calls ≠ [] → ∃ start, LastStart (samples calls) start ∧
      Ready (samples calls) start s ∧ ∃ x ∈ samples calls, x.second = s.lastSecond_ :=
    fun hne => h.windowed.ready fun hzero => hne (h.windowed.empty hzero).1
  refine ⟨_, rfl, ?_, ?_, hlen.symm, ?_, ?_, ?_, ?_, ?_, ?_⟩
  · rw [← h.totals_eq]
    have hbad : s.badLatency_ = ((sinceLast .reset calls).countP Call.isEarly : ℕ) :=
      congrArg Totals.badLatency h.totals_eq
    have hgetD : (if s.badLatency_ > 0 then some s.badLatency_ else none).getD 0 = s.badLatency_ := by
      split_ifs with hpos
      · rfl
      · show 0 = s.badLatency_
        omega
    simp only [Report.totals, totals, hgetD]
  · rw [← h.windowed.capacity_requests]
    exact s.requests_.size_le
  · intro hne
    obtain ⟨start, -, hready, x, hx, hsecond⟩ := hready hne
    refine ⟨List.length_pos_iff.mp hready.size_pos, ⟨x, hx, hsecond⟩, ?_⟩
    rintro t ⟨y, hy, rfl⟩
    exact hready.le_last y hy
  · intro hne
    obtain ⟨start, hstart, hready, -⟩ := hready hne
    refine ⟨start, hstart, ?_⟩
    have hlength := hready.length_eq
    show s.lastSecond_ - s.requests_.elems.length + 1 = max (s.lastSecond_ - kSeconds + 1) start
    omega
  · intro i n hn
    rw [← sumAt_one]
    exact h.windowed.requests.eq_sumAt hn
  · intro i n hn
    rw [Report.firstSecond, hlen]
    exact h.windowed.latencies.eq_sumAt hn
  · rw [← sumFrom_one]
    exact h.windowed.requests.sum_elems h.windowed.le_last
  · rw [Report.firstSecond, hlen]
    exact h.windowed.latencies.sum_elems h.windowed.le_last

/-- Responses of the seconds 5, 7 and 6, in that order, one of second 4 that comes too late, and
one with a time stamp ahead of the clock. -/
def outOfOrder : List Call :=
  [.recordRequest, .recordResponse 5000000 4999990 true, .recordResponse 7000000 6999000 false,
    .recordResponse 6000000 5999970 true, .recordResponse 4000000 3999999 true,
    .recordResponse 7000000 8000000 true]

theorem report_of_outOfOrder : ∃ s r, run step make outOfOrder = some s ∧
    s.report 0 = some r ∧ r.Tells outOfOrder := by
  have hsome : (run step make outOfOrder).isSome = true := by decide
  obtain ⟨s, hs⟩ := Option.isSome_iff_exists.mp hsome
  obtain ⟨r, hr, htells⟩ := report_of_run (by decide) hs 0
  exact ⟨s, r, hs, hr, htells⟩

example : ((run step make outOfOrder).bind (·.report 0)).map
    (fun r => (r.last_second, r.requests_per_second, r.latency_sum_us_per_second, r.bad_latency)) =
      some (7, [1, 1, 1], [10, 30, 1000], some 1) := by
  decide

/-- The difference of the time stamps is an `int64_t`. -/
def Call.elapsedFits : Call → Bool
  | .recordResponse now receive _ => Int64Fits (now.toInt - receive.toInt)
  | _ => true

/-- **No assertion fails**, and no element that is counted in is missing: a call can only stop at a
sum that does not fit. -/
theorem perform_isSome_of_run (hclock : ∀ c ∈ calls, c.clocked = true)
    (hrun : run step make calls = some s) {c : Call} (hc : c.clocked = true)
    (hfits : c.elapsedFits = true) : (c.perform s).isSome = true := by
  have h := holds_of_run hclock hrun
  cases c with
  | recordResponse now receive solved =>
    have hnow : 1000000 ≤ now.toInt := of_decide_eq_true hc
    have helapsed : Int64Fits (now.toInt - receive.toInt) := of_decide_eq_true hfits
    have hsize : s.requests_.size = s.latencies_.size := h.windowed.size_eq
    rw [Call.perform, recordResponse]
    simp only [helapsed, not_true, if_false]
    rw [if_neg (not_not.mpr hsize)]
    split_ifs with hearly
    · rfl
    · obtain ⟨s', hs', hwindowed'⟩ := h.windowed.record solved hnow
      rw [Option.isSome_iff_exists]
      exact ⟨s', Option.filter_eq_some_iff.mpr ⟨hs', decide_eq_true hwindowed'.size_eq⟩⟩
  | _ => rfl

theorem perform_isSome_of_outOfOrder : ∃ s, run step make outOfOrder = some s ∧
    ((Call.recordResponse 100000000 99000000 true).perform s).isSome = true := by
  have hsome : (run step make outOfOrder).isSome = true := by decide
  obtain ⟨s, hs⟩ := Option.isSome_iff_exists.mp hsome
  exact ⟨s, hs, perform_isSome_of_run (by decide) hs (by decide) (by decide)⟩

end Report

end SudokuStat

end CppServer.Sudoku
