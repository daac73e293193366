/-
# Workers in turn

New connections are spread over a pool of workers by a counter that all threads share:
`Context::setWorker` of `Framework/game_gate/EntryPtr.h` and `EventLoopContext::allocWorkerIndex`
of `thirdpart/https/ApiServer.h` take the counter's value modulo the size of the pool and add one
to it.  The counter is an `AtomicInt32` of `muduo/base/Atomic.h`, which wraps around.

Each access to the counter is one atomic step, and so is the use of the index that a call has
found; a run is any interleaving of the steps of any number of threads.  The remainder is that of
a `size_t`, so it is never negative and the branch that starts the counter again is never taken.
For the same reason the counter makes two jumps on its way round, behind `2^31 - 1` and behind
`-1`, and the workers go on in turn there only if the jump does not show modulo the size.
-/
import CppServer.Lib.Bytes
import CppServer.Lib.Residues
import CppServer.Lib.Run

namespace CppServer.Threads

/-! ## The counter -/

namespace AtomicInt32

/-- `AtomicIntegerT::getAndAdd`: what it returns, and the value it leaves. -/
def getAndAdd (value_ x : Int32) : Int32 × Int32 := (value_, value_ + x)

/-- `AtomicIntegerT::addAndGet`. -/
def addAndGet (value_ x : Int32) : Int32 × Int32 :=
  ((getAndAdd value_ x).1 + x, (getAndAdd value_ x).2)

/-- `AtomicIntegerT::getAndSet`. -/
def getAndSet (value_ newValue : Int32) : Int32 × Int32 := (value_, newValue)

end AtomicInt32

open AtomicInt32

/-- `nextPool_.getAndAdd(1) % pool_.size()` as an `int`, for the value that the counter had. -/
def poolIndex (size : ℕ) (value : ℤ) : ℤ := cint (csize value % size)

/-- What the two functions do differently: where a negative index starts the counter again, how
the index is then taken from it, and what is checked of an index. -/
structure Method where
  restart : Int32
  next : Int32 → Int32 × Int32
  check : ℤ → ℕ → Option Unit

/-- `Context::setWorker(nextPool_, threadPool_)`. -/
def setWorker : Method where
  restart := 0
  next nextPool_ := getAndAdd nextPool_ 1
  check _ _ := some ()

/-- `EventLoopContext::allocWorkerIndex`. -/
def allocWorkerIndex (ndebug : Bool) : Method where
  restart := -1
  next nextPool_ := addAndGet nextPool_ 1
  check index size := cassert ndebug (0 ≤ index ∧ index < size)

/-! ## Threads that choose workers -/

namespace RoundRobin

/-- Where a thread is: in no call, or in the `k`-th call, which has found an index, has started
the counter again, or has taken an index from it after that. -/
inductive Phase where
  | idle
  | counted (k : ℕ) (index : ℤ)
  | restarted (k : ℕ)
  | settled (k : ℕ) (index : ℤ)
deriving DecidableEq

/-- The counter, the threads, the number of calls so far in the order in which they found the
counter, and the index with which a call accessed the pool. -/
structure State (T : Type) where
  nextPool_ : Int32
  phase : T → Phase
  calls : ℕ
  used : ℕ → Option ℤ

/-- Before the first call, with a value of the counter. -/
def State.init {T : Type} (value : Int32) : State T := ⟨value, fun _ => .idle, 0, fun _ => none⟩

variable {T : Type} [DecidableEq T]

/-- The thread checks its index and accesses the pool. -/
def use (m : Method) (size : ℕ) (s : State T) (t : T) (k : ℕ) (index : ℤ) :
    Option (State T) := do
  m.check index size
  return { s with
    phase := Function.update s.phase t .idle
    used := Function.update s.used k (some index) }

/-- The next step of the thread `t`. -/
def step (m : Method) (size : ℕ) (s : State T) (t : T) : Option (State T) :=
  match s.phase t with
  | .idle => some { s with
      nextPool_ := (getAndAdd s.nextPool_ 1).2
      phase := Function.update s.phase t
        (.counted s.calls (poolIndex size (getAndAdd s.nextPool_ 1).1.toInt))
      calls := s.calls + 1 }
  | .counted k index =>
    -- the branch for an overflow of the counter
    if index < 0 then some { s with
      nextPool_ := (getAndSet s.nextPool_ m.restart).2
      phase := Function.update s.phase t (.restarted k) }
    else use m size s t k index
  | .restarted k => some { s with
      nextPool_ := (m.next s.nextPool_).2
      phase := Function.update s.phase t (.settled k (m.next s.nextPool_).1.toInt) }
  | .settled k index => use m size s t k index

/-- The condition on `size` calls in a row, of which the first finds the counter at `value`: if
the counter goes from `2^31 - 1` to `-2^31` between them, or from `-1` to `0`, the jump is a
multiple of the size. -/
def PassesEvenly (size : ℕ) (value : ℤ) : Prop :=
  (0 ≤ value → 2 ^ 31 < value + size → size ∣ 2 ^ 64 - 2 ^ 32) ∧
    (value < 0 → 0 < value + size → size ∣ 2 ^ 64)

instance (size : ℕ) (value : ℤ) : Decidable (PassesEvenly size value) :=
  inferInstanceAs (Decidable (_ ∧ _))

/-! ## The indices of calls in a row -/

section Index

variable {size : ℕ} {value : ℤ}

/-- The remainder fits an `int` as it is. -/
lemma poolIndex_eq (hpos : 0 < size) (hmax : size ≤ 2 ^ 31 - 1) (value : ℤ) :
    poolIndex size value = csize value % size := by
  have hl := Int.emod_nonneg (csize value) (b := size) (by omega)
  have hu := Int.emod_lt_of_pos (csize value) (b := size) (by omega)
  exact cint_of_range (by omega) (by omega)

lemma poolIndex_nonneg (hpos : 0 < size) (hmax : size ≤ 2 ^ 31 - 1) (value : ℤ) :
    0 ≤ poolIndex size value := by
  rw [poolIndex_eq hpos hmax]
  exact Int.emod_nonneg _ (by omega)

lemma poolIndex_lt (hpos : 0 < size) (hmax : size ≤ 2 ^ 31 - 1) (value : ℤ) :
    poolIndex size value < size := by
  rw [poolIndex_eq hpos hmax]
  exact Int.emod_lt_of_pos _ (by omega)

/-- From a value that is not negative, the counter jumps behind `2^31 - 1`. -/
lemma csize_of_nonneg (h : 0 ≤ value) (hmax : value < 2 ^ 31) {i : ℕ} (hi : i < 2 ^ 31) :
    csize (cint (value + i)) =
      jumpAt value (value + (2 ^ 64 - 2 ^ 32)) (2 ^ 31 - value).toNat i := by
  rw [jumpAt, csize]
  split
  · rw [cint_of_range (by omega) (by omega)]
    omega
  · rw [cint_of_wrap (by omega) (by omega)]
    omega

/-- From a negative value, it jumps behind `-1`. -/
lemma csize_of_neg (h : value < 0) (hmin : -2 ^ 31 ≤ value) {i : ℕ} (hi : i < 2 ^ 31) :
    csize (cint (value + i)) = jumpAt (value + 2 ^ 64) value (-value).toNat i := by
  rw [jumpAt, csize, cint_of_range (by omega) (by omega)]
  split <;> omega

/-- Calls in a row find different indices exactly if no jump of the counter shows. -/
lemma indices_differ_iff (hpos : 0 < size) (hmax : size ≤ 2 ^ 31 - 1) (hl : -2 ^ 31 ≤ value)
    (hu : value < 2 ^ 31) :
    (∀ i < size, ∀ j < size,
      poolIndex size (cint (value + i)) = poolIndex size (cint (value + j)) → i = j) ↔
      PassesEvenly size value := by
  have hrow : (∀ i < size, ∀ j < size,
      poolIndex size (cint (value + i)) = poolIndex size (cint (value + j)) → i = j) ↔
      ResiduesDiffer (fun i => csize (cint (value + i))) size := by
    simp only [poolIndex_eq hpos hmax, ResiduesDiffer]
  rw [hrow, PassesEvenly]
  by_cases h : 0 ≤ value
  · rw [residuesDiffer_congr fun i hi => csize_of_nonneg h hu (by omega),
      residuesDiffer_jumpAt_iff]
    have hjump : value + (2 ^ 64 - 2 ^ 32) - value = ((2 ^ 64 - 2 ^ 32 : ℕ) : ℤ) := by omega
    rw [hjump, Int.natCast_dvd_natCast]
    constructor
    · intro hdvd
      exact ⟨fun _ hlt => hdvd (by omega) (by omega), fun hneg => by omega⟩
    · rintro ⟨hdvd, -⟩ _ hlt
      exact hdvd h (by omega)
  · rw [residuesDiffer_congr fun i hi => csize_of_neg (by omega) hl (by omega),
      residuesDiffer_jumpAt_iff]
    have hjump : value - (value + 2 ^ 64) = -((2 ^ 64 : ℕ) : ℤ) := by omega
    rw [hjump, Int.dvd_neg, Int.natCast_dvd_natCast]
    constructor
    · intro hdvd
      exact ⟨fun hnonneg => absurd hnonneg h, fun _ hlt => hdvd (by omega) (by omega)⟩
    · rintro ⟨-, hdvd⟩ _ hlt
      exact hdvd (by omega) (by omega)

end Index

/-! ## Runs -/

/-- What is true of every run from the value `value₀` of the counter: it has counted the calls,
and each call has found its index at the value that the counter then had. -/
structure Counted (size : ℕ) (value₀ : Int32) (s : State T) : Prop where
  nextPool_ : s.nextPool_.toInt = cint (value₀.toInt + s.calls)
  phase : ∀ t, s.phase t = .idle ∨
    ∃ k, s.phase t = .counted k (poolIndex size (cint (value₀.toInt + k)))
  used : ∀ k index, s.used k = some index → index = poolIndex size (cint (value₀.toInt + k))

section Run

variable {m : Method} {size : ℕ} {value₀ : Int32} {s s' : State T} {t : T}

omit [DecidableEq T] in
lemma counted_init : Counted size value₀ (State.init value₀ : State T) where
  nextPool_ := by
    have hl := value₀.le_toInt
    have hu := value₀.toInt_lt
    show value₀.toInt = cint (value₀.toInt + (0 : ℕ))
    rw [cint_of_range (by omega) (by omega)]
    omega
  phase _ := Or.inl rfl
  used _ _ h := absurd h (by simp [State.init])

/-- No call starts the counter again, so a step begins a call or ends one. -/
lemma Counted.step_cases (hpos : 0 < size) (hmax : size ≤ 2 ^ 31 - 1)
    (hs : Counted size value₀ s) (h : step m size s t = some s') :
    (s.phase t = .idle ∧ s' = { s with
      nextPool_ := s.nextPool_ + 1
      phase := Function.update s.phase t
        (.counted s.calls (poolIndex size (cint (value₀.toInt + s.calls))))
      calls := s.calls + 1 }) ∨
    ∃ k, s' = { s with
      phase := Function.update s.phase t .idle
      used := Function.update s.used k
        (some (poolIndex size (cint (value₀.toInt + k)))) } := by
  rcases hs.phase t with hidle | ⟨k, hk⟩
  · refine Or.inl ⟨hidle, ?_⟩
    simp only [step, hidle, getAndAdd, hs.nextPool_] at h
    exact (Option.some.inj h).symm
  · have hnonneg := poolIndex_nonneg hpos hmax (cint (value₀.toInt + k))
    simp only [step, hk, if_neg (not_lt.mpr hnonneg), use] at h
    obtain ⟨-, -, h⟩ := Option.bind_eq_some_iff.mp h
    exact Or.inr ⟨k, (Option.some.inj h).symm⟩

lemma Counted.step (hpos : 0 < size) (hmax : size ≤ 2 ^ 31 - 1) (hs : Counted size value₀ s)
    (h : step m size s t = some s') : Counted size value₀ s' := by
  rcases hs.step_cases hpos hmax h with ⟨-, rfl⟩ | ⟨k, rfl⟩
  · refine ⟨?_, fun t' => ?_, hs.used⟩
    · have hadd : (s.nextPool_ + 1).toInt = cint (s.nextPool_.toInt + 1) := Int32.toInt_add _ _
      show (s.nextPool_ + 1).toInt = cint (value₀.toInt + (s.calls + 1 : ℕ))
      rw [hadd, hs.nextPool_, cint_cint_add, Nat.cast_succ, add_assoc]
    · by_cases ht : t' = t
      · subst ht
        exact Or.inr ⟨s.calls, Function.update_self ..⟩
      · simpa [Function.update_of_ne ht] using hs.phase t'
  · refine ⟨hs.nextPool_, fun t' => ?_, fun k' index hk' => ?_⟩
    · by_cases ht : t' = t
      · subst ht
        exact Or.inl (Function.update_self ..)
      · simpa [Function.update_of_ne ht] using hs.phase t'
    · by_cases hkk : k' = k
      · subst hkk
        simpa [eq_comm] using hk'
      · exact hs.used k' index (by simpa [Function.update_of_ne hkk] using hk')

/-- No assertion of an index fails. -/
lemma Counted.exists_step (hm : m = setWorker ∨ ∃ ndebug, m = allocWorkerIndex ndebug)
    (hpos : 0 < size) (hmax : size ≤ 2 ^ 31 - 1) (hs : Counted size value₀ s) (t : T) :
    ∃ s', RoundRobin.step m size s t = some s' := by
  rcases hs.phase t with hidle | ⟨k, hk⟩
  · exact ⟨_, by rw [RoundRobin.step, hidle]⟩
  · have hnonneg := poolIndex_nonneg hpos hmax (cint (value₀.toInt + k))
    have hlt := poolIndex_lt hpos hmax (cint (value₀.toInt + k))
    have hcheck : m.check (poolIndex size (cint (value₀.toInt + k))) size = some () := by
      rcases hm with rfl | ⟨ndebug, rfl⟩
      · rfl
      · exact if_pos (Or.inr ⟨hnonneg, hlt⟩)
    rw [RoundRobin.step, hk]
    simp only [if_neg (not_lt.mpr hnonneg), use, hcheck]
    exact ⟨_, rfl⟩

end Run

/-- **When the workers are chosen in turn.**  In every run of any number of threads, from every
value of the counter: every index lies in the pool and no assertion fails; and `size` calls whose
counts follow one another choose `size` different workers exactly if no jump of the counter
between them shows modulo the size. -/
theorem workers_in_turn_iff_passes_evenly (m : Method)
    (hm : m = setWorker ∨ ∃ ndebug, m = allocWorkerIndex ndebug) (size : ℕ) (hpos : 1 ≤ size)
    (hmax : size ≤ 2 ^ 31 - 1) (value₀ : Int32) (ts : List T) (s : State T)
    (hrun : run (step m size) (State.init value₀) ts = some s) :
    (∀ k index, s.used k = some index → 0 ≤ index ∧ index < size) ∧
    (∀ t, ∃ s', step m size s t = some s') ∧
    ∀ k, (∀ i < size, s.used (k + i) ≠ none) →
      ((∀ i < size, ∀ j < size, s.used (k + i) = s.used (k + j) → i = j) ↔
        PassesEvenly size (cint (value₀.toInt + k))) := by
  have hs : Counted size value₀ s :=
    run_invariant (fun _ _ _ hs h => hs.step hpos hmax h) counted_init hrun
  refine ⟨fun k index hk => ?_, hs.exists_step hm hpos hmax, fun k hall => ?_⟩
  · rw [hs.used k index hk]
    exact ⟨poolIndex_nonneg hpos hmax _, poolIndex_lt hpos hmax _⟩
  · have hused : ∀ i < size, s.used (k + i) =
        some (poolIndex size (cint (cint (value₀.toInt + k) + i))) := by
      intro i hi
      obtain ⟨index, hindex⟩ := Option.ne_none_iff_exists'.mp (hall i hi)
      rw [hindex, hs.used _ _ hindex, cint_cint_add, Nat.cast_add, add_assoc]
    rw [← indices_differ_iff hpos hmax (le_cint _) (cint_lt _)]
    refine forall₂_congr fun i hi => forall₂_congr fun j hj => ?_
    rw [hused i hi, hused j hj, Option.some.injEq]

/-- Two threads make three calls while the counter goes from `2^31 - 1` to `-2^31`.  A pool of
three divides that jump, and its workers are chosen in turn. -/
theorem three_workers_in_turn :
    ∃ s, run (step setWorker 3) (State.init 2147483646) [true, false, false, true, true, true] =
        some s ∧
      ∀ i < 3, ∀ j < 3, s.used (0 + i) = s.used (0 + j) → i = j := by
  refine ⟨_, rfl, ?_⟩
  exact ((workers_in_turn_iff_passes_evenly setWorker (Or.inl rfl) 3 (by decide) (by decide)
    2147483646 [true, false, false, true, true, true] _ rfl).2.2 0 (by decide)).mpr (by decide)

/-- One thread makes seven calls from the value `2^31 - 1` on.  The first and the third of them
choose the same one of seven workers. -/
theorem seven_workers_not_in_turn :
    ∃ s, run (step setWorker 7) (State.init 2147483647) (List.replicate 14 ()) = some s ∧
      (List.range 7).map s.used =
        [some 1, some 0, some 1, some 2, some 3, some 4, some 5] ∧
      ¬ ∀ i < 7, ∀ j < 7, s.used (0 + i) = s.used (0 + j) → i = j := by
  refine ⟨_, rfl, by decide, fun h => ?_⟩
  exact absurd (h 0 (by decide) 2 (by decide) rfl) (by decide)

end RoundRobin

end CppServer.Threads
