/-
# The idle-connection timing wheels

`Framework/game_gate/EntryPtr.h` keeps idle connections on a wheel of buckets: every
connection has an `Entry`, every activity of the connection puts a shared reference to the
entry into the newest bucket, and a timer pushes a fresh bucket, which discards the oldest
one with the references in it.  When the last reference to an entry goes, the entry is
destroyed and its destructor closes the connection.  `thirdpart/https/ApiServer.h` has the
same wheel under other names (`ConnBucket`).

The file models both wheels over the circular buffer of `CppServer.Lib.CircularBuffer`.  An
entry sits in several buckets at once and an update never removes it from the older ones,
so the wheel is compared with an abstract model (`Clocks`) that keeps one number for each
entry, the pops since its last activity.  The wheel holds an entry exactly while that number
is below the size of the wheel.
-/
import Mathlib.Data.Finset.Insert
import Mathlib.Logic.Function.Basic
import CppServer.Lib.CircularBuffer
import CppServer.Lib.Run

namespace CppServer.Gate

/-- The address of an `Entry`; an `EntryPtr` is an optional one. -/
abbrev EntryId := ℕ

/-- The address of a `TcpConnection`. -/
abbrev ConnId := ℕ

/-- The address of an `EventLoop`. -/
abbrev LoopId := ℕ

/-- The fields of entries and connections that the wheels read.  They are set by the
constructors and never change. -/
structure Net where
  /-- The connection that `Entry::weakConn_` was made from. -/
  weakConn_ : EntryId → ConnId
  /-- `TcpConnection::getLoop()`. -/
  getLoop : ConnId → LoopId

/-- `weak_ptr::lock()`: the connection while it is alive, else the null pointer. -/
def lock (live : ConnId → Bool) (conn : ConnId) : Option ConnId :=
  if live conn then some conn else none

/-- `std::unordered_set<EntryPtr>`. -/
abbrev Bucket := Finset EntryId

/-! ## The two wheels -/

/-- The members common to `Buckets` and `ConnBucket`. -/
structure Wheel where
  /-- The event loop whose thread operates the wheel. -/
  loop_ : LoopId
  /-- The buckets, oldest first. -/
  buckets_ : CircularBuffer Bucket

namespace Wheel

/-- `buckets_.resize(size)` on the default constructed buffer. -/
def make (loop_ : LoopId) (size : ℕ) : Wheel :=
  ⟨loop_, CircularBuffer.empty.resize size ∅⟩

/-- The timer operation: a fresh bucket displaces the oldest. -/
def tick (w : Wheel) : Wheel := { w with buckets_ := w.buckets_.push_back ∅ }

/-- The activity operation: an entry whose connection is alive goes into the newest
bucket.  The connection must belong to the loop of the wheel. -/
def touch (net : Net) (ndebug : Bool) (live : ConnId → Bool) (w : Wheel) :
    Option EntryId → Option Wheel
  | none => some w
  | some entry =>
    match lock live (net.weakConn_ entry) with
    | none => some w
    | some conn => do
      cassert ndebug (net.getLoop conn = w.loop_)
      return { w with buckets_ := w.buckets_.modifyBack (insert entry) }

/-- Some bucket of the wheel holds a reference to the entry. -/
def Held (w : Wheel) (entry : EntryId) : Prop := ∃ b ∈ w.buckets_.elems, entry ∈ b

end Wheel

/-- `Buckets` of `Framework/game_gate/EntryPtr.h`. -/
structure Buckets extends Wheel where
  interval_ : ℤ

namespace Buckets

/-- The constructor. -/
def make (loop : LoopId) (size : ℕ) (interval : ℤ) : Buckets :=
  ⟨Wheel.make loop size, interval⟩

/-- `Buckets::pop`.  The second component is the delay after which the loop is asked to
call it again. -/
def pop (b : Buckets) : Buckets × ℤ := ({ b with toWheel := b.tick }, b.interval_)

/-- `Buckets::push`. -/
def push (net : Net) (ndebug : Bool) (live : ConnId → Bool) (b : Buckets)
    (entry : Option EntryId) : Option Buckets :=
  (b.touch net ndebug live entry).map fun w => { b with toWheel := w }

/-- `Buckets::update`. -/
def update (net : Net) (ndebug : Bool) (live : ConnId → Bool) (b : Buckets)
    (entry : Option EntryId) : Option Buckets :=
  (b.touch net ndebug live entry).map fun w => { b with toWheel := w }

end Buckets

/-- `ConnBucket` of `thirdpart/https/ApiServer.h`. -/
structure ConnBucket extends Wheel where
  index_ : ℤ

namespace ConnBucket

/-- The constructor. -/
def make (loop : LoopId) (index : ℤ) (size : ℕ) : ConnBucket :=
  ⟨Wheel.make loop size, index⟩

/-- `ConnBucket::onTimer`, with the delay of one second after which it is called again. -/
def onTimer (b : ConnBucket) : ConnBucket × ℤ := ({ b with toWheel := b.tick }, 1)

/-- `ConnBucket::pushBucket`. -/
def pushBucket (net : Net) (ndebug : Bool) (live : ConnId → Bool) (b : ConnBucket)
    (entry : Option EntryId) : Option ConnBucket :=
  (b.touch net ndebug live entry).map fun w => { b with toWheel := w }

/-- `ConnBucket::updateBucket`. -/
def updateBucket (net : Net) (ndebug : Bool) (live : ConnId → Bool) (b : ConnBucket)
    (entry : Option EntryId) : Option ConnBucket :=
  (b.touch net ndebug live entry).map fun w => { b with toWheel := w }

end ConnBucket

/-! ## Runs of a wheel -/

/-- What can happen to a wheel: its three operations (named as in `Buckets`), and the death
of a connection at any moment. -/
inductive Op where
  | pop
  | push (entry : Option EntryId)
  | update (entry : Option EntryId)
  | expire (conn : ConnId)
deriving DecidableEq

/-- A wheel together with the set of connections that are alive. -/
structure World (β : Type) where
  live : ConnId → Bool
  self : β

variable (net : Net) (ndebug : Bool)

/-- One step of a `Buckets` wheel. -/
def Buckets.step (s : World Buckets) : Op → Option (World Buckets)
  | .pop => some { s with self := s.self.pop.1 }
  | .push entry => (s.self.push net ndebug s.live entry).map fun b => { s with self := b }
  | .update entry => (s.self.update net ndebug s.live entry).map fun b => { s with self := b }
  | .expire conn => some { s with live := Function.update s.live conn false }

/-- One step of a `ConnBucket` wheel. -/
def ConnBucket.step (s : World ConnBucket) : Op → Option (World ConnBucket)
  | .pop => some { s with self := s.self.onTimer.1 }
  | .push entry => (s.self.pushBucket net ndebug s.live entry).map fun b => { s with self := b }
  | .update entry =>
      (s.self.updateBucket net ndebug s.live entry).map fun b => { s with self := b }
  | .expire conn => some { s with live := Function.update s.live conn false }

/-- One step of the members that the two wheels share. -/
def Wheel.step (s : World Wheel) : Op → Option (World Wheel)
  | .pop => some { s with self := s.self.tick }
  | .push entry => (s.self.touch net ndebug s.live entry).map fun w => { s with self := w }
  | .update entry => (s.self.touch net ndebug s.live entry).map fun w => { s with self := w }
  | .expire conn => some { s with live := Function.update s.live conn false }

/-- What a wheel shows of itself through the shared members. -/
def World.map {β γ : Type} (f : β → γ) (s : World β) : World γ := ⟨s.live, f s.self⟩

/-- A step of `Buckets` is a step of the shared members. -/
lemma Buckets.step_toWheel (s : World Buckets) (op : Op) :
    (Buckets.step net ndebug s op).map (World.map Buckets.toWheel) =
      Wheel.step net ndebug (s.map Buckets.toWheel) op := by
  cases op with
  | pop => rfl
  | expire conn => rfl
  | push entry | update entry =>
    simp only [Buckets.step, Buckets.push, Buckets.update, Wheel.step, Option.map_map]
    rfl

/-- A step of `ConnBucket` is a step of the shared members. -/
lemma ConnBucket.step_toWheel (s : World ConnBucket) (op : Op) :
    (ConnBucket.step net ndebug s op).map (World.map ConnBucket.toWheel) =
      Wheel.step net ndebug (s.map ConnBucket.toWheel) op := by
  cases op with
  | pop => rfl
  | expire conn => rfl
  | push entry | update entry =>
    simp only [ConnBucket.step, ConnBucket.pushBucket, ConnBucket.updateBucket, Wheel.step,
      Option.map_map]
    rfl

/-! ## The abstract model: one clock for each entry -/

/-- For each entry the number of pops since its last activity, if it has had one. -/
structure Clocks where
  live : ConnId → Bool
  idle : EntryId → Option ℕ

namespace Clocks

/-- Activity of an entry resets its clock when its connection is alive. -/
def touch (k : Clocks) : Option EntryId → Clocks
  | none => k
  | some entry =>
    if k.live (net.weakConn_ entry) then
      { k with idle := Function.update k.idle entry (some 0) }
    else k

/-- One step of the clocks. -/
def step (k : Clocks) : Op → Clocks
  | .pop => { k with idle := fun entry => (k.idle entry).map (· + 1) }
  | .push entry => k.touch net entry
  | .update entry => k.touch net entry
  | .expire conn => { k with live := Function.update k.live conn false }

end Clocks

/-- The wheel has `size` buckets, its newest bucket with a given entry is as old as the
clock of that entry says, and an entry whose clock is below `size` is in that bucket. -/
structure Refines (size : ℕ) (w : World Wheel) (k : Clocks) : Prop where
  live_eq : w.live = k.live
  full : w.self.buckets_.Full
  capacity_eq : w.self.buckets_.capacity = size
  idle_le : ∀ n b entry, w.self.buckets_.fromBack n = some b → entry ∈ b →
    ∃ m ≤ n, k.idle entry = some m
  mem_of_idle : ∀ n entry, k.idle entry = some n → n < size →
    ∃ b, w.self.buckets_.fromBack n = some b ∧ entry ∈ b

namespace Refines

variable {net ndebug} {size : ℕ} {w w' : World Wheel} {k : Clocks}

lemma make (live : ConnId → Bool) (loop_ : LoopId) (size : ℕ) :
    Refines size ⟨live, Wheel.make loop_ size⟩ ⟨live, fun _ => none⟩ where
  live_eq := rfl
  full := CircularBuffer.full_resize_empty size ∅
  capacity_eq := CircularBuffer.capacity_resize_empty size ∅
  idle_le := by
    intro n b entry hb hmem
    have hb' : b ∈ (Wheel.make loop_ size).buckets_.elems :=
      List.mem_reverse.mp (List.mem_of_getElem? hb)
    obtain rfl : b = ∅ := by
      simp only [Wheel.make, CircularBuffer.resize, CircularBuffer.empty, List.take_nil,
        List.nil_append] at hb'
      exact List.eq_of_mem_replicate hb'
    simp at hmem
  mem_of_idle := by
    intro n entry h
    simp at h

lemma tick (h : Refines size w k) (hsize : 1 ≤ size) :
    Refines size { w with self := w.self.tick } (k.step net .pop) where
  live_eq := h.live_eq
  full := h.full.push_back ∅
  capacity_eq := h.capacity_eq
  idle_le := by
    intro n b entry hb hmem
    have hcap := h.capacity_eq
    cases n with
    | zero =>
      rw [Wheel.tick, CircularBuffer.fromBack_push_back_zero h.full (by omega)] at hb
      simp [← Option.some.inj hb] at hmem
    | succ n =>
      have hn : n + 1 < w.self.buckets_.capacity := by
        have hlen := (List.getElem?_eq_some_iff.mp hb).1
        have hfull : w.self.tick.buckets_.elems.length = w.self.buckets_.capacity :=
          h.full.push_back ∅
        simpa [hfull] using hlen
      rw [Wheel.tick, CircularBuffer.fromBack_push_back_succ h.full hn] at hb
      obtain ⟨m, hm, hidle⟩ := h.idle_le n b entry hb hmem
      exact ⟨m + 1, by omega, by simp [Clocks.step, hidle]⟩
  mem_of_idle := by
    intro n entry hidle hn
    simp only [Clocks.step, Option.map_eq_some_iff] at hidle
    obtain ⟨m, hidle, rfl⟩ := hidle
    obtain ⟨b, hb, hmem⟩ := h.mem_of_idle m entry hidle (by omega)
    refine ⟨b, ?_, hmem⟩
    rw [Wheel.tick, CircularBuffer.fromBack_push_back_succ h.full (by rw [h.capacity_eq]; exact hn)]
    exact hb

lemma touch_live (h : Refines size w k) {entry : EntryId}
    (hlive : w.live (net.weakConn_ entry) = true) :
    Refines size { w with self := { w.self with
        buckets_ := w.self.buckets_.modifyBack (insert entry) } }
      (k.touch net (some entry)) := by
  have hk : k.touch net (some entry) =
      { k with idle := Function.update k.idle entry (some 0) } := by
    rw [Clocks.touch, if_pos (by rw [← h.live_eq]; exact hlive)]
  rw [hk]
  refine ⟨h.live_eq, h.full.modifyBack _, h.capacity_eq, ?_, ?_⟩
  · intro n b e hb hmem
    by_cases he : e = entry
    · exact ⟨0, Nat.zero_le n, by simp [he]⟩
    · -- the update adds no other entry to the newest bucket
      have hold : ∃ b', w.self.buckets_.fromBack n = some b' ∧ e ∈ b' := by
        rw [CircularBuffer.fromBack_modifyBack] at hb
        by_cases hn : n = 0
        · subst hn
          rw [if_pos rfl, Option.map_eq_some_iff] at hb
          obtain ⟨b', hb', rfl⟩ := hb
          exact ⟨b', hb', by simpa [he] using hmem⟩
        · rw [if_neg hn] at hb
          exact ⟨b, hb, hmem⟩
      obtain ⟨b', hb', hmem'⟩ := hold
      simpa [Function.update_of_ne he] using h.idle_le n b' e hb' hmem'
  · intro n e hidle hn
    rw [CircularBuffer.fromBack_modifyBack]
    by_cases he : e = entry
    · subst he
      obtain rfl : 0 = n := by simpa using hidle
      obtain ⟨b, hb⟩ := h.full.exists_fromBack (by rw [h.capacity_eq]; exact hn)
      exact ⟨insert e b, by simp [hb], Finset.mem_insert_self e b⟩
    · have hidle' : k.idle e = some n := by simpa [Function.update_of_ne he] using hidle
      obtain ⟨b, hb, hmem⟩ := h.mem_of_idle n e hidle' hn
      by_cases hn0 : n = 0
      · subst hn0
        exact ⟨insert entry b, by simp [hb], Finset.mem_insert_of_mem hmem⟩
      · exact ⟨b, by rw [if_neg hn0]; exact hb, hmem⟩

lemma touch (h : Refines size w k) {entry : Option EntryId} {v : Wheel}
    (hstep : w.self.touch net ndebug w.live entry = some v) :
    Refines size { w with self := v } (k.touch net entry) := by
  cases entry with
  | none =>
    obtain rfl : w.self = v := by simpa [Wheel.touch] using hstep
    exact h
  | some entry =>
    by_cases hlive : w.live (net.weakConn_ entry) = true
    · simp only [Wheel.touch, lock, hlive, if_true, cassert] at hstep
      split at hstep
      · obtain rfl := Option.some.inj hstep
        exact h.touch_live hlive
      · exact absurd hstep (by simp)
    · have hk : k.touch net (some entry) = k := by
        rw [Clocks.touch, if_neg (by rw [← h.live_eq]; exact hlive)]
      obtain rfl : w.self = v := by simpa [Wheel.touch, lock, hlive] using hstep
      rw [hk]
      exact h

/-- One step of the wheel is one step of the clocks. -/
lemma step (h : Refines size w k) (hsize : 1 ≤ size) {op : Op}
    (hstep : Wheel.step net ndebug w op = some w') : Refines size w' (k.step net op) := by
  cases op with
  | pop =>
    obtain rfl := Option.some.inj hstep
    exact h.tick hsize
  | push entry | update entry =>
    obtain ⟨v, hv, rfl⟩ := Option.map_eq_some_iff.mp hstep
    exact h.touch hv
  | expire conn =>
    obtain rfl := Option.some.inj hstep
    refine ⟨?_, h.full, h.capacity_eq, h.idle_le, h.mem_of_idle⟩
    simp only [Clocks.step, h.live_eq]

/-- A whole run of the wheel follows the clocks. -/
lemma run_step (h : Refines size w k) (hsize : 1 ≤ size) {ops : List Op}
    (hrun : run (Wheel.step net ndebug) w ops = some w') :
    Refines size w' (ops.foldl (Clocks.step net) k) := by
  refine run_history (P := fun ops w' => Refines size w' (ops.foldl (Clocks.step net) k)) h ?_ hrun
  intro ops w₁ op w₂ _ ih hstep
  rw [List.foldl_append]
  exact ih.step hsize hstep

/-- The wheel holds an entry exactly while its clock is below the size of the wheel. -/
lemma held_iff (h : Refines size w k) (entry : EntryId) :
    w.self.Held entry ↔ ∃ n < size, k.idle entry = some n := by
  rw [Wheel.Held, CircularBuffer.exists_fromBack_iff h.full, h.capacity_eq]
  constructor
  · rintro ⟨n, hn, b, hb, hmem⟩
    obtain ⟨m, hm, hidle⟩ := h.idle_le n b entry hb hmem
    exact ⟨m, by omega, hidle⟩
  · rintro ⟨n, hn, hidle⟩
    obtain ⟨b, hb, hmem⟩ := h.mem_of_idle n entry hidle hn
    exact ⟨n, hn, b, hb, hmem⟩

end Refines

/-! ## The clocks and the history of the run -/

/-- The number of pops in a list of steps. -/
def pops (ops : List Op) : ℕ := ops.count .pop

/-- After the steps `pre`, the step `op` is a `push` or an `update` of the entry, and the
connection of the entry is alive: it was at the start, and `pre` does not expire it. -/
def Activity (live₀ : ConnId → Bool) (entry : EntryId) (pre : List Op) (op : Op) : Prop :=
  (op = .push (some entry) ∨ op = .update (some entry)) ∧
    live₀ (net.weakConn_ entry) = true ∧ .expire (net.weakConn_ entry) ∉ pre

/-- The clocks before the first step. -/
def Clocks.init (live₀ : ConnId → Bool) : Clocks := ⟨live₀, fun _ => none⟩

section History

variable {net} {live₀ : ConnId → Bool} {ops : List Op} {entry : EntryId}

lemma Clocks.live_touch (k : Clocks) (e : Option EntryId) : (k.touch net e).live = k.live := by
  cases e with
  | none => rfl
  | some e =>
    rw [Clocks.touch]
    split <;> rfl

lemma Clocks.live_foldl (conn : ConnId) :
    (ops.foldl (Clocks.step net) (Clocks.init live₀)).live conn = true ↔
      live₀ conn = true ∧ .expire conn ∉ ops := by
  induction ops using List.reverseRecOn with
  | nil => simp [Clocks.init]
  | append_singleton ops op ih =>
    rw [List.foldl_append, List.mem_append, not_or, ← and_assoc, ← ih]
    cases op with
    | pop => simp [Clocks.step]
    | push e | update e => simp [Clocks.step, Clocks.live_touch]
    | expire c =>
      by_cases hc : conn = c
      · simp [Clocks.step, hc]
      · simp [Clocks.step, hc]

/-- The step resets the clock of the entry: it is an activity of it. -/
lemma Clocks.idle_step_of_activity {op : Op} (h : Activity net live₀ entry ops op) :
    (Clocks.step net (ops.foldl (Clocks.step net) (Clocks.init live₀)) op).idle entry =
      some 0 := by
  obtain ⟨hop, hlive⟩ := h
  have hlive' : (ops.foldl (Clocks.step net) (Clocks.init live₀)).live (net.weakConn_ entry) =
      true := (Clocks.live_foldl _).mpr hlive
  rcases hop with rfl | rfl <;> simp [Clocks.step, Clocks.touch, hlive']

/-- Any other step leaves the clock of the entry alone, or advances it. -/
lemma Clocks.idle_step_of_not_activity {op : Op} (h : ¬ Activity net live₀ entry ops op) :
    (Clocks.step net (ops.foldl (Clocks.step net) (Clocks.init live₀)) op).idle entry =
      ((ops.foldl (Clocks.step net) (Clocks.init live₀)).idle entry).map (· + pops [op]) := by
  set k := ops.foldl (Clocks.step net) (Clocks.init live₀) with hk
  have htouch : ∀ e, (op = .push e ∨ op = .update e) → (k.touch net e).idle entry = k.idle entry := by
    intro e hop
    cases e with
    | none => rfl
    | some e =>
      rw [Clocks.touch]
      split
      · rename_i hlive
        have hne : entry ≠ e := by
          rintro rfl
          exact h ⟨hop, Clocks.live_foldl _ |>.mp hlive⟩
        exact Function.update_of_ne hne _ _
      · rfl
  cases op with
  | pop => simp [Clocks.step, pops]
  | push e => simp [Clocks.step, pops, htouch e (Or.inl rfl)]
  | update e => simp [Clocks.step, pops, htouch e (Or.inr rfl)]
  | expire c => simp [Clocks.step, pops]

/-- The clock of an entry counts the pops since its last activity. -/
lemma Clocks.idle_foldl (n : ℕ) :
    (ops.foldl (Clocks.step net) (Clocks.init live₀)).idle entry = some n ↔
      ∃ pre op post, LastStep (Activity net live₀ entry) ops pre op post ∧ pops post = n := by
  induction ops using List.reverseRecOn generalizing n with
  | nil =>
    constructor
    · intro h
      simp [Clocks.init] at h
    · rintro ⟨pre, op, post, h, -⟩
      exact absurd h not_lastStep_nil
  | append_singleton ops op ih =>
    rw [List.foldl_append, List.foldl_cons, List.foldl_nil]
    by_cases hop : Activity net live₀ entry ops op
    · rw [Clocks.idle_step_of_activity hop]
      simp [lastStep_snoc_of_holds hop, pops]
    · rw [Clocks.idle_step_of_not_activity hop, Option.map_eq_some_iff]
      simp only [ih, lastStep_snoc_of_not hop]
      constructor
      · rintro ⟨m, ⟨pre, op', post, h, rfl⟩, rfl⟩
        exact ⟨pre, op', post ++ [op], ⟨post, rfl, h⟩, by simp [pops, List.count_append]⟩
      · rintro ⟨pre, op', -, ⟨post, rfl, h⟩, rfl⟩
        exact ⟨pops post, ⟨pre, op', post, h, rfl⟩, by simp [pops, List.count_append]⟩

end History

/-! ## When the wheel lets an entry go -/

section Main

variable {net ndebug} {live₀ : ConnId → Bool} {loop : LoopId} {size : ℕ} {ops : List Op}
  {w w' : World Wheel}

lemma Wheel.size_of_run (hsize : 1 ≤ size)
    (hrun : run (Wheel.step net ndebug) ⟨live₀, Wheel.make loop size⟩ ops = some w) :
    w.self.buckets_.size = size := by
  have href := (Refines.make live₀ loop size).run_step hsize hrun
  exact href.full.trans href.capacity_eq

/-- An entry is on the wheel while fewer than `size` pops have followed its last activity. -/
lemma Wheel.held_of_run (hsize : 1 ≤ size)
    (hrun : run (Wheel.step net ndebug) ⟨live₀, Wheel.make loop size⟩ ops = some w)
    (entry : EntryId) :
    w.self.Held entry ↔ ∃ pre op post,
      LastStep (Activity net live₀ entry) ops pre op post ∧ pops post < size := by
  have href := (Refines.make live₀ loop size).run_step hsize hrun
  rw [href.held_iff entry]
  constructor
  · rintro ⟨n, hn, hidle⟩
    obtain ⟨pre, op, post, hlast, rfl⟩ := (Clocks.idle_foldl n).mp hidle
    exact ⟨pre, op, post, hlast, hn⟩
  · rintro ⟨pre, op, post, hlast, hn⟩
    exact ⟨pops post, hn, (Clocks.idle_foldl _).mpr ⟨pre, op, post, hlast, rfl⟩⟩

/-- The step that takes an entry off the wheel is the `size`-th pop after its last
activity. -/
lemma Wheel.released_of_run (hsize : 1 ≤ size)
    (hrun : run (Wheel.step net ndebug) ⟨live₀, Wheel.make loop size⟩ ops = some w) {op : Op}
    (hstep : Wheel.step net ndebug w op = some w') (entry : EntryId) :
    (w.self.Held entry ∧ ¬ w'.self.Held entry) ↔ op = .pop ∧ ∃ pre a post,
      LastStep (Activity net live₀ entry) ops pre a post ∧ pops (post ++ [op]) = size := by
  have hrun' : run (Wheel.step net ndebug) ⟨live₀, Wheel.make loop size⟩ (ops ++ [op]) = some w' :=
    run_snoc_eq_some.mpr ⟨w, hrun, hstep⟩
  rw [Wheel.held_of_run hsize hrun, Wheel.held_of_run hsize hrun']
  constructor
  · rintro ⟨⟨pre, a, post, hlast, hlt⟩, hnot⟩
    have hop : ¬ Activity net live₀ entry ops op := fun hact =>
      hnot ⟨ops, op, [], (lastStep_snoc_of_holds hact).mpr ⟨rfl, rfl, rfl⟩, hsize⟩
    have hge : size ≤ pops (post ++ [op]) := by
      by_contra hlt'
      exact hnot ⟨pre, a, post ++ [op], (lastStep_snoc_of_not hop).mpr ⟨post, rfl, hlast⟩,
        by omega⟩
    -- a single step adds at most one pop, and only a pop adds one
    have hpops : pops (post ++ [op]) = pops post + pops [op] := List.count_append
    have hone : pops [op] = if op = .pop then 1 else 0 := by
      simp only [pops, List.count_singleton, beq_iff_eq]
    by_cases hpop : op = .pop
    · rw [if_pos hpop] at hone
      exact ⟨hpop, pre, a, post, hlast, by omega⟩
    · rw [if_neg hpop] at hone
      omega
  · rintro ⟨rfl, pre, a, post, hlast, heq⟩
    have hpops : pops (post ++ [.pop]) = pops post + 1 := by simp [pops, List.count_append]
    refine ⟨⟨pre, a, post, hlast, by omega⟩, ?_⟩
    have hop : ¬ Activity net live₀ entry ops .pop := by
      rintro ⟨h | h, -⟩ <;> exact absurd h (by simp)
    rintro ⟨pre', a', post', hlast', hlt⟩
    obtain ⟨post'', rfl, hlast''⟩ := (lastStep_snoc_of_not hop).mp hlast'
    obtain ⟨-, -, rfl⟩ := hlast.unique hlast''
    omega

/-- A null entry, or one whose connection is gone, changes nothing. -/
lemma Wheel.touch_eq_self (v : Wheel) (live : ConnId → Bool) {entry : Option EntryId}
    (h : ∀ e, entry = some e → live (net.weakConn_ e) = false) :
    v.touch net ndebug live entry = some v := by
  cases entry with
  | none => rfl
  | some e => simp [Wheel.touch, lock, h e rfl]

/-- No step changes the loop of the wheel. -/
lemma Wheel.loop_of_run
    (hrun : run (Wheel.step net ndebug) ⟨live₀, Wheel.make loop size⟩ ops = some w) :
    w.self.loop_ = loop := by
  refine run_invariant (I := fun w : World Wheel => w.self.loop_ = loop) ?_ rfl hrun
  intro w₁ op w₂ hloop hstep
  have htouch : ∀ entry v, w₁.self.touch net ndebug w₁.live entry = some v →
      v.loop_ = w₁.self.loop_ := by
    intro entry v hv
    cases entry with
    | none =>
      obtain rfl := Option.some.inj hv
      rfl
    | some e =>
      rw [Wheel.touch] at hv
      split at hv
      · obtain rfl := Option.some.inj hv
        rfl
      · obtain ⟨-, -, hv⟩ := Option.bind_eq_some_iff.mp hv
        obtain rfl := Option.some.inj hv
        rfl
  cases op with
  | pop | expire conn =>
    obtain rfl := Option.some.inj hstep
    exact hloop
  | push entry | update entry =>
    obtain ⟨v, hv, rfl⟩ := Option.map_eq_some_iff.mp hstep
    exact (htouch entry v hv).trans hloop

/-- No assertion fails when every connection belongs to the loop of the wheel, or when the
assertions are compiled away. -/
lemma Wheel.step_isSome (h : ndebug = true ∨ ∀ conn, net.getLoop conn = w.self.loop_) (op : Op) :
    (Wheel.step net ndebug w op).isSome := by
  have htouch : ∀ entry, (w.self.touch net ndebug w.live entry).isSome := by
    intro entry
    cases entry with
    | none => rfl
    | some e =>
      by_cases hlive : w.live (net.weakConn_ e) = true
      · have hassert : ndebug = true ∨ net.getLoop (net.weakConn_ e) = w.self.loop_ :=
          h.imp_right fun hloop => hloop _
        simp [Wheel.touch, lock, hlive, cassert, hassert]
      · simp [Wheel.touch, lock, hlive]
  cases op with
  | pop => rfl
  | expire conn => rfl
  | push entry | update entry => simpa only [Wheel.step, Option.isSome_map] using htouch entry

end Main

/-- How a wheel of `size` buckets is seen to behave after the steps `ops`: `step` is its step
function and `wheel` gives its shared members. -/
structure Releases {β : Type} (wheel : β → Wheel) (step : World β → Op → Option (World β))
    (net : Net) (ndebug : Bool) (loop : LoopId) (size : ℕ) (live₀ : ConnId → Bool)
    (ops : List Op) (s : World β) : Prop where
  /-- It has `size` buckets. -/
  size_eq : (wheel s.self).buckets_.size = size
  /-- It holds an entry exactly while fewer than `size` pops have followed the last `push` or
  `update` of that entry with a live connection. -/
  held_iff : ∀ entry, (wheel s.self).Held entry ↔ ∃ pre op post,
    LastStep (Activity net live₀ entry) ops pre op post ∧ pops post < size
  /-- The step that takes an entry off the wheel is the `size`-th pop after that. -/
  released_iff : ∀ op s', step s op = some s' → ∀ entry,
    ((wheel s.self).Held entry ∧ ¬ (wheel s'.self).Held entry) ↔ op = .pop ∧ ∃ pre a post,
      LastStep (Activity net live₀ entry) ops pre a post ∧ pops (post ++ [op]) = size
  /-- A `push` or an `update` with a null entry or an expired connection changes nothing. -/
  unchanged : ∀ entry, (∀ e, entry = some e → s.live (net.weakConn_ e) = false) →
    step s (.push entry) = some s ∧ step s (.update entry) = some s
  /-- Every step can follow, as long as the connections belong to the loop of the wheel. -/
  progress : (ndebug = true ∨ ∀ conn, net.getLoop conn = loop) → ∀ op, (step s op).isSome

/-- A wheel whose steps are those of the shared members releases its entries as they do. -/
lemma releases_of_simulates {β : Type} {wheel : β → Wheel}
    {step : World β → Op → Option (World β)} {net : Net} {ndebug : Bool} {loop : LoopId}
    {size : ℕ} {live₀ : ConnId → Bool} {ops : List Op} {s₀ s : World β}
    (hsim : ∀ s op, (step s op).map (World.map wheel) = Wheel.step net ndebug (s.map wheel) op)
    (hsame : ∀ s entry, (wheel s.self).touch net ndebug s.live entry = some (wheel s.self) →
      step s (.push entry) = some s ∧ step s (.update entry) = some s)
    (hmake : s₀.map wheel = ⟨live₀, Wheel.make loop size⟩) (hsize : 1 ≤ size)
    (hrun : run step s₀ ops = some s) : Releases wheel step net ndebug loop size live₀ ops s := by
  have hwheel : run (Wheel.step net ndebug) ⟨live₀, Wheel.make loop size⟩ ops =
      some (s.map wheel) := by
    have hmap := run_map (World.map wheel) id hsim s₀ ops
    rw [hrun, hmake, List.map_id] at hmap
    exact hmap.symm
  refine ⟨Wheel.size_of_run hsize hwheel, Wheel.held_of_run hsize hwheel, ?_, ?_, ?_⟩
  · intro op s' hstep entry
    have hstep' := hsim s op
    rw [hstep] at hstep'
    exact Wheel.released_of_run hsize hwheel hstep'.symm entry
  · intro entry hentry
    exact hsame s entry (Wheel.touch_eq_self (wheel s.self) s.live hentry)
  · intro hloop op
    have hsome : (Wheel.step net ndebug (s.map wheel) op).isSome :=
      Wheel.step_isSome (by rw [Wheel.loop_of_run hwheel]; exact hloop) op
    rwa [← hsim s op, Option.isSome_map] at hsome

/-- **The idle-connection wheels.**  In every run of a `Buckets` wheel, and of a `ConnBucket`
wheel, of size at least one, an entry is released by the `size`-th pop after its last
activity. -/
theorem buckets_release_after_size_pops (net : Net) (ndebug : Bool) (loop : LoopId) (size : ℕ)
    (interval index : ℤ) (hsize : 1 ≤ size) (live₀ : ConnId → Bool) (ops : List Op) :
    (∀ s, run (Buckets.step net ndebug) ⟨live₀, Buckets.make loop size interval⟩ ops = some s →
      Releases Buckets.toWheel (Buckets.step net ndebug) net ndebug loop size live₀ ops s) ∧
    (∀ s, run (ConnBucket.step net ndebug) ⟨live₀, ConnBucket.make loop index size⟩ ops =
        some s →
      Releases ConnBucket.toWheel (ConnBucket.step net ndebug) net ndebug loop size live₀ ops
        s) := by
  constructor
  · intro s hrun
    refine releases_of_simulates (Buckets.step_toWheel net ndebug) ?_ rfl hsize hrun
    intro s entry htouch
    simp [Buckets.step, Buckets.push, Buckets.update, htouch]
  · intro s hrun
    refine releases_of_simulates (ConnBucket.step_toWheel net ndebug) ?_ rfl hsize hrun
    intro s entry htouch
    simp [ConnBucket.step, ConnBucket.pushBucket, ConnBucket.updateBucket, htouch]

/-- A wheel of two buckets: the entry pushed at the start and updated after one pop is still
there after the second. -/
theorem buckets_of_size_two_after_two_pops :
    ∃ s, run (Buckets.step ⟨id, fun _ => 0⟩ false) ⟨fun _ => true, Buckets.make 0 2 10⟩
        [.push (some 7), .pop, .update (some 7), .pop] = some s ∧ s.self.Held 7 := by
  refine ⟨_, rfl, ?_⟩
  refine (((buckets_release_after_size_pops ⟨id, fun _ => 0⟩ false 0 2 10 0 (by decide)
    (fun _ => true) [.push (some 7), .pop, .update (some 7), .pop]).1 _ rfl).held_iff 7).mpr ?_
  have hupdate : Activity ⟨id, fun _ => 0⟩ (fun _ => true) 7 [.push (some 7), .pop]
      (.update (some 7)) := ⟨Or.inr rfl, rfl, by simp⟩
  have hpop : ¬ Activity ⟨id, fun _ => 0⟩ (fun _ => true) 7
      [.push (some 7), .pop, .update (some 7)] .pop := by simp [Activity]
  exact ⟨_, _, _, (lastStep_snoc_of_not hpop).mpr
    ⟨[], rfl, (lastStep_snoc_of_holds hupdate).mpr ⟨rfl, rfl, rfl⟩⟩, by decide⟩

end CppServer.Gate
