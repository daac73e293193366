/-
# Sessions and broadcasts of the gate

The gate keeps two maps of weak pointers: `STR::Entities` from the session of a connection to
the connection, and `INT::Entities` from a user to the connection of the user's latest login.
Both can `broadcast` a buffer: a loop over the map that locks every pointer and sends the
readable bytes to those that are alive.

The maps are ordered, so what a broadcast sends is determined by the history of the map: every
key whose connection is still registered and alive gets the bytes once, in the order of the
keys.
-/
import Mathlib.Data.List.Lex
import CppServer.Gate.Entities
import CppServer.Lib.OrderedMap
import CppServer.Net.Buffer

namespace CppServer.Gate

namespace KeyOrder

/-- The order of the bytes of a string, which is that of `memcmp`. -/
scoped instance byteOrder : LinearOrder UInt8 where
  le_refl := UInt8.le_refl
  le_trans _ _ _ := UInt8.le_trans
  lt_iff_le_not_ge a b := by
    rw [UInt8.not_le]
    exact ⟨fun h => ⟨UInt8.le_of_lt h, h⟩, And.right⟩
  le_antisymm _ _ := UInt8.le_antisymm
  le_total := UInt8.le_total
  toDecidableLE := inferInstance

/-- The order of the user ids. -/
scoped instance userIdOrder : LinearOrder Int64 where
  le_refl := Int64.le_refl
  le_trans _ _ _ := Int64.le_trans
  lt_iff_le_not_ge a b := by
    rw [Int64.not_le]
    exact ⟨fun h => ⟨Int64.le_of_lt h, h⟩, And.right⟩
  le_antisymm _ _ := Int64.le_antisymm
  le_total := Int64.le_total
  toDecidableLE := inferInstance

end KeyOrder

open KeyOrder

section Broadcast

variable {κ : Type}

/-- The loop of `broadcast`: each connection to which bytes are sent, with the bytes.  The
pointer `buf` is dereferenced only where a connection is alive. -/
def sendAll (live : ConnId → Bool) (buf : Option Net.Buffer) :
    List (κ × ConnId) → Option (List (ConnId × Bytes))
  | [] => some []
  | it :: rest =>
    match lock live it.2 with
    | none => sendAll live buf rest
    | some peer => do
      let b ← buf
      let data ← (b.peek b.readableBytes).toOption
      let sent ← sendAll live buf rest
      return (peer, data) :: sent

/-- `broadcast(buf)` of both classes. -/
def broadcast [LinearOrder κ] (ndebug : Bool) (live : ConnId → Bool) (peers_ : OrderedMap κ ConnId)
    (buf : Option Net.Buffer) : Option (List (ConnId × Bytes)) := do
  cassert ndebug (buf ≠ none)
  sendAll live buf peers_.entries

/-- The entries whose connections are alive. -/
def liveEntries [LinearOrder κ] (live : ConnId → Bool) (peers_ : OrderedMap κ ConnId) : List (κ × ConnId) :=
  peers_.entries.filter fun it => live it.2

variable {live : ConnId → Bool} {b : Net.Buffer}

lemma sendAll_eq (h : b.Valid) (es : List (κ × ConnId)) :
    sendAll live (some b) es =
      some ((es.filter fun it => live it.2).map fun it => (it.2, b.contents)) := by
  have hpeek : (b.peek b.readableBytes).toOption = some b.contents := by
    rw [Net.Buffer.readableBytes_eq h, Net.Buffer.peek_ok h (Nat.le_refl _), List.take_length]
    rfl
  induction es with
  | nil => rfl
  | cons it es ih =>
    rw [sendAll]
    cases hlive : live it.2 with
    | false => simp [lock, hlive, ih]
    | true => simp [lock, hlive, ih, hpeek]

/-- Without a buffer the loop stops at the first connection that is alive. -/
lemma sendAll_none (es : List (κ × ConnId)) :
    sendAll live none es = if (es.filter fun it => live it.2).isEmpty then some [] else none := by
  induction es with
  | nil => rfl
  | cons it es ih =>
    rw [sendAll]
    cases hlive : live it.2 with
    | false =>
      rw [List.filter_cons_of_neg (by simp [hlive]), ← ih]
      simp [lock, hlive]
    | true =>
      rw [List.filter_cons_of_pos (by simp [hlive])]
      simp [lock, hlive]

variable [LinearOrder κ] {peers_ : OrderedMap κ ConnId}

lemma broadcast_eq (h : b.Valid) (ndebug : Bool) :
    broadcast ndebug live peers_ (some b) =
      some ((liveEntries live peers_).map fun it => (it.2, b.contents)) := by
  have hassert : cassert ndebug (some b ≠ none) = some () := by simp [cassert]
  rw [broadcast, hassert]
  exact sendAll_eq h _

lemma mem_liveEntries {k : κ} {c : ConnId} :
    (k, c) ∈ liveEntries live peers_ ↔ peers_.find k = some c ∧ live c = true := by
  rw [liveEntries, List.mem_filter, OrderedMap.find_eq_some_iff]

lemma liveEntries_ascending : (liveEntries live peers_).Pairwise fun it it' => it.1 < it'.1 :=
  peers_.ascending.filter _

/-- A broadcast without a buffer stops, or nobody is there to be sent to. -/
lemma broadcast_none (ndebug : Bool) :
    broadcast ndebug live peers_ none =
      if ndebug && (liveEntries live peers_).isEmpty then some [] else none := by
  cases ndebug with
  | false => simp [broadcast, cassert]
  | true =>
    rw [Bool.true_and, liveEntries, ← sendAll_none]
    simp [broadcast, cassert]

end Broadcast

/-! ## The map of the sessions -/

namespace STR

/-- `STR::Entities`. -/
structure Entities where
  peers_ : OrderedMap Bytes ConnId

namespace Entities

/-- `Entities::add`.  The search and its assertion are compiled without `NDEBUG` only. -/
def add (ndebug : Bool) (s : Entities) (session : Bytes) (weakConn : ConnId) : Option Entities := do
  cassert ndebug (s.peers_.find session = none)
  return ⟨s.peers_.set session weakConn⟩

/-- `Entities::get`. -/
def get (s : Entities) (session : Bytes) : Option ConnId := s.peers_.find session

/-- `Entities::remove`. -/
def remove (s : Entities) (session : Bytes) : Entities :=
  match s.peers_.find session with
  | some _ => ⟨s.peers_.erase session⟩
  | none => s

end Entities

/-- The atomic steps: the operations under the write lock, and the death of a connection. -/
inductive Op where
  | add (session : Bytes) (conn : ConnId)
  | remove (session : Bytes)
  | expire (conn : ConnId)
deriving DecidableEq

/-- The live connections and the map. -/
structure State where
  live : ConnId → Bool
  entities : Entities

variable (ndebug : Bool)

/-- One operation; a failed assertion stops. -/
def step (s : State) : Op → Option State
  | .add session c => (s.entities.add ndebug session c).map fun e => { s with entities := e }
  | .remove session => some { s with entities := s.entities.remove session }
  | .expire c => some { s with live := Function.update s.live c false }

/-- The state before the first connection. -/
def State.init (live₀ : ConnId → Bool) : State := ⟨live₀, ⟨OrderedMap.empty⟩⟩

/-- The step is about the session. -/
def Touches (session : Bytes) (_pre : List Op) (op : Op) : Prop :=
  (∃ c, op = .add session c) ∨ op = .remove session

/-- What a step leaves under a session. -/
def entryAfter (old : Option ConnId) (session : Bytes) : Op → Option ConnId
  | .add session' c => if session = session' then some c else old
  | .remove session' => if session = session' then none else old
  | .expire _ => old

section Runs

variable {ndebug} {s s' : State} {op : Op} {ops : List Op} {live₀ : ConnId → Bool}

lemma find_step (hstep : step ndebug s op = some s') (session : Bytes) :
    s'.entities.peers_.find session = entryAfter (s.entities.peers_.find session) session op := by
  cases op with
  | add session' c =>
    simp only [step, Entities.add, Option.map_eq_some_iff, Option.bind_eq_bind,
      Option.bind_eq_some_iff] at hstep
    obtain ⟨e, ⟨-, -, he⟩, rfl⟩ := hstep
    obtain rfl := Option.some.inj he
    simp [entryAfter]
  | remove session' =>
    obtain rfl := Option.some.inj hstep
    cases hfind : s.entities.peers_.find session' with
    | some c => simp [Entities.remove, hfind, entryAfter]
    | none =>
      by_cases heq : session = session'
      · simp [Entities.remove, hfind, entryAfter, heq]
      · simp [Entities.remove, hfind, entryAfter, heq]
  | expire c =>
    obtain rfl := Option.some.inj hstep
    rfl

lemma step_eq_none_iff : step ndebug s op = none ↔
    ndebug = false ∧ ∃ session c c', op = .add session c ∧
      s.entities.peers_.find session = some c' := by
  cases op with
  | remove session | expire c => simp [step]
  | add session c =>
    cases hfind : s.entities.peers_.find session with
    | none => simp [step, Entities.add, cassert, hfind]
    | some c' => cases ndebug <;> simp [step, Entities.add, cassert, hfind]

lemma live_step (hstep : step ndebug s op = some s') (c : ConnId) :
    s'.live c = true ↔ s.live c = true ∧ op ≠ .expire c := by
  cases op with
  | add session c' =>
    simp only [step, Option.map_eq_some_iff] at hstep
    obtain ⟨e, -, rfl⟩ := hstep
    simp
  | remove session =>
    obtain rfl := Option.some.inj hstep
    simp
  | expire c' =>
    obtain rfl := Option.some.inj hstep
    by_cases hc : c = c'
    · simp [hc]
    · simp [hc, Ne.symm hc]

/-- The connections that are alive are those that did not die. -/
lemma live_of_run (hrun : run (step ndebug) (State.init live₀) ops = some s) (c : ConnId) :
    s.live c = true ↔ live₀ c = true ∧ Op.expire c ∉ ops := by
  refine run_history (P := fun ops s => s.live c = true ↔ live₀ c = true ∧ Op.expire c ∉ ops)
    (by simp [State.init]) ?_ hrun
  intro ops s₁ op s₂ _ ih hstep
  rw [live_step hstep, ih, List.mem_append, List.mem_singleton, not_or, and_assoc, ne_comm]

/-- A session is registered exactly if the last step about it is an `add`. -/
lemma find_of_run (hrun : run (step ndebug) (State.init live₀) ops = some s) (session : Bytes)
    (c : ConnId) : s.entities.peers_.find session = some c ↔
      ∃ pre post, LastStep (Touches session) ops pre (.add session c) post := by
  refine run_history (P := fun ops s => s.entities.peers_.find session = some c ↔
    ∃ pre post, LastStep (Touches session) ops pre (.add session c) post) ?_ ?_ hrun
  · constructor
    · intro h
      exact absurd h (by simp [State.init])
    · rintro ⟨pre, post, h⟩
      exact absurd h not_lastStep_nil
  · intro ops s₁ op s₂ _ ih hstep
    rw [find_step hstep]
    by_cases htouch : Touches session ops op
    · simp only [lastStep_snoc_of_holds htouch]
      rcases htouch with ⟨c', rfl⟩ | rfl
      · simp [entryAfter, eq_comm]
      · simp [entryAfter]
    · have hkeep : entryAfter (s₁.entities.peers_.find session) session op =
          s₁.entities.peers_.find session := by
        cases op with
        | add session' c' =>
          exact if_neg fun h => htouch (.inl ⟨c', by rw [h]⟩)
        | remove session' => exact if_neg fun h => htouch (.inr (by rw [h]))
        | expire c' => rfl
      rw [hkeep, ih]
      simp only [lastStep_snoc_of_not htouch]
      constructor
      · rintro ⟨pre, post, h⟩
        exact ⟨pre, post ++ [op], post, rfl, h⟩
      · rintro ⟨pre, -, post, rfl, h⟩
        exact ⟨pre, post, h⟩

end Runs

/-- **Sessions and broadcasts over every run.**  In every run of the map of the sessions:
* a session finds `c` exactly if the last step about the session added it with `c`;
* a step stops only at the assertion of `add`, and exactly if the last step about the session
  added it;
* a broadcast of a well-formed buffer sends its contents along a list of entries with ascending
  sessions, and the entries are those whose last step added them and whose connection did not
  die. -/
theorem sessions_of_run (ndebug : Bool) (live₀ : ConnId → Bool) (ops : List Op) (s : State)
    (hrun : run (step ndebug) (State.init live₀) ops = some s) :
    (∀ session c, s.entities.get session = some c ↔
      ∃ pre post, LastStep (Touches session) ops pre (.add session c) post) ∧
    (∀ op, step ndebug s op = none ↔ ndebug = false ∧ ∃ session c c' pre post,
      op = .add session c ∧ LastStep (Touches session) ops pre (.add session c') post) ∧
    (∀ b : Net.Buffer, b.Valid → ∃ recipients : List (Bytes × ConnId),
      broadcast ndebug s.live s.entities.peers_ (some b) =
        some (recipients.map fun it => (it.2, b.contents)) ∧
      (recipients.Pairwise fun it it' => it.1 < it'.1) ∧
      ∀ session c, (session, c) ∈ recipients ↔
        (∃ pre post, LastStep (Touches session) ops pre (.add session c) post) ∧
          live₀ c = true ∧ Op.expire c ∉ ops) := by
  refine ⟨find_of_run hrun, fun op => ?_, fun b hb => ?_⟩
  · rw [step_eq_none_iff]
    simp only [find_of_run hrun]
    constructor
    · rintro ⟨hdebug, session, c, c', hop, pre, post, h⟩
      exact ⟨hdebug, session, c, c', pre, post, hop, h⟩
    · rintro ⟨hdebug, session, c, c', pre, post, hop, h⟩
      exact ⟨hdebug, session, c, c', hop, pre, post, h⟩
  · refine ⟨liveEntries s.live s.entities.peers_, broadcast_eq hb ndebug, liveEntries_ascending, ?_⟩
    intro session c
    rw [mem_liveEntries, find_of_run hrun, live_of_run hrun]

/-- Two sessions are added and the connection of the first dies: a broadcast does not send to
it. -/
theorem sessions_of_run_expired : ∃ s, run (step false) (State.init fun _ => true)
      [.add [1] 1, .add [2] 2, .expire 1] = some s ∧
    ∃ recipients : List (Bytes × ConnId),
      broadcast false s.live s.entities.peers_ (some (Net.Buffer.fresh 4)) =
        some (recipients.map fun it => (it.2, (Net.Buffer.fresh 4).contents)) ∧
      ∀ session, (session, 1) ∉ recipients := by
  have hvalid : (Net.Buffer.fresh 4).Valid := (Net.Buffer.result_fresh (by decide)).valid
  refine ⟨_, rfl, ?_⟩
  obtain ⟨recipients, hsend, -, hmem⟩ := (sessions_of_run false (fun _ => true)
    [.add [1] 1, .add [2] 2, .expire 1] _ rfl).2.2 (Net.Buffer.fresh 4) hvalid
  refine ⟨recipients, hsend, fun session hin => ?_⟩
  exact ((hmem session 1).mp hin).2.2 (by simp)

end STR

/-! ## Broadcasts to the users -/

namespace INT

section Broadcast

variable {getSession : ConnId → Session} {ndebug : Bool} {live₀ : ConnId → Bool} {ops : List Op}
  {s s' : State} {op : Op}

/-- A step can be followed on an ordered map: it changes the entry of one user. -/
lemma exists_map_step {m : OrderedMap UserId ConnId}
    (hm : ∀ u, m.find u = s.entities.peers_ u) (hstep : step getSession ndebug s op = some s') :
    ∃ m' : OrderedMap UserId ConnId, ∀ u, m'.find u = s'.entities.peers_ u := by
  cases hop : op.user with
  | none =>
    refine ⟨m, fun u => ?_⟩
    rw [hm, peers_step_other hstep (by simp [hop])]
  | some v =>
    have hother : ∀ u, u ≠ v → s'.entities.peers_ u = s.entities.peers_ u := fun u hu =>
      peers_step_other hstep (by simpa [hop] using Ne.symm hu)
    cases hv : s'.entities.peers_ v with
    | none =>
      refine ⟨m.erase v, fun u => ?_⟩
      by_cases hu : u = v
      · simp [hu, hv]
      · simp [hu, hm, hother u hu]
    | some c =>
      refine ⟨m.set v c, fun u => ?_⟩
      by_cases hu : u = v
      · simp [hu, hv]
      · simp [hu, hm, hother u hu]

/-- The user map of a run is an ordered map. -/
lemma exists_map_of_run (hrun : run (step getSession ndebug) (State.init live₀) ops = some s) :
    ∃ m : OrderedMap UserId ConnId, ∀ u, m.find u = s.entities.peers_ u := by
  refine run_invariant (I := fun s => ∃ m : OrderedMap UserId ConnId,
    ∀ u, m.find u = s.entities.peers_ u) ?_ ⟨OrderedMap.empty, fun u => rfl⟩ hrun
  rintro s₁ op s₂ ⟨m, hm⟩ hstep
  exact exists_map_step hm hstep

end Broadcast

/-- **A broadcast reaches the latest logins.**  Behind every run of the user map, over every
ordered map with the entries of the run, a broadcast of a well-formed buffer sends its contents
along a list of entries with ascending users.  A user is in the list with `c` exactly if `c` is
the user's latest login, no later removal evicted it, and `c` is alive. -/
theorem broadcast_reaches_latest_logins (getSession : ConnId → Session) (ndebug : Bool)
    (live₀ : ConnId → Bool) (ops : List Op) (s : State)
    (hrun : run (step getSession ndebug) (State.init live₀) ops = some s) :
    (∃ m : OrderedMap UserId ConnId, ∀ u, m.find u = s.entities.peers_ u) ∧
    ∀ m : OrderedMap UserId ConnId, (∀ u, m.find u = s.entities.peers_ u) →
      ∀ b : Net.Buffer, b.Valid → ∃ recipients : List (UserId × ConnId),
        broadcast ndebug s.live m (some b) = some (recipients.map fun it => (it.2, b.contents)) ∧
        (recipients.Pairwise fun it it' => it.1 < it'.1) ∧
        ∀ u c, (u, c) ∈ recipients ↔
          (∃ pre post, LastStep (IsAdd u) ops pre (.add u c) post ∧
            NotEvicted getSession live₀ u c pre post) ∧ liveAfter live₀ ops c = true := by
  refine ⟨exists_map_of_run hrun, fun m hm b hb => ?_⟩
  refine ⟨liveEntries s.live m, broadcast_eq hb ndebug, liveEntries_ascending, fun u c => ?_⟩
  rw [mem_liveEntries, hm, peers_of_run hrun, live_of_run hrun]

/-- User 5 logs in twice: a broadcast does not send to the first connection, which is alive. -/
theorem broadcast_reaches_second_login :
    ∃ s, run (step (fun c => List.replicate c 0) false) (State.init fun _ => true)
        [.add 5 1, .add 5 2] = some s ∧
      ∃ (m : OrderedMap UserId ConnId) (recipients : List (UserId × ConnId)),
        broadcast false s.live m (some (Net.Buffer.fresh 4)) =
          some (recipients.map fun it => (it.2, (Net.Buffer.fresh 4).contents)) ∧
        (5, 1) ∉ recipients := by
  have hvalid : (Net.Buffer.fresh 4).Valid := (Net.Buffer.result_fresh (by decide)).valid
  refine ⟨_, rfl, ?_⟩
  obtain ⟨⟨m, hm⟩, hall⟩ := broadcast_reaches_latest_logins (fun c => List.replicate c 0) false
    (fun _ => true) [.add 5 1, .add 5 2] _ rfl
  obtain ⟨recipients, hsend, -, hmem⟩ := hall m hm (Net.Buffer.fresh 4) hvalid
  refine ⟨m, recipients, hsend, fun hin => ?_⟩
  -- the first login is not the last one
  obtain ⟨⟨pre, post, hlast, -⟩, -⟩ := (hmem 5 1).mp hin
  have hsecond : IsAdd 5 [.add 5 1] (.add 5 2) := ⟨2, rfl⟩
  obtain ⟨-, hop, -⟩ := (lastStep_snoc_of_holds hsecond).mp hlast
  exact absurd hop (by decide)

end INT

end CppServer.Gate
