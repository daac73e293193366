/-
# The gate's user map

`INT::Entities` of `Framework/game_gate/Entities.h` maps each user id to a weak pointer to
the connection of the user's latest login.  A new login replaces the entry and hands back
the old pointer, so that the caller can kick the old connection; the connection that goes
away later removes its entry, either by its pointer or by its session string, and both
removals check first that the entry is still its own.  Every operation holds the write lock
of the map, so a run is any interleaving of whole operations with connections that die.

The map is related to the whole history of the run: `peers_[u]` is the connection of the
latest `add` for `u` unless a removal after it has evicted that very connection.
-/
import Mathlib.Tactic.Common
import CppServer.Gate.Buckets
import CppServer.Lib.Bytes

namespace CppServer.Gate.INT

/-- `int64_t userid`. -/
abbrev UserId := Int64

/-- A session string. -/
abbrev Session := Bytes

/-- `std::map<int64_t, WeakTcpConnectionPtr>`. -/
abbrev WeakConnMap := UserId → Option ConnId

/-- `INT::Entities`. -/
structure Entities where
  peers_ : WeakConnMap

namespace Entities

/-- `peers_.erase(it)` for the iterator at `userid`. -/
def erase (s : Entities) (userid : UserId) : Entities :=
  ⟨Function.update s.peers_ userid none⟩

/-- `Entities::add`, with the old weak pointer that it returns (`none` is the empty one). -/
def add (s : Entities) (userid : UserId) (weakConn : ConnId) : Entities × Option ConnId :=
  match s.peers_ userid with
  | some it => (⟨Function.update (s.erase userid).peers_ userid (some weakConn)⟩, some it)
  | none => (⟨Function.update s.peers_ userid (some weakConn)⟩, none)

/-- `Entities::get`. -/
def get (s : Entities) (userid : UserId) : Option ConnId := s.peers_ userid

/-- `Entities::remove(userid, conn)`. -/
def removeConn (ndebug : Bool) (live : ConnId → Bool) (s : Entities) (userid : UserId)
    (conn : Option ConnId) : Option Entities :=
  match s.peers_ userid with
  | none => some s
  | some it => do
    let peer := lock live it
    cassert ndebug (peer ≠ none)
    if peer = conn then return s.erase userid else return s

/-- `Entities::remove(userid, session)`.  The session of a peer is the one in its
`Context`. -/
def removeSession (getSession : ConnId → Session) (live : ConnId → Bool) (s : Entities)
    (userid : UserId) (session : Session) : Entities :=
  match s.peers_ userid with
  | none => s
  | some it =>
    match lock live it with
    | some peer => if getSession peer = session then s.erase userid else s
    | none => s.erase userid

@[simp] lemma erase_peers (s : Entities) (u v : UserId) :
    (s.erase u).peers_ v = if v = u then none else s.peers_ v := by
  simp [erase, Function.update_apply]

@[simp] lemma add_peers (s : Entities) (u v : UserId) (c : ConnId) :
    (s.add u c).1.peers_ v = if v = u then some c else s.peers_ v := by
  rw [add]
  split
  · by_cases hv : v = u <;> simp [hv]
  · simp [Function.update_apply]

@[simp] lemma add_old (s : Entities) (u : UserId) (c : ConnId) :
    (s.add u c).2 = s.peers_ u := by
  rw [add]
  split
  · rename_i it hit
    exact hit.symm
  · rename_i hit
    exact hit.symm

/-- A removal by pointer erases the entry when it is the live connection named. -/
lemma removeConn_eq_some {ndebug : Bool} {live : ConnId → Bool} {s s' : Entities} {u : UserId}
    {c : ConnId} (h : s.removeConn ndebug live u (some c) = some s') :
    s' = if s.peers_ u = some c ∧ live c = true then s.erase u else s := by
  rw [removeConn] at h
  split at h
  · rename_i hit
    simpa [hit] using h.symm
  · rename_i it hit
    simp only [cassert] at h
    split at h
    · by_cases hlive : live it = true
      · by_cases hc : it = c
        · subst hc
          simpa [hit, hlive, lock] using h.symm
        · simpa [hit, hc, hlive, lock] using h.symm
      · have hne : ¬ (it = c ∧ live c = true) := by
          rintro ⟨rfl, hc⟩
          exact hlive hc
        simpa [hit, hlive, hne, lock] using h.symm
    · exact absurd h (by simp)

/-- A removal by session erases the entry when it is a live connection with that session, and
when it is a dead connection. -/
lemma removeSession_eq {getSession : ConnId → Session} {live : ConnId → Bool} (s : Entities)
    (u : UserId) (session : Session) {it : ConnId} (hit : s.peers_ u = some it) :
    s.removeSession getSession live u session =
      if live it = true → getSession it = session then s.erase u else s := by
  rw [removeSession, hit]
  by_cases hlive : live it = true
  · simp [lock, hlive]
  · simp [lock, hlive]

end Entities

/-! ## Runs of the map -/

/-- The atomic steps: the operations under the write lock, and the death of a
connection. -/
inductive Op where
  | add (userid : UserId) (conn : ConnId)
  | removeConn (userid : UserId) (conn : ConnId)
  | removeSession (userid : UserId) (session : Session)
  | expire (conn : ConnId)
deriving DecidableEq

/-- The user whose entry a step is about. -/
def Op.user : Op → Option UserId
  | .add u _ => some u
  | .removeConn u _ => some u
  | .removeSession u _ => some u
  | .expire _ => none

/-- The live connections and the map. -/
structure State where
  live : ConnId → Bool
  entities : Entities

variable (getSession : ConnId → Session) (ndebug : Bool)

/-- One step.  The caller of `remove(userid, conn)` holds a shared pointer to `conn`, so the
step is possible only while `conn` is alive. -/
def step (s : State) : Op → Option State
  | .add u c => some { s with entities := (s.entities.add u c).1 }
  | .removeConn u c =>
    if s.live c then
      (s.entities.removeConn ndebug s.live u (some c)).map fun e => { s with entities := e }
    else none
  | .removeSession u session =>
    some { s with entities := s.entities.removeSession getSession s.live u session }
  | .expire c => some { s with live := Function.update s.live c false }

/-- The state before the first login. -/
def State.init (live₀ : ConnId → Bool) : State := ⟨live₀, ⟨fun _ => none⟩⟩

/-- In a state with these live connections, the step removes the entry of user `u` when that
entry is the connection `c`. -/
def Evicts (live : ConnId → Bool) (u : UserId) (c : ConnId) (op : Op) : Prop :=
  op = .removeConn u c ∨ (op = .removeSession u (getSession c) ∧ live c = true) ∨
    ∃ session, op = .removeSession u session ∧ live c = false

section Step

variable {getSession ndebug} {s s' : State} {op : Op} {u v : UserId} {c : ConnId}

/-- What a removal by pointer does: its caller holds the connection, and the entry goes if it is
that connection. -/
lemma step_removeConn (hstep : step getSession ndebug s (.removeConn u c) = some s') :
    s.live c = true ∧ s' = { s with
      entities := if s.entities.peers_ u = some c then s.entities.erase u else s.entities } := by
  simp only [step] at hstep
  split at hstep
  · rename_i hlive
    obtain ⟨e, he, rfl⟩ := Option.map_eq_some_iff.mp hstep
    rw [Entities.removeConn_eq_some he]
    simp [hlive]
  · exact absurd hstep (by simp)

/-- A step about one user leaves the entries of the others alone, and so does the death of a
connection. -/
lemma peers_step_other (hstep : step getSession ndebug s op = some s') (hv : op.user ≠ some v) :
    s'.entities.peers_ v = s.entities.peers_ v := by
  cases op with
  | expire c =>
    obtain rfl := Option.some.inj hstep
    rfl
  | add u c =>
    obtain rfl := Option.some.inj hstep
    have hne : v ≠ u := fun h => hv (by rw [h]; rfl)
    simp [hne]
  | removeConn u c =>
    have hne : v ≠ u := fun h => hv (by rw [h]; rfl)
    obtain ⟨-, rfl⟩ := step_removeConn hstep
    dsimp only
    split <;> simp [hne]
  | removeSession u session =>
    have hne : v ≠ u := fun h => hv (by rw [h]; rfl)
    obtain rfl := Option.some.inj hstep
    cases hit : s.entities.peers_ u with
    | none => simp [Entities.removeSession, hit]
    | some it =>
      rw [Entities.removeSession_eq s.entities u session hit]
      split <;> simp [hne]

lemma peers_step_add (hstep : step getSession ndebug s (.add u c) = some s') :
    s'.entities.peers_ u = some c := by
  obtain rfl := Option.some.inj hstep
  simp

/-- A step that is no login for the user keeps the entry of the user unless it evicts it. -/
lemma peers_step_of_some (hstep : step getSession ndebug s op = some s')
    (hadd : ∀ c', op ≠ .add u c') (hc : s.entities.peers_ u = some c) :
    (Evicts getSession s.live u c op ∧ s'.entities.peers_ u = none) ∨
      (¬ Evicts getSession s.live u c op ∧ s'.entities.peers_ u = some c) := by
  by_cases hu : op.user = some u
  · cases op with
    | expire c' => simp [Op.user] at hu
    | add u' c' =>
      obtain rfl : u' = u := by simpa [Op.user] using hu
      exact absurd rfl (hadd c')
    | removeConn u' c' =>
      obtain rfl : u' = u := by simpa [Op.user] using hu
      obtain ⟨-, rfl⟩ := step_removeConn hstep
      by_cases hcc : c = c'
      · subst hcc
        simp [Evicts, hc]
      · simp [Evicts, hc, hcc, Ne.symm hcc]
    | removeSession u' session =>
      obtain rfl : u' = u := by simpa [Op.user] using hu
      obtain rfl := Option.some.inj hstep
      simp only [Entities.removeSession_eq s.entities u' session hc]
      cases hlive : s.live c with
      | false => simp [Evicts, hlive]
      | true =>
        by_cases hsess : getSession c = session
        · simp [Evicts, hlive, hsess]
        · simp [Evicts, hlive, hsess, Ne.symm hsess, hc]
  · refine Or.inr ⟨?_, by rw [peers_step_other hstep hu, hc]⟩
    rintro (rfl | ⟨rfl, -⟩ | ⟨session, rfl, -⟩) <;> exact hu rfl

/-- Without an entry, only a login makes one. -/
lemma peers_step_of_none (hstep : step getSession ndebug s op = some s')
    (hadd : ∀ c', op ≠ .add u c') (hnone : s.entities.peers_ u = none) :
    s'.entities.peers_ u = none := by
  by_cases hu : op.user = some u
  · cases op with
    | expire c' => simp [Op.user] at hu
    | add u' c' =>
      obtain rfl : u' = u := by simpa [Op.user] using hu
      exact absurd rfl (hadd c')
    | removeConn u' c' =>
      obtain rfl : u' = u := by simpa [Op.user] using hu
      obtain ⟨-, rfl⟩ := step_removeConn hstep
      simp [hnone]
    | removeSession u' session =>
      obtain rfl : u' = u := by simpa [Op.user] using hu
      obtain rfl := Option.some.inj hstep
      simp [Entities.removeSession, hnone]
  · rw [peers_step_other hstep hu, hnone]

lemma live_step (hstep : step getSession ndebug s op = some s') (c : ConnId) :
    s'.live c = true ↔ s.live c = true ∧ op ≠ .expire c := by
  cases op with
  | add u' c' | removeSession u' session =>
    obtain rfl := Option.some.inj hstep
    simp
  | removeConn u' c' =>
    obtain ⟨-, rfl⟩ := step_removeConn hstep
    simp
  | expire c' =>
    obtain rfl := Option.some.inj hstep
    by_cases hc : c = c'
    · simp [hc]
    · simp [hc, Ne.symm hc]

/-- The program stops in two cases only: a removal by pointer needs the connection it names,
and its assertion needs the connection it finds. -/
lemma step_eq_none_iff :
    step getSession ndebug s op = none ↔ ∃ u c, op = .removeConn u c ∧
      (s.live c = false ∨
        ndebug = false ∧ ∃ it, s.entities.peers_ u = some it ∧ s.live it = false) := by
  cases op with
  | add u c | removeSession u session | expire c => simp [step]
  | removeConn u c =>
    have hremove : s.entities.removeConn ndebug s.live u (some c) = none ↔
        ndebug = false ∧ ∃ it, s.entities.peers_ u = some it ∧ s.live it = false := by
      rw [Entities.removeConn]
      cases hit : s.entities.peers_ u with
      | none => simp
      | some it =>
        cases ndebug <;> cases hlive : s.live it <;> simp [cassert, lock, hlive, ← apply_ite some]
    cases hlive : s.live c with
    | false => simp [step, hlive]
    | true => simp [step, hlive, hremove]

end Step

/-! ## The map and the history of the run -/

/-- The step is a login of the user. -/
def IsAdd (u : UserId) (_pre : List Op) (op : Op) : Prop := ∃ c, op = .add u c

/-- The connections alive after the steps `pre` of a run that starts with `live₀`. -/
def liveAfter (live₀ : ConnId → Bool) (pre : List Op) (c : ConnId) : Bool :=
  live₀ c && decide (.expire c ∉ pre)

/-- After the login of `c` for `u` with the steps `pre` before it, none of the steps `post`
evicts `c`. -/
def NotEvicted (live₀ : ConnId → Bool) (u : UserId) (c : ConnId) (pre post : List Op) : Prop :=
  ∀ mid op rest, post = mid ++ op :: rest →
    ¬ Evicts getSession (liveAfter live₀ (pre ++ .add u c :: mid)) u c op

section History

variable {getSession ndebug} {live₀ : ConnId → Bool} {ops : List Op} {s : State}

lemma live_of_run (hrun : run (step getSession ndebug) (State.init live₀) ops = some s) :
    s.live = liveAfter live₀ ops := by
  refine run_history (P := fun ops s => s.live = liveAfter live₀ ops) ?_ ?_ hrun
  · ext c
    simp [State.init, liveAfter]
  · intro ops s₁ op s₂ _ ih hstep
    ext c
    have hstep' := live_step hstep c
    rw [ih] at hstep'
    rw [Bool.eq_iff_iff, hstep']
    simp [liveAfter, and_assoc, @eq_comm _ (Op.expire c)]

lemma notEvicted_nil {u : UserId} {c : ConnId} {pre : List Op} :
    NotEvicted getSession live₀ u c pre [] := by
  intro mid op rest h
  exact absurd h (by simp)

lemma notEvicted_snoc {u : UserId} {c : ConnId} {pre post : List Op} {op : Op} :
    NotEvicted getSession live₀ u c pre (post ++ [op]) ↔
      NotEvicted getSession live₀ u c pre post ∧
        ¬ Evicts getSession (liveAfter live₀ (pre ++ .add u c :: post)) u c op := by
  constructor
  · intro h
    exact ⟨fun mid op' rest hpost => h mid op' (rest ++ [op]) (by simp [hpost]),
      h post op [] rfl⟩
  · rintro ⟨hpost, hop⟩ mid op' rest heq
    rcases snoc_eq_split_iff.mp heq with ⟨rfl, rfl, rfl⟩ | ⟨rest', rfl, heq'⟩
    · exact hop
    · exact hpost mid op' rest' heq'

/-- The entry of a user is the connection of the latest login that no later removal has
evicted. -/
lemma peers_of_run (hrun : run (step getSession ndebug) (State.init live₀) ops = some s)
    (u : UserId) (c : ConnId) :
    s.entities.peers_ u = some c ↔ ∃ pre post,
      LastStep (IsAdd u) ops pre (.add u c) post ∧ NotEvicted getSession live₀ u c pre post := by
  refine run_history (P := fun ops s => ∀ c, s.entities.peers_ u = some c ↔ ∃ pre post,
    LastStep (IsAdd u) ops pre (.add u c) post ∧ NotEvicted getSession live₀ u c pre post)
    ?_ ?_ hrun c
  · intro c
    constructor
    · intro h
      simp [State.init] at h
    · rintro ⟨pre, post, h, -⟩
      exact absurd h not_lastStep_nil
  · intro ops s₁ op s₂ hrun₁ ih hstep c
    by_cases hadd : IsAdd u ops op
    · obtain ⟨c', rfl⟩ := id hadd
      rw [peers_step_add hstep]
      simp only [lastStep_snoc_of_holds hadd]
      constructor
      · rintro h
        obtain rfl := Option.some.inj h
        exact ⟨ops, [], ⟨rfl, rfl, rfl⟩, notEvicted_nil⟩
      · rintro ⟨pre, post, ⟨-, h, -⟩, -⟩
        obtain ⟨-, rfl⟩ := Op.add.inj h
        rfl
    · -- the last login stays where it was, with one more step after it
      have hne : ∀ c', op ≠ .add u c' := fun c' h => hadd ⟨c', h⟩
      have hlive : ∀ pre post, LastStep (IsAdd u) ops pre (.add u c) post →
          liveAfter live₀ (pre ++ .add u c :: post) = s₁.live := by
        intro pre post h
        rw [live_of_run hrun₁, h.split]
      simp only [lastStep_snoc_of_not hadd]
      constructor
      · intro hsome
        cases hold : s₁.entities.peers_ u with
        | none => rw [peers_step_of_none hstep hne hold] at hsome; simp at hsome
        | some c₁ =>
          rcases peers_step_of_some hstep hne hold with ⟨-, h⟩ | ⟨hev, h⟩
          · rw [h] at hsome; simp at hsome
          · obtain rfl : c₁ = c := by simpa [h] using hsome
            obtain ⟨pre, post, hlast, hnot⟩ := (ih c₁).mp hold
            refine ⟨pre, post ++ [op], ⟨post, rfl, hlast⟩, notEvicted_snoc.mpr ⟨hnot, ?_⟩⟩
            rw [hlive pre post hlast]
            exact hev
      · rintro ⟨pre, -, ⟨post, rfl, hlast⟩, hnot⟩
        obtain ⟨hnot, hop⟩ := notEvicted_snoc.mp hnot
        rw [hlive pre post hlast] at hop
        have hold := (ih c).mpr ⟨pre, post, hlast, hnot⟩
        rcases peers_step_of_some hstep hne hold with ⟨hev, -⟩ | ⟨-, h⟩
        · exact absurd hev hop
        · exact h

end History

/-! ## Late clean-up, and how an entry leaves the map -/

/-- The step cleans up after a connection other than `c`: it removes the entry of user `u` by
the pointer or by the session of that connection, or the connection dies. -/
def CleansUpAfterOther (u : UserId) (c : ConnId) (op : Op) : Prop :=
  ∃ c' ≠ c, op = .removeConn u c' ∨ op = .removeSession u (getSession c') ∨ op = .expire c'

/-- The step is a removal for the user. -/
def IsRemove (u : UserId) (op : Op) : Prop :=
  (∃ c, op = .removeConn u c) ∨ ∃ session, op = .removeSession u session

/-- The steps of a run that take the entry of a user out of the map. -/
def erasers (u : UserId) : State → List Op → List Op
  | _, [] => []
  | s, op :: ops =>
    match step getSession ndebug s op with
    | none => []
    | some s' =>
      if s.entities.peers_ u ≠ none ∧ s'.entities.peers_ u = none then
        op :: erasers u s' ops
      else erasers u s' ops

section Leaving

variable {getSession ndebug} {s s' : State} {ops : List Op} {u : UserId} {c : ConnId}

/-- The clean-up of replaced connections leaves a live connection in its place. -/
lemma peers_of_cleanup (hinj : Function.Injective getSession) {late : List Op}
    (hc : s.entities.peers_ u = some c) (hlive : s.live c = true)
    (hlate : ∀ op ∈ late, CleansUpAfterOther getSession u c op)
    (hrun : run (step getSession ndebug) s late = some s') : s'.entities.peers_ u = some c := by
  induction late generalizing s with
  | nil =>
    obtain rfl : s = s' := by simpa using hrun
    exact hc
  | cons op late ih =>
    obtain ⟨s₁, hstep, hrun'⟩ := run_cons_eq_some.mp hrun
    obtain ⟨c', hne, hop⟩ := hlate op (by simp)
    have hadd : ∀ c', op ≠ .add u c' := by
      rcases hop with rfl | rfl | rfl <;> simp
    have hnot : ¬ Evicts getSession s.live u c op := by
      rintro (rfl | ⟨rfl, -⟩ | ⟨session, -, hdead⟩)
      · simp [Ne.symm hne] at hop
      · have : getSession c' = getSession c := by simpa [eq_comm] using hop
        exact hne (hinj this)
      · rw [hlive] at hdead
        exact absurd hdead (by simp)
    have hlive₁ : s₁.live c = true := by
      refine (live_step hstep c).mpr ⟨hlive, ?_⟩
      rcases hop with rfl | rfl | rfl <;> simp [hne]
    rcases peers_step_of_some hstep hadd hc with ⟨hev, -⟩ | ⟨-, hc₁⟩
    · exact absurd hev hnot
    · exact ih hc₁ hlive₁ (fun op' h => hlate op' (by simp [h])) hrun'

/-- Without an entry and without a login there is nothing to take out. -/
lemma erasers_of_none (hnone : s.entities.peers_ u = none) (hadd : ∀ op ∈ ops, ¬ IsAdd u [] op)
    (hrun : run (step getSession ndebug) s ops = some s') :
    erasers getSession ndebug u s ops = [] ∧ s'.entities.peers_ u = none := by
  induction ops generalizing s with
  | nil =>
    obtain rfl : s = s' := by simpa using hrun
    exact ⟨rfl, hnone⟩
  | cons op ops ih =>
    obtain ⟨s₁, hstep, hrun'⟩ := run_cons_eq_some.mp hrun
    have hne : ∀ c', op ≠ .add u c' := fun c' h => hadd op (by simp) ⟨c', h⟩
    have hnone₁ := peers_step_of_none hstep hne hnone
    have hrest := ih hnone₁ (fun op' h => hadd op' (by simp [h])) hrun'
    refine ⟨?_, hrest.2⟩
    rw [erasers, hstep]
    simp [hnone, hrest.1]

/-- Until the next login the entry stays in the map, or exactly one removal takes it out. -/
lemma erasers_of_some (hc : s.entities.peers_ u = some c)
    (hadd : ∀ op ∈ ops, ¬ IsAdd u [] op)
    (hrun : run (step getSession ndebug) s ops = some s') :
    (erasers getSession ndebug u s ops = [] ∧ s'.entities.peers_ u = some c) ∨
    (∃ op, erasers getSession ndebug u s ops = [op] ∧ IsRemove u op ∧
      s'.entities.peers_ u = none) := by
  induction ops generalizing s with
  | nil =>
    obtain rfl : s = s' := by simpa using hrun
    exact Or.inl ⟨rfl, hc⟩
  | cons op ops ih =>
    obtain ⟨s₁, hstep, hrun'⟩ := run_cons_eq_some.mp hrun
    have hne : ∀ c', op ≠ .add u c' := fun c' h => hadd op (by simp) ⟨c', h⟩
    have hadd' : ∀ op' ∈ ops, ¬ IsAdd u [] op' := fun op' h => hadd op' (by simp [h])
    rcases peers_step_of_some hstep hne hc with ⟨hev, hnone⟩ | ⟨-, hc₁⟩
    · obtain ⟨hnil, hnone'⟩ := erasers_of_none hnone hadd' hrun'
      refine Or.inr ⟨op, ?_, ?_, hnone'⟩
      · rw [erasers, hstep]
        simp [hc, hnone, hnil]
      · rcases hev with rfl | ⟨rfl, -⟩ | ⟨session, rfl, -⟩
        · exact Or.inl ⟨c, rfl⟩
        · exact Or.inr ⟨_, rfl⟩
        · exact Or.inr ⟨session, rfl⟩
    · have herase : erasers getSession ndebug u s (op :: ops) =
          erasers getSession ndebug u s₁ ops := by
        rw [erasers, hstep]
        simp [hc₁]
      rw [herase]
      exact ih hc₁ hadd' hrun'

end Leaving

/-- **The last login wins.**  In every run of the user map, over connections with distinct
sessions:
* the entry of a user is `c` exactly when `c` is the latest login of the user and no later
  removal evicted it, and the clean-up of other connections never evicts a live `c`;
* from one login of a user to the next, the connection stored either stays and the next login
  hands it back, or exactly one removal takes it out and the next login hands back nothing;
* a step changes the entry of no other user;
* every step can follow, but for the assertion of a removal by pointer that finds a dead
  connection. -/
theorem last_login_wins (getSession : ConnId → Session) (hinj : Function.Injective getSession)
    (ndebug : Bool) (live₀ : ConnId → Bool) (ops : List Op) (s : State)
    (hrun : run (step getSession ndebug) (State.init live₀) ops = some s) :
    (∀ u c, s.entities.peers_ u = some c ↔ ∃ pre post,
      LastStep (IsAdd u) ops pre (.add u c) post ∧ NotEvicted getSession live₀ u c pre post) ∧
    (∀ u c late s', s.entities.peers_ u = some c → s.live c = true →
      (∀ op ∈ late, CleansUpAfterOther getSession u c op) →
      run (step getSession ndebug) s late = some s' → s'.entities.peers_ u = some c) ∧
    (∀ u c mid s₁ s₂, step getSession ndebug s (.add u c) = some s₁ →
      (∀ op ∈ mid, ¬ IsAdd u [] op) → run (step getSession ndebug) s₁ mid = some s₂ →
      (erasers getSession ndebug u s₁ mid = [] ∧
        ∀ c', (s₂.entities.add u c').2 = some c) ∨
      (∃ op, erasers getSession ndebug u s₁ mid = [op] ∧ IsRemove u op ∧
        ∀ c', (s₂.entities.add u c').2 = none)) ∧
    (∀ op s' v, step getSession ndebug s op = some s' → op.user ≠ some v →
      s'.entities.peers_ v = s.entities.peers_ v) ∧
    (∀ op, step getSession ndebug s op = none ↔ ∃ u c, op = .removeConn u c ∧
      (s.live c = false ∨
        ndebug = false ∧ ∃ it, s.entities.peers_ u = some it ∧ s.live it = false)) := by
  refine ⟨peers_of_run hrun, ?_, ?_, fun op s' v => peers_step_other, fun op => step_eq_none_iff⟩
  · intro u c late s' hc hlive hlate hrun'
    exact peers_of_cleanup hinj hc hlive hlate hrun'
  · intro u c mid s₁ s₂ hstep hmid hrun'
    rcases erasers_of_some (peers_step_add hstep) hmid hrun' with ⟨hnil, hc⟩ | ⟨op, hop, hrem, hc⟩
    · exact Or.inl ⟨hnil, fun c' => by rw [Entities.add_old, hc]⟩
    · exact Or.inr ⟨op, hop, hrem, fun c' => by rw [Entities.add_old, hc]⟩

/-- User 5 logs in on connection 1 and again on connection 2; the late clean-up of
connection 1 leaves connection 2 in the map. -/
theorem second_login_survives_cleanup :
    ∃ s, run (step (fun c => List.replicate c 0) false) (State.init fun _ => true)
        [.add 5 1, .add 5 2, .removeSession 5 [0], .expire 1] = some s ∧
      s.entities.peers_ 5 = some 2 := by
  refine ⟨_, rfl, ?_⟩
  exact (last_login_wins (fun c => List.replicate c 0)
    (fun c c' h => by simpa using congrArg List.length h) false (fun _ => true)
    [.add 5 1, .add 5 2] _ rfl).2.1 5 2 [.removeSession 5 [0], .expire 1] _ rfl rfl
    (by
      intro op hop
      refine ⟨1, by decide, ?_⟩
      simp only [List.mem_cons, List.not_mem_nil, or_false] at hop
      rcases hop with rfl | rfl
      · exact Or.inr (Or.inl rfl)
      · exact Or.inr (Or.inr rfl)) rfl

end CppServer.Gate.INT
