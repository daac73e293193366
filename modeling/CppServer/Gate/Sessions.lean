/-
# The sessions of the users

`INT::Sessions` of `Framework/game_gate/Entities.h` is the user map of the gate with the session
of a login in the place of its connection: a login replaces the session of the user and hands
back the old one, and a removal checks that the session is still its own.

The two classes are two levels of one design.  The user map can be viewed as a map of sessions,
and `INT::Sessions` follows that view step by step, but for one case: the user map also takes
out an entry whose connection is dead, whatever session the removal names.
-/
import CppServer.Gate.Removal

namespace CppServer.Gate.INT

/-- `std::map<int64_t, std::string>`. -/
abbrev SessionMap := UserId → Option Session

/-- `INT::Sessions`. -/
structure Sessions where
  sessions_ : SessionMap

namespace Sessions

/-- `sessions_.erase(it)` for the iterator at `userid`. -/
def erase (t : Sessions) (userid : UserId) : Sessions :=
  ⟨Function.update t.sessions_ userid none⟩

/-- `Sessions::add`, with the old session that it returns. -/
def add (t : Sessions) (userid : UserId) (session : Session) : Sessions × Session :=
  match t.sessions_ userid with
  | some it => (⟨Function.update (t.erase userid).sessions_ userid (some session)⟩, it)
  | none => (⟨Function.update t.sessions_ userid (some session)⟩, [])

/-- `Sessions::get`. -/
def get (t : Sessions) (userid : UserId) : Session :=
  match t.sessions_ userid with
  | some it => it
  | none => []

/-- `Sessions::remove`. -/
def remove (t : Sessions) (userid : UserId) (session : Session) : Sessions :=
  match t.sessions_ userid with
  | some it => if it = session then t.erase userid else t
  | none => t

@[simp] lemma erase_sessions (t : Sessions) (u v : UserId) :
    (t.erase u).sessions_ v = if v = u then none else t.sessions_ v := by
  simp [erase, Function.update_apply]

@[simp] lemma add_sessions (t : Sessions) (u v : UserId) (session : Session) :
    (t.add u session).1.sessions_ v = if v = u then some session else t.sessions_ v := by
  rw [add]
  split
  · by_cases hv : v = u <;> simp [hv]
  · simp [Function.update_apply]

@[simp] lemma remove_sessions (t : Sessions) (u v : UserId) (session : Session) :
    (t.remove u session).sessions_ v =
      if v = u ∧ t.sessions_ u = some session then none else t.sessions_ v := by
  rw [remove]
  cases hit : t.sessions_ u with
  | none => simp
  | some it =>
    by_cases heq : it = session
    · by_cases hv : v = u <;> simp [heq, hv]
    · simp [heq]

end Sessions

/-! ## Both maps along a run -/

variable (getSession : ConnId → Session) (ndebug : Bool)

/-- The same step on the map of the sessions.  Who removes by pointer names the session of the
connection. -/
def sessionsStep (t : Sessions) : Op → Sessions
  | .add u c => (t.add u (getSession c)).1
  | .removeConn u c => t.remove u (getSession c)
  | .removeSession u session => t.remove u session
  | .expire _ => t

/-- A step of both maps. -/
def pairStep (p : State × Sessions) (op : Op) : Option (State × Sessions) :=
  (step getSession ndebug p.1 op).map fun s' => (s', sessionsStep getSession p.2 op)

/-- The map of the sessions is the view of the user map. -/
def Agrees (p : State × Sessions) : Prop :=
  ∀ u, p.2.sessions_ u = (p.1.entities.peers_ u).map getSession

/-- The condition on a step: a removal by session that finds a dead connection names its
session. -/
def NamesDead (s : State) : Op → Prop
  | .removeSession u session =>
    ∀ it, s.entities.peers_ u = some it → s.live it = false → getSession it = session
  | .add _ _ | .removeConn _ _ | .expire _ => True

section Agree

variable {getSession ndebug} {p p' : State × Sessions} {op : Op} {ops : List Op}

lemma pairStep_eq_some : pairStep getSession ndebug p op = some p' ↔
    step getSession ndebug p.1 op = some p'.1 ∧ p'.2 = sessionsStep getSession p.2 op := by
  rw [pairStep, Option.map_eq_some_iff]
  constructor
  · rintro ⟨s', hs', rfl⟩
    exact ⟨hs', rfl⟩
  · rintro ⟨hs', ht⟩
    exact ⟨p'.1, hs', by rw [← ht]⟩

/-- A removal by session keeps the view exactly if it meets the condition. -/
lemma agrees_removeSession_iff (h : Agrees getSession p) (u : UserId) (session : Session) :
    Agrees getSession ({ p.1 with
        entities := p.1.entities.removeSession getSession p.1.live u session },
      p.2.remove u session) ↔ NamesDead getSession p.1 (.removeSession u session) := by
  cases hit : p.1.entities.peers_ u with
  | none =>
    refine iff_of_true (fun v => ?_) (fun it h' => absurd (hit.symm.trans h') (by simp))
    have hview := h v
    simp [Entities.removeSession, hit, h u, hview]
  | some it =>
    have hother : ∀ v, v ≠ u → (p.2.remove u session).sessions_ v =
        ((p.1.entities.removeSession getSession p.1.live u session).peers_ v).map getSession := by
      intro v hv
      rw [Entities.removeSession_eq p.1.entities u session hit]
      split <;> simp [hv, h v]
    have hself : (p.2.remove u session).sessions_ u =
        ((p.1.entities.removeSession getSession p.1.live u session).peers_ u).map getSession ↔
          (p.1.live it = false → getSession it = session) := by
      rw [Entities.removeSession_eq p.1.entities u session hit]
      cases hlive : p.1.live it with
      | true => by_cases heq : getSession it = session <;> simp [h u, hit, heq]
      | false => by_cases heq : getSession it = session <;> simp [h u, hit, heq]
    constructor
    · intro hagree it' hit' hdead
      obtain rfl : it = it' := Option.some.inj (hit.symm.trans hit')
      exact hself.mp (hagree u) hdead
    · intro hnames v
      by_cases hv : v = u
      · subst hv
        exact hself.mpr (hnames it hit)
      · exact hother v hv

/-- A step keeps the view exactly if it meets the condition. -/
lemma agrees_step_iff (hinj : Function.Injective getSession) (h : Agrees getSession p)
    (hstep : pairStep getSession ndebug p op = some p') :
    Agrees getSession p' ↔ NamesDead getSession p.1 op := by
  obtain ⟨s', t'⟩ := p'
  obtain ⟨hs', rfl⟩ := pairStep_eq_some.mp hstep
  cases op with
  | add u c =>
    obtain rfl := Option.some.inj hs'
    refine iff_of_true (fun v => ?_) trivial
    by_cases hv : v = u
    · simp [sessionsStep, hv]
    · simp [sessionsStep, hv, h v]
  | removeConn u c =>
    obtain ⟨-, rfl⟩ := step_removeConn hs'
    refine iff_of_true (fun v => ?_) trivial
    -- the sessions are equal exactly if the pointers are
    have hsame : p.2.sessions_ u = some (getSession c) ↔ p.1.entities.peers_ u = some c := by
      rw [h u, Option.map_eq_some_iff]
      constructor
      · rintro ⟨it, hit, heq⟩
        rw [hit, hinj heq]
      · intro hit
        exact ⟨c, hit, rfl⟩
    simp only [sessionsStep, Sessions.remove_sessions, hsame]
    by_cases hc : p.1.entities.peers_ u = some c
    · by_cases hv : v = u
      · simp [hc, hv]
      · simp [hc, hv, h v]
    · simp [hc, h v]
  | removeSession u session =>
    obtain rfl := Option.some.inj hs'
    exact agrees_removeSession_iff h u session
  | expire c =>
    obtain rfl := Option.some.inj hs'
    exact iff_of_true h trivial

end Agree

/-- **The map of the sessions follows the user map.**  Over connections with distinct sessions,
in every run of both maps:
* the map of the sessions is the view of the user map at every point of the run exactly if every
  removal by session that finds a dead connection names its session;
* in such a run, `get` and the old session that `add` returns are the sessions of the
  connections that the user map has, or empty where it has none. -/
theorem sessions_follow_entities (getSession : ConnId → Session)
    (hinj : Function.Injective getSession) (ndebug : Bool) (live₀ : ConnId → Bool)
    (ops : List Op) (p : State × Sessions)
    (hrun : run (pairStep getSession ndebug) (State.init live₀, ⟨fun _ => none⟩) ops = some p) :
    ((∀ pre post p₁, ops = pre ++ post →
        run (pairStep getSession ndebug) (State.init live₀, ⟨fun _ => none⟩) pre = some p₁ →
        Agrees getSession p₁) ↔
      ∀ pre op post p₁, ops = pre ++ op :: post →
        run (pairStep getSession ndebug) (State.init live₀, ⟨fun _ => none⟩) pre = some p₁ →
        NamesDead getSession p₁.1 op) ∧
    ((∀ pre op post p₁, ops = pre ++ op :: post →
        run (pairStep getSession ndebug) (State.init live₀, ⟨fun _ => none⟩) pre = some p₁ →
        NamesDead getSession p₁.1 op) →
      ∀ u, p.2.get u = ((p.1.entities.get u).map getSession).getD [] ∧
        ∀ c, (p.2.add u (getSession c)).2 = ((p.1.entities.add u c).2.map getSession).getD []) := by
  have hstep : ∀ pre p₁ op p₂,
      run (pairStep getSession ndebug) (State.init live₀, ⟨fun _ => none⟩) pre = some p₁ →
      Agrees getSession p₁ → pairStep getSession ndebug p₁ op = some p₂ →
      (Agrees getSession p₂ ↔ NamesDead getSession p₁.1 op) :=
    fun _ p₁ op p₂ _ h hstep => agrees_step_iff hinj h hstep
  have hiff := run_invariant_iff hstep (fun u => rfl) hrun
  refine ⟨hiff, fun hnames u => ?_⟩
  have hview := hiff.mpr hnames ops [] p (List.append_nil ops).symm hrun u
  constructor
  · rw [Sessions.get, Entities.get, hview]
    cases p.1.entities.peers_ u <;> rfl
  · intro c
    rw [Sessions.add, Entities.add_old, hview]
    cases p.1.entities.peers_ u <;> rfl

/-- User 5 logs in on connections 1 and 2, and the clean-up of connection 1 comes late. -/
theorem sessions_follow_second_login :
    ∃ p, run (pairStep (fun c => List.replicate c 0) false)
        (State.init fun _ => true, ⟨fun _ => none⟩)
        [.add 5 1, .add 5 2, .removeSession 5 [0], .expire 1] = some p ∧ p.2.get 5 = [0, 0] := by
  refine ⟨_, rfl, ?_⟩
  have hnames : Along (pairStep (fun c => List.replicate c 0) false)
      (fun p => NamesDead (fun c => List.replicate c 0) p.1)
      (State.init fun _ => true, ⟨fun _ => none⟩)
      [.add 5 1, .add 5 2, .removeSession 5 [0], .expire 1] := by
    simp [Along, NamesDead, pairStep, step, State.init]
  exact ((sessions_follow_entities (fun c => List.replicate c 0)
    (fun c c' h => by simpa using congrArg List.length h) false (fun _ => true)
    [.add 5 1, .add 5 2, .removeSession 5 [0], .expire 1] _ rfl).2 (along_iff.mp hnames) 5).1

end CppServer.Gate.INT
