/-
# The two removals of the gate's user map

`INT::Entities` has two overloads of `remove`.  The one that is given the connection asserts
that the connection in the map is alive and compares pointers; the one that is given a session
compares it with the session of the connection in the map, and it also takes out an entry whose
connection is dead.  Over connections with distinct sessions they do the same to every entry but
those whose connection is dead: there the assertion fails, and in a program without assertions
the entry stays in the map.

Nothing takes such an entry out when its connection dies, so the overloads agree along a run
exactly as long as no login brings a dead connection and no connection dies in the map.
-/
import CppServer.Gate.Entities

namespace CppServer.Gate.INT

variable (getSession : ConnId → Session) (ndebug : Bool)

/-- `remove(userid, conn)` passes its assertion and leaves the same map as
`remove(userid, session)` with the session of the connection. -/
def RemovesAgree (s : State) (u : UserId) (c : ConnId) : Prop :=
  s.entities.removeConn ndebug s.live u (some c) =
    some (s.entities.removeSession getSession s.live u (getSession c))

/-- The connections in the map are alive. -/
def EntriesAlive (s : State) : Prop :=
  ∀ u it, s.entities.peers_ u = some it → s.live it = true

/-- The condition on a step: a login brings a connection that is alive, and a connection that
dies is not in the map. -/
def KeepsEntries (s : State) : Op → Prop
  | .add _ c => s.live c = true
  | .expire c => ∀ u, s.entities.peers_ u ≠ some c
  | .removeConn _ _ | .removeSession _ _ => True

section Removal

variable {getSession ndebug} {s s' : State} {op : Op} {ops : List Op} {u : UserId} {c : ConnId}

/-- The overloads agree about an entry exactly if its connection is alive. -/
lemma removesAgree_iff (hinj : Function.Injective getSession) (s : State) (u : UserId)
    (c : ConnId) : RemovesAgree getSession ndebug s u c ↔
      ∀ it, s.entities.peers_ u = some it → s.live it = true := by
  rw [RemovesAgree, Entities.removeConn]
  cases hit : s.entities.peers_ u with
  | none => simp [Entities.removeSession, hit]
  | some it =>
    rw [Entities.removeSession_eq s.entities u (getSession c) hit]
    cases hlive : s.live it with
    | true =>
      -- the pointers are equal exactly if the sessions are
      by_cases hc : it = c
      · subst hc
        simp [cassert, lock, hlive]
      · have hsession : getSession it ≠ getSession c := fun h => hc (hinj h)
        simp [cassert, lock, hlive, hc, hsession]
    | false =>
      -- the removal by session takes the dead entry out, the other one does not
      have hne : s.entities ≠ s.entities.erase u := by
        intro h
        have hpeers := congrArg (fun e : Entities => e.peers_ u) h
        simp [hit] at hpeers
      cases ndebug with
      | false => simp [cassert, lock, hlive]
      | true => simpa [cassert, lock, hlive] using hne

/-- Only a login brings an entry into the map. -/
lemma peers_of_step_ne_add {it : ConnId} (hstep : step getSession ndebug s op = some s')
    (hadd : ∀ c', op ≠ .add u c') (h : s'.entities.peers_ u = some it) :
    s.entities.peers_ u = some it := by
  cases hold : s.entities.peers_ u with
  | none =>
    rw [peers_step_of_none hstep hadd hold] at h
    exact absurd h (by simp)
  | some it' =>
    rcases peers_step_of_some hstep hadd hold with ⟨-, hnone⟩ | ⟨-, hkept⟩
    · rw [hnone] at h
      exact absurd h (by simp)
    · exact hkept.symm.trans h

/-- A step keeps the connections in the map alive exactly if it meets the condition. -/
lemma entriesAlive_step_iff (hs : EntriesAlive s)
    (hstep : step getSession ndebug s op = some s') : EntriesAlive s' ↔ KeepsEntries s op := by
  cases op with
  | add u c =>
    obtain rfl := Option.some.inj hstep
    constructor
    · intro h
      exact h u c (by simp)
    · intro hlive v it hv
      by_cases hvu : v = u
      · obtain rfl : c = it := by simpa [hvu] using hv
        exact hlive
      · exact hs v it (by simpa [hvu] using hv)
  | removeConn u c | removeSession u session =>
    refine iff_of_true (fun v it hv => (live_step hstep it).mpr ⟨hs v it ?_, by simp⟩) trivial
    exact peers_of_step_ne_add hstep (by simp) hv
  | expire c =>
    obtain rfl := Option.some.inj hstep
    constructor
    · intro h v hv
      have hdead := h v c hv
      simp at hdead
    · intro hfree v it hv
      have hne : it ≠ c := fun h => hfree v (h ▸ hv)
      simpa [hne] using hs v it hv

/-- A connection that is alive behind a run was alive before it. -/
lemma live_of_live_run (hrun : run (step getSession ndebug) s ops = some s')
    (hc : s'.live c = true) : s.live c = true := by
  by_contra hdead
  refine run_invariant (I := fun s => ¬ s.live c = true) ?_ hdead hrun hc
  intro s₁ op s₂ hs₁ hstep hs₂
  exact hs₁ ((live_step hstep c).mp hs₂).1

lemma entriesAlive_init (live₀ : ConnId → Bool) : EntriesAlive (State.init live₀) := by
  intro u it h
  exact absurd h (by simp [State.init])

/-- With a connection that can be named, the overloads agree exactly on maps of live
connections. -/
lemma forall_removesAgree_iff (hinj : Function.Injective getSession) (hc : s.live c = true) :
    (∀ u c, s.live c = true → RemovesAgree getSession ndebug s u c) ↔ EntriesAlive s := by
  simp only [removesAgree_iff hinj]
  exact ⟨fun h u => h u c hc, fun h u _ _ => h u⟩

end Removal

/-- **When the removals agree.**  In every run of the user map, over connections with distinct
sessions:
* for every user and every live connection the overloads agree exactly if the entry of the user
  is no dead connection;
* in a run whose logins bring live connections and whose connections die outside the map, they
  agree at every point;
* in a run at whose end there is a connection to remove, they agree at every point of no other
  run. -/
theorem removes_agree_iff_entries_kept (getSession : ConnId → Session)
    (hinj : Function.Injective getSession) (ndebug : Bool) (live₀ : ConnId → Bool)
    (ops : List Op) (s : State)
    (hrun : run (step getSession ndebug) (State.init live₀) ops = some s) :
    (∀ u c, s.live c = true → (RemovesAgree getSession ndebug s u c ↔
      ∀ it, s.entities.peers_ u = some it → s.live it = true)) ∧
    ((∀ pre op post s₁, ops = pre ++ op :: post →
        run (step getSession ndebug) (State.init live₀) pre = some s₁ → KeepsEntries s₁ op) →
      ∀ pre post s₁, ops = pre ++ post →
        run (step getSession ndebug) (State.init live₀) pre = some s₁ →
        ∀ u c, s₁.live c = true → RemovesAgree getSession ndebug s₁ u c) ∧
    ((∃ c, s.live c = true) →
      (∀ pre post s₁, ops = pre ++ post →
        run (step getSession ndebug) (State.init live₀) pre = some s₁ →
        ∀ u c, s₁.live c = true → RemovesAgree getSession ndebug s₁ u c) →
      ∀ pre op post s₁, ops = pre ++ op :: post →
        run (step getSession ndebug) (State.init live₀) pre = some s₁ → KeepsEntries s₁ op) := by
  have halive : (∀ pre post s₁, ops = pre ++ post →
        run (step getSession ndebug) (State.init live₀) pre = some s₁ → EntriesAlive s₁) ↔
      ∀ pre op post s₁, ops = pre ++ op :: post →
        run (step getSession ndebug) (State.init live₀) pre = some s₁ → KeepsEntries s₁ op := by
    refine run_invariant_iff ?_ (entriesAlive_init live₀) hrun
    intro _ s₁ op s₂ _ hs hstep
    exact entriesAlive_step_iff hs hstep
  refine ⟨fun u c _ => removesAgree_iff hinj s u c, ?_, ?_⟩
  · intro hkept pre post s₁ heq hrun₁ u c _
    exact (removesAgree_iff hinj s₁ u c).mpr (halive.mpr hkept pre post s₁ heq hrun₁ u)
  · rintro ⟨c, hc⟩ hagree
    refine halive.mp fun pre post s₁ heq hrun₁ => ?_
    have hpost := run_rest (heq ▸ hrun) hrun₁
    exact (forall_removesAgree_iff hinj (live_of_live_run hpost hc)).mp
      (hagree pre post s₁ heq hrun₁)

/-- User 5 logs in on connection 1 and again on connection 2; connection 1 dies, and
connection 2 removes its entry before it dies too. -/
def secondLogin : List Op := [.add 5 1, .add 5 2, .expire 1, .removeConn 5 2, .expire 2]

lemma secondLogin_keepsEntries :
    Along (step (fun c => List.replicate c 0) false) KeepsEntries (State.init fun _ => true)
      secondLogin := by
  -- connection 1 is not in the map when it dies
  have hfree : ∀ u : UserId,
      ¬ (if u = 5 then some 2 else if u = 5 then some 1 else none) = some (1 : ConnId) := by
    intro u
    by_cases hu : u = 5 <;> simp [hu]
  simpa [secondLogin, Along, KeepsEntries, step, State.init, Entities.removeConn, cassert, lock]
    using hfree

/-- Behind this run the overloads agree about every user and every live connection. -/
theorem removes_agree_after_second_login :
    ∃ s, run (step (fun c => List.replicate c 0) false) (State.init fun _ => true) secondLogin =
        some s ∧
      ∀ u c, s.live c = true → RemovesAgree (fun c => List.replicate c 0) false s u c := by
  refine ⟨_, rfl, ?_⟩
  exact (removes_agree_iff_entries_kept (fun c => List.replicate c 0)
    (fun c c' h => by simpa using congrArg List.length h) false (fun _ => true) secondLogin _
    rfl).2.1 (along_iff.mp secondLogin_keepsEntries) secondLogin [] _ (List.append_nil _).symm rfl

/-- Connection 1 dies in the map.  Removing the entry of its user with connection 2 then fails
the assertion, and leaves the dead entry in a program without assertions; removing it with the
session of connection 2 takes it out. -/
theorem removes_differ_on_dead_entry :
    ∃ s, run (step (fun c => List.replicate c 0) false) (State.init fun _ => true)
        [.add 5 1, .expire 1] = some s ∧ s.live 2 = true ∧
      s.entities.removeConn false s.live 5 (some 2) = none ∧
      s.entities.removeConn true s.live 5 (some 2) = some s.entities ∧
      s.entities.peers_ 5 = some 1 ∧
      (s.entities.removeSession (fun c => List.replicate c 0) s.live 5 [0, 0]).peers_ 5 = none ∧
      ∀ ndebug, ¬ RemovesAgree (fun c => List.replicate c 0) ndebug s 5 2 := by
  have hinj : Function.Injective fun c : ConnId => List.replicate c (0 : UInt8) :=
    fun c c' h => by simpa using congrArg List.length h
  refine ⟨_, rfl, rfl, rfl, rfl, rfl, rfl, fun ndebug h => ?_⟩
  have hlive := (removesAgree_iff hinj _ 5 2).mp h 1 rfl
  exact absurd hlive (by decide)

end CppServer.Gate.INT
