/-
# The lock guard over ZooKeeper

`zkLockGuard` of `thirdpart/zookeeperclient/zookeeperclient.h` creates a temporary node in its
constructor and deletes the node at the same path in its destructor.  It does not look at the
result of the creation, so that a guard that did not get the lock behaves like one that did:
its constructor returns, and its destructor deletes the node of the guard that has it.

The bodies of `createNode` and `deleteNode` are not in the repository.  A creation fails and
changes nothing if there is a node already, and a deletion without a version deletes whatever
node there is.  A node remembers the guard that created it.
-/
import Mathlib.Logic.Function.Basic
import CppServer.Lib.Bytes
import CppServer.Lib.Run

namespace CppServer.Zookeeper

/-- The path of a node. -/
abbrev Path := Bytes

/-- A guard, as an object of some client. -/
abbrev GuardId := ℕ

/-- A `ZookeeperClient`. -/
abbrev ClientId := ℕ

/-- The results of the two operations. -/
inductive Code where
  | zOk
  | zNoNode
  | zNodeExists
deriving DecidableEq

/-- A node of the tree: its data, whether it is ephemeral, and who created it. -/
structure Node where
  value : Bytes
  isTemp : Bool
  creator : GuardId
deriving DecidableEq

/-- The nodes of the server. -/
abbrev Nodes := Path → Option Node

/-- `ZookeeperClient::createNode`, called by the guard `creator`. -/
def createNode (nodes : Nodes) (creator : GuardId) (path : Path) (value : Bytes) (isTemp : Bool) :
    Nodes × Code :=
  match nodes path with
  | some _ => (nodes, .zNodeExists)
  | none => (Function.update nodes path (some ⟨value, isTemp, creator⟩), .zOk)

/-- `ZookeeperClient::deleteNode` with `IGNORE_VERSION`. -/
def deleteNode (nodes : Nodes) (path : Path) : Nodes × Code :=
  match nodes path with
  | some _ => (Function.update nodes path none, .zOk)
  | none => (nodes, .zNoNode)

/-- `zkLockGuard`. -/
structure ZkLockGuard where
  path : Path
  zk : ClientId
deriving DecidableEq

namespace ZkLockGuard

/-- The constructor of the guard `id`.  An error would be an exception, but none is thrown:
the result of `createNode` is dropped. -/
def make (nodes : Nodes) (id : GuardId) (zkClient : ClientId) (nodePath : Path) (value : Bytes) :
    Nodes × Except Code ZkLockGuard :=
  let (nodes, _) := createNode nodes id nodePath value true
  (nodes, .ok ⟨nodePath, zkClient⟩)

/-- The destructor. -/
def destroy (nodes : Nodes) (this : ZkLockGuard) : Nodes := (deleteNode nodes this.path).1

end ZkLockGuard

/-! ## Any number of guards -/

/-- The nodes, the guards in scope, and the guards that were made so far. -/
structure State where
  nodes : Nodes
  scope : GuardId → Option ZkLockGuard
  made : List GuardId

/-- A guard comes into scope or leaves it. -/
inductive Op where
  | construct (id : GuardId) (zkClient : ClientId) (nodePath : Path) (value : Bytes)
  | destroy (id : GuardId)
deriving DecidableEq

/-- One step.  A guard is constructed once, and a constructor that throws leaves none behind. -/
def step (s : State) : Op → Option State
  | .construct id zkClient nodePath value =>
    if id ∈ s.made then none
    else
      match ZkLockGuard.make s.nodes id zkClient nodePath value with
      | (nodes, .ok g) => some ⟨nodes, Function.update s.scope id (some g), id :: s.made⟩
      | (nodes, .error _) => some ⟨nodes, s.scope, id :: s.made⟩
  | .destroy id =>
    match s.scope id with
    | none => none
    | some g => some { s with
        nodes := ZkLockGuard.destroy s.nodes g, scope := Function.update s.scope id none }

/-- Before the first guard. -/
def State.init : State := ⟨fun _ => none, fun _ => none, []⟩

/-- At most one guard of a path is in scope.  A guard in scope is past its constructor and was
told of no failure: a constructor that throws leaves none. -/
def Exclusive (s : State) : Prop :=
  ∀ a b ga gb, s.scope a = some ga → s.scope b = some gb → ga.path = gb.path → a = b

/-- A destructor deletes no node of another guard in scope. -/
def DeletesOwn (s : State) : Op → Prop
  | .construct _ _ _ _ => True
  | .destroy id => ∀ g node, s.scope id = some g → s.nodes g.path = some node →
      node.creator ≠ id → s.scope node.creator = none

/-- The condition on a step: no guard is constructed on a path that has one in scope. -/
def PathFree (s : State) : Op → Prop
  | .construct _ _ nodePath _ => ∀ b gb, s.scope b = some gb → gb.path ≠ nodePath
  | .destroy _ => True

section Step

variable {s s' : State} {id : GuardId} {zkClient : ClientId} {nodePath : Path} {value : Bytes}

/-- Whatever the result of the creation, the new guard is in scope. -/
lemma step_construct (h : step s (.construct id zkClient nodePath value) = some s') :
    id ∉ s.made ∧ s' = ⟨(createNode s.nodes id nodePath value true).1,
      Function.update s.scope id (some ⟨nodePath, zkClient⟩), id :: s.made⟩ := by
  rw [step] at h
  split at h
  · exact absurd h (by simp)
  · rename_i hmade
    exact ⟨hmade, (Option.some.inj h).symm⟩

lemma step_destroy (h : step s (.destroy id) = some s') :
    ∃ g, s.scope id = some g ∧ s' = { s with
      nodes := ZkLockGuard.destroy s.nodes g, scope := Function.update s.scope id none } := by
  simp only [step] at h
  split at h
  · exact absurd h (by simp)
  · rename_i g hg
    exact ⟨g, hg, (Option.some.inj h).symm⟩

/-- Guards in scope were made, and a node whose creator is in scope is at the path of that
guard. -/
structure Known (s : State) : Prop where
  made : ∀ a g, s.scope a = some g → a ∈ s.made
  creator_made : ∀ path node, s.nodes path = some node → node.creator ∈ s.made
  creator : ∀ path node g, s.nodes path = some node → s.scope node.creator = some g →
    g.path = path

lemma createNode_cases {nodes : Nodes} {path : Path} {node : Node}
    (h : (createNode nodes id nodePath value true).1 path = some node) :
    nodes path = some node ∨ (path = nodePath ∧ node.creator = id) := by
  unfold createNode at h
  split at h
  · exact Or.inl h
  · by_cases hpath : path = nodePath
    · have hnode : ⟨value, true, id⟩ = node := by simpa [hpath] using h
      exact Or.inr ⟨hpath, by rw [← hnode]⟩
    · exact Or.inl (by simpa [hpath] using h)

lemma destroy_cases {nodes : Nodes} {g : ZkLockGuard} {path : Path} {node : Node}
    (h : ZkLockGuard.destroy nodes g path = some node) : nodes path = some node := by
  unfold ZkLockGuard.destroy deleteNode at h
  split at h
  · by_cases hpath : path = g.path
    · simp [hpath] at h
    · simpa [hpath] using h
  · exact h

lemma Known.step {op : Op} (hs : Known s) (hstep : step s op = some s') : Known s' := by
  cases op with
  | construct id zkClient nodePath value =>
    obtain ⟨hmade, rfl⟩ := step_construct hstep
    refine ⟨fun a g hg => ?_, fun path node hnode => ?_, fun path node g hnode hg => ?_⟩
    · by_cases ha : a = id
      · simp [ha]
      · exact List.mem_cons_of_mem _ (hs.made a g (by simpa [ha] using hg))
    · rcases createNode_cases hnode with hold | ⟨-, hid⟩
      · exact List.mem_cons_of_mem _ (hs.creator_made path node hold)
      · simp [hid]
    · rcases createNode_cases hnode with hold | ⟨hpath, hid⟩
      · -- the creator of an old node is not the new guard
        have hne : node.creator ≠ id := by
          intro heq
          exact hmade (heq ▸ hs.creator_made path node hold)
        exact hs.creator path node g hold (by simpa [hne] using hg)
      · have hgpath : nodePath = g.path := by
          simpa [hid] using congrArg (Option.map ZkLockGuard.path) hg
        rw [hpath, hgpath]
  | destroy id =>
    obtain ⟨g₀, -, rfl⟩ := step_destroy hstep
    have hscope : ∀ a g, Function.update s.scope id none a = some g → s.scope a = some g := by
      intro a g hg
      by_cases ha : a = id
      · simp [ha] at hg
      · simpa [ha] using hg
    refine ⟨fun a g hg => hs.made a g (hscope a g hg), fun path node hnode => ?_,
      fun path node g hnode hg => ?_⟩
    · exact hs.creator_made path node (destroy_cases hnode)
    · exact hs.creator path node g (destroy_cases hnode) (hscope _ g hg)

lemma known_of_run {ops : List Op} (hrun : run Zookeeper.step .init ops = some s) : Known s := by
  refine run_invariant (fun s₁ op s₂ h hstep => h.step hstep) ⟨?_, ?_, ?_⟩ hrun
  · intro a g h
    simp [State.init] at h
  · intro path node h
    simp [State.init] at h
  · intro path node g h
    simp [State.init] at h

/-- A step keeps the guards exclusive exactly if the path of a new guard is free. -/
lemma exclusive_step_iff {op : Op} (hknown : Known s) (hs : Exclusive s)
    (hstep : step s op = some s') : Exclusive s' ↔ PathFree s op := by
  cases op with
  | construct id zkClient nodePath value =>
    obtain ⟨hmade, rfl⟩ := step_construct hstep
    have hnew : s.scope id = none := by
      rw [Option.eq_none_iff_forall_ne_some]
      exact fun g hg => hmade (hknown.made id g hg)
    constructor
    · intro h b gb hb hpath
      have hne : b ≠ id := by
        rintro rfl
        rw [hnew] at hb
        exact absurd hb (by simp)
      exact hne (h b id gb ⟨nodePath, zkClient⟩ (by simpa [hne] using hb) (by simp) hpath)
    · intro h a b ga gb ha hb hpath
      by_cases haid : a = id
      · by_cases hbid : b = id
        · rw [haid, hbid]
        · obtain rfl : (⟨nodePath, zkClient⟩ : ZkLockGuard) = ga := by simpa [haid] using ha
          exact absurd hpath.symm (h b gb (by simpa [hbid] using hb))
      · by_cases hbid : b = id
        · obtain rfl : (⟨nodePath, zkClient⟩ : ZkLockGuard) = gb := by simpa [hbid] using hb
          exact absurd hpath (h a ga (by simpa [haid] using ha))
        · exact hs a b ga gb (by simpa [haid] using ha) (by simpa [hbid] using hb) hpath
  | destroy id =>
    obtain ⟨g, -, rfl⟩ := step_destroy hstep
    refine iff_of_true (fun a b ga gb ha hb hpath => ?_) trivial
    have haid : a ≠ id := by
      rintro rfl
      simp at ha
    have hbid : b ≠ id := by
      rintro rfl
      simp at hb
    exact hs a b ga gb (by simpa [haid] using ha) (by simpa [hbid] using hb) hpath

/-- A guard that is alone on its path deletes no node of another one. -/
lemma Exclusive.deletesOwn (hs : Exclusive s) (hknown : Known s) (op : Op) : DeletesOwn s op := by
  cases op with
  | construct id zkClient nodePath value => trivial
  | destroy id =>
    intro g node hg hnode hne
    rw [Option.eq_none_iff_forall_ne_some]
    intro g' hg'
    have hpath : g'.path = g.path := hknown.creator g.path node g' hnode hg'
    exact hne (hs node.creator id g' g hg' hg hpath)

end Step

/-- **When the guard is a lock.**  In a run of any number of guards, at every point at most one
guard of a path is in scope and no destructor deletes a node of another guard in scope, exactly
when no guard is ever constructed on a path that has one in scope. -/
theorem guards_exclusive_iff_path_free (ops : List Op) (s : State)
    (hrun : run step .init ops = some s) :
    ((∀ pre post s₁, ops = pre ++ post → run step .init pre = some s₁ → Exclusive s₁) ∧
        ∀ pre op post s₁, ops = pre ++ op :: post → run step .init pre = some s₁ →
          DeletesOwn s₁ op) ↔
      ∀ pre op post s₁, ops = pre ++ op :: post → run step .init pre = some s₁ →
        PathFree s₁ op := by
  have hinit : Exclusive .init := fun a b ga gb ha => by simp [State.init] at ha
  have hiff := run_invariant_iff (fun pre s₁ op s₂ hpre hs hstep =>
    exclusive_step_iff (known_of_run hpre) hs hstep) hinit hrun
  refine ⟨fun h => hiff.mp h.1, fun h => ⟨hiff.mpr h, fun pre op post s₁ heq hpre => ?_⟩⟩
  exact (hiff.mpr h pre (op :: post) s₁ heq hpre).deletesOwn (known_of_run hpre) op

/-- Two clients take the lock one after the other. -/
def turnsOfTwo : List Op :=
  [.construct 1 10 (ascii "/lock") [], .destroy 1, .construct 2 20 (ascii "/lock") [], .destroy 2]

/-- Guards that follow one another exclude each other. -/
theorem turnsOfTwo_exclusive :
    ∃ s, run step .init turnsOfTwo = some s ∧
      ∀ pre post s₁, turnsOfTwo = pre ++ post → run step .init pre = some s₁ → Exclusive s₁ := by
  have hfree : Along step PathFree .init turnsOfTwo := by
    refine ⟨fun b gb hb => by simp [State.init] at hb, ?_⟩
    rintro s₁ h₁
    obtain ⟨-, rfl⟩ := step_construct h₁
    refine ⟨trivial, ?_⟩
    rintro s₂ h₂
    obtain ⟨g, -, rfl⟩ := step_destroy h₂
    refine ⟨fun b gb hb => ?_, fun s₃ h₃ => ⟨trivial, fun _ _ => trivial⟩⟩
    by_cases hb1 : b = 1
    · simp [hb1] at hb
    · simp [State.init, hb1] at hb
  exact ⟨_, rfl, ((guards_exclusive_iff_path_free turnsOfTwo _ rfl).mpr (along_iff.mp hfree)).1⟩

/-- The second guard does not get the lock and releases it nevertheless, and the third one gets
it while the first is still in scope. -/
theorem failed_guard_releases_lock :
    ∃ s₁ s₂ s₃,
      run step .init [.construct 1 10 (ascii "/lock") [], .construct 2 20 (ascii "/lock") []] =
        some s₁ ∧
      (createNode (Function.update (fun _ => none) (ascii "/lock") (some ⟨[], true, 1⟩)) 2
        (ascii "/lock") [] true).2 = .zNodeExists ∧
      s₁.nodes (ascii "/lock") = some ⟨[], true, 1⟩ ∧
      s₁.scope 1 ≠ none ∧ s₁.scope 2 ≠ none ∧ ¬ Exclusive s₁ ∧ ¬ DeletesOwn s₁ (.destroy 2) ∧
      step s₁ (.destroy 2) = some s₂ ∧ s₂.nodes (ascii "/lock") = none ∧
      step s₂ (.construct 3 30 (ascii "/lock") []) = some s₃ ∧
      s₃.nodes (ascii "/lock") = some ⟨[], true, 3⟩ ∧ s₃.scope 1 ≠ none ∧ ¬ Exclusive s₃ := by
  refine ⟨_, _, _, rfl, rfl, rfl, Option.some_ne_none _, Option.some_ne_none _, fun h => ?_,
    fun h => ?_, rfl, rfl, rfl, rfl, Option.some_ne_none _, fun h => ?_⟩
  · -- the guards 1 and 2 are both in scope
    have hsame : (1 : ℕ) = 2 := h 1 2 ⟨ascii "/lock", 10⟩ ⟨ascii "/lock", 20⟩ rfl rfl rfl
    omega
  · -- the node that guard 2 deletes is that of guard 1
    have hgone := h ⟨ascii "/lock", 20⟩ ⟨[], true, 1⟩ rfl rfl (by simp)
    exact absurd hgone (Option.some_ne_none _)
  · -- so are the guards 1 and 3 behind it
    have hsame : (1 : ℕ) = 3 := h 1 3 ⟨ascii "/lock", 10⟩ ⟨ascii "/lock", 30⟩ rfl rfl rfl
    omega

end CppServer.Zookeeper
