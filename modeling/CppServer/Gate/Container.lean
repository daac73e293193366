/-
# How many nodes are in service

`Container` of `Framework/game_gate/clients/Container.h` knows the nodes of one kind that are
connected (its `Connector`) and those under repair (its `Repair`), and says how many nodes are
in service: the number of the former less the number of the latter.  The two sets are updated
independently of each other.  The same code stands in `rpc/client/RpcContainer.h`.

The bodies of `Connector` are not in the repository.  Its nodes are a set of names, and `count`
and `exists` are the size of that set and membership in it.
-/
import Mathlib.Data.Finset.Card
import CppServer.Lib.Bytes
import CppServer.Lib.Run

namespace CppServer.Gate

/-- A set of names in the memory of a program, which has less than `2 ^ 63` members. -/
structure Names where
  elems : Finset Bytes
  card_lt : elems.card < 2 ^ 63

namespace Names

/-- No names. -/
def empty : Names := ⟨∅, by decide⟩

/-- A name more.  The allocation throws if there is no room. -/
def insert (s : Names) (name : Bytes) : Option Names :=
  if h : (Insert.insert name s.elems).card < 2 ^ 63 then some ⟨Insert.insert name s.elems, h⟩
  else none

/-- A name less. -/
def erase (s : Names) (name : Bytes) : Names :=
  ⟨s.elems.erase name, lt_of_le_of_lt (Finset.card_erase_le) s.card_lt⟩

lemma insert_eq_some {s s' : Names} {name : Bytes} (h : s.insert name = some s') :
    s'.elems = Insert.insert name s.elems := by
  unfold insert at h
  split at h
  · rw [← Option.some.inj h]
  · exact absurd h (by simp)

@[simp] lemma elems_erase (s : Names) (name : Bytes) :
    (s.erase name).elems = s.elems.erase name := rfl

end Names

/-- `Repair`, with the keys of its map. -/
structure Repair where
  names_ : Names

namespace Repair

/-- `Repair::add`. -/
def add (ndebug : Bool) (s : Repair) (name : Bytes) : Option Repair := do
  cassert ndebug (name ∉ s.names_.elems)
  return ⟨← s.names_.insert name⟩

/-- `Repair::remove`. -/
def remove (s : Repair) (name : Bytes) : Repair :=
  if name ∈ s.names_.elems then ⟨s.names_.erase name⟩ else s

/-- `Repair::exist`. -/
def exist (s : Repair) (name : Bytes) : Bool := name ∈ s.names_.elems

/-- `Repair::count`. -/
def count (s : Repair) : ℕ := s.names_.elems.card

end Repair

/-- `Connector`, with the names of the nodes that are connected. -/
structure Connector where
  names : Names

namespace Connector

/-- `Connector::exists`. -/
def exists_ (s : Connector) (name : Bytes) : Bool := name ∈ s.names.elems

/-- `Connector::count`. -/
def count (s : Connector) : ℕ := s.names.elems.card

end Connector

/-- `Container`. -/
structure Container where
  clients_ : Connector
  repair_ : Repair

namespace Container

/-- The container before the first event. -/
def make : Container := ⟨⟨.empty⟩, ⟨.empty⟩⟩

/-- `Container::exist`. -/
def exist (s : Container) (name : Bytes) : Bool := s.clients_.exists_ name

/-- `Container::count`. -/
def count (s : Container) : ℕ := s.clients_.count

/-- `Container::repair`. -/
def repair (ndebug : Bool) (s : Container) (name : Bytes) : Option Container :=
  (s.repair_.add ndebug name).map fun r => { s with repair_ := r }

/-- `Container::recover`. -/
def recover (s : Container) (name : Bytes) : Container :=
  { s with repair_ := s.repair_.remove name }

/-- `Container::isRepairing`. -/
def isRepairing (s : Container) (name : Bytes) : Bool := s.repair_.exist name

/-- `Container::remaining`: a difference of `size_t`s that is returned as a `ssize_t`. -/
def remaining (s : Container) : ℤ := cssize ((s.clients_.count : ℤ) - (s.repair_.count : ℤ))

end Container

/-- What can happen to the nodes. -/
inductive NodeOp where
  | connect (name : Bytes)
  | disconnect (name : Bytes)
  | repair (name : Bytes)
  | recover (name : Bytes)
deriving DecidableEq

/-- One step. -/
def nodeStep (ndebug : Bool) (s : Container) : NodeOp → Option Container
  | .connect name => (s.clients_.names.insert name).map fun c => { s with clients_ := ⟨c⟩ }
  | .disconnect name => some { s with clients_ := ⟨s.clients_.names.erase name⟩ }
  | .repair name => s.repair ndebug name
  | .recover name => some (s.recover name)

/-- The connected nodes that are not under repair. -/
def Container.serving (s : Container) : Finset Bytes :=
  s.clients_.names.elems.filter fun name => s.isRepairing name = false

/-- `remaining` is what its comment says: the number of the nodes in service. -/
structure Counts (s : Container) : Prop where
  remaining_eq : s.remaining = s.serving.card
  nonneg : 0 ≤ s.remaining
  eq_zero_iff : s.remaining = 0 ↔
    ∀ name, s.exist name = true → s.isRepairing name = true

/-- The condition on a step: a node that disconnects is not under repair, and one that goes
under repair is connected. -/
def InService (s : Container) : NodeOp → Prop
  | .disconnect name => s.isRepairing name = false
  | .repair name => s.exist name = true
  | .connect _ | .recover _ => True

instance (s : Container) : ∀ op, Decidable (InService s op)
  | .disconnect _ | .repair _ => inferInstanceAs (Decidable (_ = _))
  | .connect _ | .recover _ => isTrue trivial

section Count

variable {s s' : Container}

/-- Every node under repair is connected. -/
def RepairConnected (s : Container) : Prop :=
  s.repair_.names_.elems ⊆ s.clients_.names.elems

lemma serving_eq_sdiff (s : Container) :
    s.serving = s.clients_.names.elems \ s.repair_.names_.elems := by
  ext name
  simp [Container.serving, Container.isRepairing, Repair.exist]

/-- Without an overflow the difference is that of the numbers. -/
lemma remaining_eq_sub (s : Container) :
    s.remaining = (s.clients_.names.elems.card : ℤ) - s.repair_.names_.elems.card := by
  have h₁ := s.clients_.names.card_lt
  have h₂ := s.repair_.names_.card_lt
  exact cssize_of_range (by simp only [Connector.count, Repair.count]; omega)
    (by simp only [Connector.count, Repair.count]; omega)

/-- The difference of the sizes is the size of the difference exactly for a subset. -/
lemma remaining_eq_card_serving_iff : s.remaining = s.serving.card ↔ RepairConnected s := by
  have hsplit := Finset.card_sdiff_add_card_inter s.clients_.names.elems s.repair_.names_.elems
  have hinter := Finset.card_le_card
    (Finset.inter_subset_right : s.clients_.names.elems ∩ s.repair_.names_.elems ⊆ _)
  rw [remaining_eq_sub, serving_eq_sdiff]
  constructor
  · intro h
    have hcard : s.repair_.names_.elems.card ≤
        (s.clients_.names.elems ∩ s.repair_.names_.elems).card := by omega
    have heq := Finset.eq_of_subset_of_card_le Finset.inter_subset_right hcard
    rw [RepairConnected, ← heq]
    exact Finset.inter_subset_left
  · intro h
    rw [Finset.inter_eq_right.mpr h] at hsplit
    omega

lemma counts_iff : Counts s ↔ RepairConnected s := by
  rw [← remaining_eq_card_serving_iff]
  refine ⟨Counts.remaining_eq, fun h => ⟨h, by omega, ?_⟩⟩
  rw [h, Int.natCast_eq_zero, Finset.card_eq_zero, Finset.eq_empty_iff_forall_notMem]
  simp [Container.serving, Container.exist, Connector.exists_]

/-- A step keeps the nodes under repair connected exactly if it meets the condition. -/
lemma repairConnected_step_iff {ndebug : Bool} {op : NodeOp} (hs : RepairConnected s)
    (hstep : nodeStep ndebug s op = some s') : RepairConnected s' ↔ InService s op := by
  cases op with
  | connect name =>
    obtain ⟨c, hc, rfl⟩ := Option.map_eq_some_iff.mp hstep
    refine iff_of_true ?_ trivial
    show s.repair_.names_.elems ⊆ c.elems
    rw [Names.insert_eq_some hc]
    exact hs.trans (Finset.subset_insert _ _)
  | disconnect name =>
    obtain rfl := Option.some.inj hstep
    show s.repair_.names_.elems ⊆ s.clients_.names.elems.erase name ↔ _
    rw [Finset.subset_erase, InService, Container.isRepairing, Repair.exist, decide_eq_false_iff_not]
    exact and_iff_right hs
  | repair name =>
    obtain ⟨r, hr, rfl⟩ := Option.map_eq_some_iff.mp hstep
    obtain ⟨-, -, hr⟩ := Option.bind_eq_some_iff.mp hr
    obtain ⟨names, hnames, hr⟩ := Option.bind_eq_some_iff.mp hr
    obtain rfl := Option.some.inj hr
    show names.elems ⊆ s.clients_.names.elems ↔ _
    rw [Names.insert_eq_some hnames, Finset.insert_subset_iff, InService, Container.exist,
      Connector.exists_, decide_eq_true_eq]
    exact and_iff_left hs
  | recover name =>
    obtain rfl := Option.some.inj hstep
    refine iff_of_true ?_ trivial
    show (s.repair_.remove name).names_.elems ⊆ s.clients_.names.elems
    rw [Repair.remove]
    split
    · exact (Finset.erase_subset _ _).trans hs
    · exact hs

end Count

/-- **When `remaining` counts the nodes in service.**  At every point of a run it is the number
of the connected nodes that are not under repair, exactly when no node disconnects while it is
under repair and none goes under repair while it is not connected. -/
theorem remaining_counts_iff_in_service (ndebug : Bool) (ops : List NodeOp) (s : Container)
    (hrun : run (nodeStep ndebug) .make ops = some s) :
    (∀ pre post s₁, ops = pre ++ post → run (nodeStep ndebug) .make pre = some s₁ → Counts s₁) ↔
      ∀ pre op post s₁, ops = pre ++ op :: post →
        run (nodeStep ndebug) .make pre = some s₁ → InService s₁ op := by
  simp only [counts_iff]
  refine run_invariant_iff ?_ (Finset.Subset.refl _) hrun
  intro _ s₁ op s₂ _ hs hstep
  exact repairConnected_step_iff hs hstep

/-- A node connects, goes under repair, recovers and disconnects. -/
def repairedNode : List NodeOp :=
  [.connect (ascii "a"), .repair (ascii "a"), .recover (ascii "a"), .disconnect (ascii "a")]

/-- Such a node is counted. -/
theorem remaining_of_repaired_node :
    ∃ s, run (nodeStep false) .make repairedNode = some s ∧ Counts s := by
  have halong : Along (nodeStep false) InService .make repairedNode := by decide
  refine ⟨_, rfl, ?_⟩
  exact (remaining_counts_iff_in_service false repairedNode _ rfl).mpr (along_iff.mp halong)
    repairedNode [] _ (List.append_nil _).symm rfl

/-- A node that drops while it is under repair is taken off twice. -/
theorem remaining_of_dropped_node :
    ∃ s, run (nodeStep false) .make [.connect (ascii "a"), .repair (ascii "a"),
        .disconnect (ascii "a")] = some s ∧ s.remaining = -1 ∧ s.serving = ∅ ∧ ¬ Counts s := by
  refine ⟨_, rfl, rfl, rfl, fun h => ?_⟩
  exact absurd h.nonneg (by decide)

end CppServer.Gate
