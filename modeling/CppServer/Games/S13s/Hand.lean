/-
# Copying and swapping thirteen-card hands

`handinfo_t` of `Games/Game_s13s/s13s.h` holds the groups found for a hand (`spec_groups`,
`enum_groups`, `manual_group`) and a vector `groups` of pointers to them.  `copy` transfers
every member, the pointers among them, and `swap` exchanges two hands by three copies
through a temporary.

Hands live in a store, and a pointer to a group is a location: which hand, which member,
which index.  The statements of `copy` are performed one after the other on the store, so
that a hand may be copied onto itself.  The file shows what `copy` and `swap` do to every
member, and that the pointers do not follow the groups: after `swap` the `groups` of each
hand point into the other hand.
-/
import Mathlib.Logic.Function.Basic
import CppServer.Games.S13s.Group

namespace CppServer.S13s

/-- The address of an `EnumTree`. -/
abbrev TreeId := ℕ

/-- Where a hand lives: an object of the program, or the temporary of `swap`. -/
inductive HandRef where
  | hand (id : ℕ)
  | tmp
deriving DecidableEq

/-- The members of a hand that hold groups. -/
inductive Part where
  | spec
  | enum
  | manual
deriving DecidableEq

/-- A `groupdun_t const*`. -/
structure Loc where
  hand : HandRef
  part : Part
  index : ℕ
deriving DecidableEq

/-- `classify_t`. -/
structure Classify where
  c4 : Int32
  c3 : Int32
  c2 : Int32
  dst4 : Vector (Vector UInt8 4) 3
  dst3 : Vector (Vector UInt8 4) 4
  dst2 : Vector (Vector UInt8 4) 6
  cpy : Vector UInt8 14
  cpylen : Int32
deriving DecidableEq

namespace Classify

/-- The value-initialised `classify({ 0 })`. -/
def zero : Classify where
  c4 := 0
  c3 := 0
  c2 := 0
  dst4 := Vector.replicate 3 (Vector.replicate 4 0)
  dst3 := Vector.replicate 4 (Vector.replicate 4 0)
  dst2 := Vector.replicate 6 (Vector.replicate 4 0)
  cpy := Vector.replicate 14 0
  cpylen := 0

/-- `classify_t::copy`. -/
def copy (this ref : Classify) : Classify :=
  { this with
    c4 := ref.c4
    c3 := ref.c3
    c2 := ref.c2
    cpylen := ref.cpylen
    dst4 := ref.dst4
    dst3 := ref.dst3
    dst2 := ref.dst2
    cpy := ref.cpy }

@[simp] lemma copy_eq (this ref : Classify) : this.copy ref = ref := rfl

end Classify

/-- `handinfo_t`. -/
structure Hand where
  forswap : Bool
  chairID : Int32
  spec_groups : List GroupDun
  classify : Classify
  rootEnumList : Option TreeId
  enum_groups : List GroupDun
  manual_group : GroupDun
  manual_group_index : Int32
  select_group_index : Int32
  groups : List Loc
  leafList : List (Option TreeId × Int32)
deriving DecidableEq

/-- The members before `Reset` in the default constructor. -/
def Hand.make : Hand where
  forswap := false
  chairID := -1
  spec_groups := []
  classify := .zero
  rootEnumList := none
  enum_groups := []
  manual_group := .make
  manual_group_index := -1
  select_group_index := -1
  groups := []
  leafList := []

/-- The same hand with another `forswap`, the one member that `copy` leaves out. -/
def Hand.withForswap (h : Hand) (forswap : Bool) : Hand := { h with forswap := forswap }

@[simp] lemma Hand.withForswap_withForswap (h : Hand) (x y : Bool) :
    (h.withForswap x).withForswap y = h.withForswap y := rfl

@[simp] lemma Hand.withForswap_forswap (h : Hand) (x : Bool) :
    (h.withForswap x).forswap = x := rfl

@[simp] lemma Hand.withForswap_self (h : Hand) : h.withForswap h.forswap = h := rfl

/-- A vector among the members of a hand. -/
structure Member (α : Type) where
  get : Hand → List α
  set : List α → Hand → Hand
  get_set : ∀ v h, get (set v h) = v
  set_get : ∀ h, set (get h) h = h
  set_set : ∀ v w h, set v (set w h) = set v h

namespace Member

/-- The member `spec_groups`. -/
def spec_groups : Member GroupDun :=
  ⟨Hand.spec_groups, fun v h => { h with spec_groups := v }, fun _ _ => rfl, fun _ => rfl,
    fun _ _ _ => rfl⟩

/-- The member `enum_groups`. -/
def enum_groups : Member GroupDun :=
  ⟨Hand.enum_groups, fun v h => { h with enum_groups := v }, fun _ _ => rfl, fun _ => rfl,
    fun _ _ _ => rfl⟩

/-- The member `groups`. -/
def groups : Member Loc :=
  ⟨Hand.groups, fun v h => { h with groups := v }, fun _ _ => rfl, fun _ => rfl,
    fun _ _ _ => rfl⟩

/-- The member `leafList`. -/
def leafList : Member (Option TreeId × Int32) :=
  ⟨Hand.leafList, fun v h => { h with leafList := v }, fun _ _ => rfl, fun _ => rfl,
    fun _ _ _ => rfl⟩

end Member

/-- The hands of the program. -/
abbrev Store := HandRef → Hand

namespace Store

/-- Change the hand at `this`. -/
def modify (m : Store) (this : HandRef) (f : Hand → Hand) : Store :=
  Function.update m this (f (m this))

/-- The loop that `copy` has four times: clear the vector of `this`, then push a copy of each
element of the vector of `ref`. -/
def copyVector {α : Type} (x : Member α) (clone : α → α) (m : Store) (this ref : HandRef) :
    Store :=
  let m := m.modify this (x.set [])
  (x.get (m ref)).foldl
    (fun m it => m.modify this fun h => x.set (x.get h ++ [clone it]) h) m

/-- `handinfo_t::copy` on the object `this`, statement by statement. -/
def copy (m : Store) (this ref : HandRef) : Store :=
  let m := m.modify this fun h => { h with chairID := (m ref).chairID }
  let m := m.copyVector Member.spec_groups GroupDun.copyOf this ref
  let m := m.modify this fun h => { h with classify := h.classify.copy (m ref).classify }
  let m := m.modify this fun h => { h with rootEnumList := (m ref).rootEnumList }
  let m := m.copyVector Member.enum_groups GroupDun.copyOf this ref
  let m := m.modify this fun h =>
    { h with manual_group := h.manual_group.copy (m ref).manual_group }
  let m := m.modify this fun h => { h with manual_group_index := (m ref).manual_group_index }
  let m := m.modify this fun h => { h with select_group_index := (m ref).select_group_index }
  let m := m.copyVector Member.groups id this ref
  m.copyVector Member.leafList id this ref

/-- The default constructor.  The body of `handinfo_t::Reset` is not in the repository. -/
def construct (reset : Hand → Hand) (m : Store) (this : HandRef) : Store :=
  Function.update m this (reset .make)

/-- `handinfo_t::swap`.  The destructor of the temporary finds `forswap` set and does
nothing. -/
def swap (reset : Hand → Hand) (m : Store) (src dst : HandRef) : Store :=
  let m := m.construct reset .tmp
  let m := m.modify .tmp fun h => { h with forswap := true }
  let m := m.copy .tmp src
  let m := m.copy src dst
  m.copy dst .tmp

/-! ## What `copy` does -/

section Copy

variable {m : Store} {this ref r : HandRef}

@[simp] lemma modify_self (f : Hand → Hand) : (m.modify this f) this = f (m this) := by
  simp [modify]

lemma modify_of_ne (f : Hand → Hand) (h : r ≠ this) : (m.modify this f) r = m r := by
  simp [modify, h]

@[simp] lemma modify_modify (f g : Hand → Hand) :
    (m.modify this f).modify this g = m.modify this fun h => g (f h) := by
  simp [modify]

lemma foldl_push {α : Type} (x : Member α) (clone : α → α) (l : List α) :
    l.foldl (fun m it => m.modify this fun h => x.set (x.get h ++ [clone it]) h) m =
      m.modify this fun h => x.set (x.get h ++ l.map clone) h := by
  induction l generalizing m with
  | nil => simp [modify, x.set_get]
  | cons a l ih =>
    rw [List.foldl_cons, ih, modify_modify]
    simp [x.get_set, x.set_set]

/-- Copying a vector from another hand gives this hand the elements of that one. -/
lemma copyVector_of_ne {α : Type} (x : Member α) {clone : α → α} (hclone : ∀ a, clone a = a)
    (h : ref ≠ this) :
    m.copyVector x clone this ref = m.modify this (x.set (x.get (m ref))) := by
  have hmap : ∀ l : List α, l.map clone = l := fun l => by
    rw [show clone = id from funext hclone, List.map_id]
  rw [copyVector, foldl_push, modify_modify, modify_of_ne _ h]
  simp [x.get_set, x.set_set, hmap]

/-- Copying a vector of a hand onto itself empties it. -/
lemma copyVector_self {α : Type} (x : Member α) (clone : α → α) :
    m.copyVector x clone this this = m.modify this (x.set []) := by
  rw [copyVector, modify_self, x.get_set]
  rfl

/-- A copy from another hand transfers every member except `forswap`. -/
lemma copy_of_ne (h : ref ≠ this) :
    m.copy this ref = m.modify this fun t => (m ref).withForswap t.forswap := by
  have hid : ∀ {α : Type} (a : α), id a = a := fun _ => rfl
  simp only [copy, copyVector_of_ne _ GroupDun.copyOf_eq h, copyVector_of_ne _ hid h,
    modify_modify, modify_of_ne _ h]
  rfl

lemma copy_this (h : ref ≠ this) :
    m.copy this ref this = (m ref).withForswap (m this).forswap := by
  rw [copy_of_ne h, modify_self]

/-- Copied onto itself, a hand loses its vectors. -/
lemma copy_self :
    m.copy this this = m.modify this fun t =>
      { t with spec_groups := [], enum_groups := [], groups := [], leafList := [] } := by
  simp only [copy, copyVector_self, modify_modify, modify_self]
  rfl

lemma copy_other (h : r ≠ this) : m.copy this ref r = m r := by
  by_cases href : ref = this
  · subst href
    rw [copy_self, modify_of_ne _ h]
  · rw [copy_of_ne href, modify_of_ne _ h]

end Copy

/-! ## What `swap` does -/

section Swap

variable {reset : Hand → Hand} {m : Store} {a b r : HandRef}

/-- The store in which `swap` makes its three copies: only the temporary is new. -/
lemma construct_tmp_of_ne (f : Hand → Hand) (hr : r ≠ .tmp) :
    ((m.construct reset .tmp).modify .tmp f) r = m r := by
  rw [modify_of_ne _ hr, construct, Function.update_of_ne hr]

/-- After a swap the first hand has the members of the second, except `forswap`. -/
lemma swap_fst (hab : a ≠ b) (ha : a ≠ .tmp) (hb : b ≠ .tmp) :
    m.swap reset a b a = (m b).withForswap (m a).forswap := by
  rw [swap, copy_other hab, copy_this hab.symm, copy_other hb, copy_other ha,
    construct_tmp_of_ne _ ha, construct_tmp_of_ne _ hb]

/-- After a swap the second hand has the members of the first, except `forswap`. -/
lemma swap_snd (hab : a ≠ b) (ha : a ≠ .tmp) (hb : b ≠ .tmp) :
    m.swap reset a b b = (m a).withForswap (m b).forswap := by
  rw [swap, copy_this hb.symm, copy_other ha.symm, copy_this ha, copy_other hab.symm,
    copy_other hb, construct_tmp_of_ne _ ha, construct_tmp_of_ne _ hb,
    Hand.withForswap_withForswap]

end Swap

end Store

/-! ## Pointers to groups -/

/-- The group that a pointer designates, if there is one. -/
def deref (m : Store) (p : Loc) : Option GroupDun :=
  match p.part with
  | .spec => (m p.hand).spec_groups[p.index]?
  | .enum => (m p.hand).enum_groups[p.index]?
  | .manual => if p.index = 0 then some (m p.hand).manual_group else none

/-- The group that is read through `groups[i]` of a hand. -/
def groupAt (m : Store) (r : HandRef) (i : ℕ) : Option GroupDun :=
  ((m r).groups[i]?).bind (deref m)

/-- The `groups` of a hand are pointers to groups of that same hand. -/
def OwnGroups (m : Store) (r : HandRef) : Prop :=
  ∀ p ∈ (m r).groups, p.hand = r ∧ (deref m p).isSome

/-- The two hands agree in every member that is a value. -/
structure SameValues (h h' : Hand) : Prop where
  chairID : h.chairID = h'.chairID
  spec_groups : h.spec_groups = h'.spec_groups
  classify : h.classify = h'.classify
  rootEnumList : h.rootEnumList = h'.rootEnumList
  enum_groups : h.enum_groups = h'.enum_groups
  manual_group : h.manual_group = h'.manual_group
  manual_group_index : h.manual_group_index = h'.manual_group_index
  select_group_index : h.select_group_index = h'.select_group_index
  leafList : h.leafList = h'.leafList

lemma SameValues.withForswap (h : Hand) (x : Bool) : SameValues (h.withForswap x) h :=
  ⟨rfl, rfl, rfl, rfl, rfl, rfl, rfl, rfl, rfl⟩

/-- In the store `m'` the hand `r` has the values, and shows through its pointers the groups,
that `r'` has in `m`. -/
def Shows (m m' : Store) (r r' : HandRef) : Prop :=
  SameValues (m' r) (m r') ∧ ∀ i, groupAt m' r i = groupAt m r' i

/-- What swapping two hands is for: they are exchanged as observed through every member and
every pointer, their pointers are their own, and a second swap restores them. -/
structure SwapExchanges (reset : Hand → Hand) (m : Store) (a b : HandRef) : Prop where
  fst : Shows m (m.swap reset a b) a b
  snd : Shows m (m.swap reset a b) b a
  own_fst : OwnGroups (m.swap reset a b) a
  own_snd : OwnGroups (m.swap reset a b) b
  twice_fst : Shows m ((m.swap reset a b).swap reset a b) a a
  twice_snd : Shows m ((m.swap reset a b).swap reset a b) b b

section SwapPointers

variable {reset : Hand → Hand} {m : Store} {a b : HandRef}

/-- Two swaps give each hand its old members back. -/
lemma swap_swap_fst (hab : a ≠ b) (ha : a ≠ .tmp) (hb : b ≠ .tmp) :
    (m.swap reset a b).swap reset a b a = m a := by
  rw [Store.swap_fst hab ha hb, Store.swap_snd hab ha hb, Store.swap_fst hab ha hb]
  simp

lemma swap_swap_snd (hab : a ≠ b) (ha : a ≠ .tmp) (hb : b ≠ .tmp) :
    (m.swap reset a b).swap reset a b b = m b := by
  rw [Store.swap_snd hab ha hb, Store.swap_fst hab ha hb, Store.swap_snd hab ha hb]
  simp

/-- A hand without pointers shows no group. -/
lemma groupAt_of_groups_nil {r : HandRef} (h : (m r).groups = []) (i : ℕ) :
    groupAt m r i = none := by
  simp [groupAt, h]

/-- After a swap the pointers of a hand are those of the other, and a pointer that was the
other's own is not this one's. -/
lemma groups_eq_nil_of_own (hown : OwnGroups m b) {m' : Store} (hab : a ≠ b)
    (hgroups : (m' a).groups = (m b).groups) (hown' : OwnGroups m' a) : (m b).groups = [] := by
  rw [List.eq_nil_iff_forall_not_mem]
  intro p hp
  have hb : p.hand = b := (hown p hp).1
  have ha : p.hand = a := (hown' p (by rw [hgroups]; exact hp)).1
  exact hab (ha.symm.trans hb)

end SwapPointers

/-- **When `swap` exchanges two hands.**  For two distinct hands whose `groups` are pointers
to their own groups, `handinfo_t::swap` does what it is for exactly when neither hand has a
pointer. -/
theorem swap_exchanges_iff_groups_empty (reset : Hand → Hand) (m : Store) (a b : ℕ)
    (hab : a ≠ b) (hown_a : OwnGroups m (.hand a)) (hown_b : OwnGroups m (.hand b)) :
    SwapExchanges reset m (.hand a) (.hand b) ↔
      (m (.hand a)).groups = [] ∧ (m (.hand b)).groups = [] := by
  have hne : HandRef.hand a ≠ HandRef.hand b := fun h => hab (HandRef.hand.inj h)
  have ha : HandRef.hand a ≠ .tmp := by simp
  have hb : HandRef.hand b ≠ .tmp := by simp
  have hfst : m.swap reset (.hand a) (.hand b) (.hand a) =
      (m (.hand b)).withForswap (m (.hand a)).forswap := Store.swap_fst hne ha hb
  have hsnd : m.swap reset (.hand a) (.hand b) (.hand b) =
      (m (.hand a)).withForswap (m (.hand b)).forswap := Store.swap_snd hne ha hb
  have hfst' : (m.swap reset (.hand a) (.hand b)).swap reset (.hand a) (.hand b) (.hand a) =
      m (.hand a) := swap_swap_fst hne ha hb
  have hsnd' : (m.swap reset (.hand a) (.hand b)).swap reset (.hand a) (.hand b) (.hand b) =
      m (.hand b) := swap_swap_snd hne ha hb
  constructor
  · intro h
    exact ⟨groups_eq_nil_of_own hown_a hne.symm (by rw [hsnd]; rfl) h.own_snd,
      groups_eq_nil_of_own hown_b hne (by rw [hfst]; rfl) h.own_fst⟩
  · rintro ⟨hga, hgb⟩
    have hga' : (m.swap reset (.hand a) (.hand b) (.hand a)).groups = [] := by rw [hfst]; exact hgb
    have hgb' : (m.swap reset (.hand a) (.hand b) (.hand b)).groups = [] := by rw [hsnd]; exact hga
    constructor
    · refine ⟨by rw [hfst]; exact SameValues.withForswap _ _, fun i => ?_⟩
      rw [groupAt_of_groups_nil hga', groupAt_of_groups_nil hgb]
    · refine ⟨by rw [hsnd]; exact SameValues.withForswap _ _, fun i => ?_⟩
      rw [groupAt_of_groups_nil hgb', groupAt_of_groups_nil hga]
    · intro p hp
      rw [hga'] at hp
      exact absurd hp (by simp)
    · intro p hp
      rw [hgb'] at hp
      exact absurd hp (by simp)
    · refine ⟨by rw [hfst']; exact SameValues.withForswap _ _, fun i => ?_⟩
      rw [groupAt_of_groups_nil (by rw [hfst']; exact hga), groupAt_of_groups_nil hga]
    · refine ⟨by rw [hsnd']; exact SameValues.withForswap _ _, fun i => ?_⟩
      rw [groupAt_of_groups_nil (by rw [hsnd']; exact hgb), groupAt_of_groups_nil hgb]

/-- Two hands of chairs 1 and 2, each with its manual group selected. -/
def manualHands : Store := fun r =>
  match r with
  | .hand 0 => { Hand.make with
      chairID := 1, manual_group := { GroupDun.make with chairID := 1 }
      manual_group_index := 0, select_group_index := 0, groups := [⟨.hand 0, .manual, 0⟩] }
  | .hand 1 => { Hand.make with
      chairID := 2, manual_group := { GroupDun.make with chairID := 2 }
      manual_group_index := 0, select_group_index := 0, groups := [⟨.hand 1, .manual, 0⟩] }
  | _ => Hand.make

/-- The pointer of each of the two hands is its own. -/
lemma ownGroups_manualHands :
    OwnGroups manualHands (.hand 0) ∧ OwnGroups manualHands (.hand 1) := by
  constructor
  · intro p hp
    obtain rfl : p = ⟨.hand 0, .manual, 0⟩ := by simpa [manualHands] using hp
    exact ⟨rfl, rfl⟩
  · intro p hp
    obtain rfl : p = ⟨.hand 1, .manual, 0⟩ := by simpa [manualHands] using hp
    exact ⟨rfl, rfl⟩

/-- After the swap the selected group of the first hand is not the one the second had
selected, but the one the first hand had before. -/
theorem swap_manual_hands :
    OwnGroups manualHands (.hand 0) ∧ OwnGroups manualHands (.hand 1) ∧
      groupAt (manualHands.swap id (.hand 0) (.hand 1)) (.hand 0) 0 =
        groupAt manualHands (.hand 0) 0 ∧
      groupAt manualHands (.hand 0) 0 ≠ groupAt manualHands (.hand 1) 0 ∧
      ¬ SwapExchanges id manualHands (.hand 0) (.hand 1) := by
  have hread : groupAt (manualHands.swap id (.hand 0) (.hand 1)) (.hand 0) 0 =
      groupAt manualHands (.hand 0) 0 := by
    rfl
  have hdiff : groupAt manualHands (.hand 0) 0 ≠ groupAt manualHands (.hand 1) 0 := by
    decide
  obtain ⟨hown₀, hown₁⟩ := ownGroups_manualHands
  exact ⟨hown₀, hown₁, hread, hdiff, fun h => hdiff (hread.symm.trans (h.fst.2 0))⟩

/-- Two hands of chairs 1 and 2 whose groups were found but not merged into `groups` yet: they
differ in every member that is a value. -/
def foundHands : Store := fun r =>
  match r with
  | .hand 0 => { Hand.make with
      chairID := 1, spec_groups := [{ GroupDun.make with chairID := 1 }]
      classify := { Classify.zero with c2 := 2 }, rootEnumList := some 7
      manual_group := { GroupDun.make with chairID := 1 }, manual_group_index := 0
      select_group_index := 0, leafList := [(some 7, 3)] }
  | .hand 1 => { Hand.make with
      chairID := 2, enum_groups := [{ GroupDun.make with chairID := 2 }]
      classify := { Classify.zero with c3 := 1 }, rootEnumList := some 8
      manual_group := { GroupDun.make with chairID := 2 }, leafList := [(some 8, 0), (some 8, 1)] }
  | _ => Hand.make

/-- Two hands without pointers are exchanged, two hands with pointers are not. -/
theorem swap_found_and_manual_hands :
    SwapExchanges id foundHands (.hand 0) (.hand 1) ∧
      ¬ SameValues (foundHands (.hand 0)) (foundHands (.hand 1)) ∧
      ¬ SwapExchanges id manualHands (.hand 0) (.hand 1) := by
  obtain ⟨hown₀, hown₁⟩ := ownGroups_manualHands
  refine ⟨?_, fun hsame => absurd hsame.chairID (by decide), fun hswap => ?_⟩
  · exact (swap_exchanges_iff_groups_empty id foundHands 0 1 (by decide)
      (by simp [OwnGroups, foundHands, Hand.make])
      (by simp [OwnGroups, foundHands, Hand.make])).mpr ⟨rfl, rfl⟩
  · have hnil := (swap_exchanges_iff_groups_empty id manualHands 0 1 (by decide) hown₀ hown₁).mp hswap
    exact absurd hnil.1 (by simp [manualHands])

end CppServer.S13s
