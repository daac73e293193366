/-
# Who releases the enumeration tree of a hand

A `handinfo_t` holds its enumeration tree by the raw pointer `rootEnumList`, which the
destructor releases and deletes unless `forswap` is set.  `copy` copies the pointer, so a
copy constructed hand, or one assigned to, shares the tree with its original; the temporary
of `swap` does so too and is marked by `forswap`.  `copy` leaves `forswap` out, so that it
stays uninitialised in a copy constructed hand.

The file runs any number of hands through construction, `Init`, copies, swaps and
destruction, and reads off with `CppServer.Lib.Ownership` exactly which runs release every
tree once.
-/
import CppServer.Games.S13s.Hand
import CppServer.Lib.Ownership

namespace CppServer.S13s

open Ownership

/-- The tree that `~handinfo_t` releases and deletes. -/
def Hand.destroy (h : Hand) : List TreeId :=
  if !h.forswap && h.rootEnumList.isSome then h.rootEnumList.toList else []

/-- The hands, which of them are alive, and the trees handed out and released so far. -/
structure HandState where
  hands : Store
  alive : ℕ → Bool
  stored : List TreeId
  released : List TreeId

/-- What can happen to the hands.  `init` gives the hand a fresh tree; the members of a copy
constructed hand are `raw` before they are copied. -/
inductive HandOp where
  | construct (n : ℕ)
  | init (n : ℕ) (tree : TreeId)
  | copyConstruct (n ref : ℕ) (raw : Hand)
  | assign (n ref : ℕ)
  | swap (a b : ℕ)
  | destroy (n : ℕ)

/-- One step.  Construction needs an object that is not alive, everything else needs live
ones, and the body of `Init` (which is not in the repository) stores a tree that was never
stored before. -/
def handStep (reset : Hand → Hand) (s : HandState) : HandOp → Option HandState
  | .construct n =>
    if s.alive n = false then
      some { s with
        hands := s.hands.construct reset (.hand n), alive := Function.update s.alive n true }
    else none
  | .init n tree =>
    if s.alive n = true ∧ tree ∉ s.stored then
      some { s with
        hands := s.hands.modify (.hand n) fun h => { h with rootEnumList := some tree }
        stored := s.stored ++ [tree] }
    else none
  | .copyConstruct n ref raw =>
    if s.alive n = false ∧ s.alive ref = true then
      some { s with
        hands := Store.copy (Function.update s.hands (.hand n) raw) (.hand n) (.hand ref)
        alive := Function.update s.alive n true }
    else none
  | .assign n ref =>
    if s.alive n = true ∧ s.alive ref = true then
      some { s with hands := s.hands.copy (.hand n) (.hand ref) }
    else none
  | .swap a b =>
    if s.alive a = true ∧ s.alive b = true then
      some { s with hands := s.hands.swap reset (.hand a) (.hand b) }
    else none
  | .destroy n =>
    if s.alive n = true then
      some { s with
        alive := Function.update s.alive n false
        released := s.released ++ (s.hands (.hand n)).destroy }
    else none

/-- Before the first hand. -/
def HandState.init : HandState := ⟨fun _ => Hand.make, fun _ => false, [], []⟩

/-! ## The pointers alone -/

/-- The hands as owners of their trees. -/
def HandState.owners (s : HandState) : Owners ℕ TreeId where
  alive := s.alive
  root n := (s.hands (.hand n)).rootEnumList
  keeps n := (s.hands (.hand n)).forswap
  stored := s.stored
  released := s.released

/-- What an operation does to the owners. -/
def HandOp.action : HandOp → Ownership.Action ℕ TreeId
  | .construct n => .create n
  | .init n tree => .give n tree
  | .copyConstruct n ref raw => .dup n ref raw.forswap
  | .assign n ref => .overwrite n ref
  | .swap a b => .exchange a b
  | .destroy n => .drop n

section Pointers

variable {reset : Hand → Hand} {m : Store} {this ref r a b : HandRef}

/-- Whether or not a hand is copied onto itself, it gets the tree of the original. -/
lemma copy_rootEnumList : (m.copy this ref this).rootEnumList = (m ref).rootEnumList := by
  by_cases h : ref = this
  · subst h
    rw [Store.copy_self, Store.modify_self]
  · rw [Store.copy_this h]
    rfl

lemma copy_forswap : (m.copy this ref this).forswap = (m this).forswap := by
  by_cases h : ref = this
  · subst h
    rw [Store.copy_self, Store.modify_self]
  · rw [Store.copy_this h]
    rfl

lemma swap_other (ha : r ≠ a) (hb : r ≠ b) (hr : r ≠ .tmp) : m.swap reset a b r = m r := by
  rw [Store.swap, Store.copy_other hb, Store.copy_other ha, Store.copy_other hr,
    Store.construct_tmp_of_ne _ hr]

/-- A hand that is swapped with itself is what it was. -/
lemma swap_self (ha : a ≠ .tmp) : m.swap reset a a a = m a := by
  rw [Store.swap, Store.copy_this ha.symm, Store.copy_other ha.symm, Store.copy_this ha,
    copy_forswap, Store.copy_other ha, Store.construct_tmp_of_ne _ ha]
  simp

/-- What is known of `handinfo_t::Reset`: a hand that was just made has no tree after it and
is not the temporary of a swap. -/
structure ResetKeeps (reset : Hand → Hand) : Prop where
  rootEnumList : (reset .make).rootEnumList = none
  forswap : (reset .make).forswap = false

/-- A member of all hands after a change of one hand in the store. -/
lemma member_update {α : Type} (f : Hand → α) {m m' : Store} {n : ℕ}
    (hother : ∀ r, r ≠ .hand n → r ≠ .tmp → m' r = m r) :
    (fun k => f (m' (.hand k))) =
      Function.update (fun k => f (m (.hand k))) n (f (m' (.hand n))) := by
  ext k
  by_cases hk : k = n
  · simp [hk]
  · simp [hk, hother (.hand k) (by simpa using hk) (by simp)]

/-- A swap changes nothing but the two hands, whose trees it exchanges. -/
lemma swap_rootEnumList (a b : ℕ) :
    (fun k => (m.swap reset (.hand a) (.hand b) (.hand k)).rootEnumList) =
      Function.update
        (Function.update (fun k => (m (.hand k)).rootEnumList) a (m (.hand b)).rootEnumList)
        b (m (.hand a)).rootEnumList := by
  have htmp : ∀ k, HandRef.hand k ≠ .tmp := by simp
  funext k
  by_cases hkb : k = b
  · subst hkb
    by_cases hka : k = a
    · subst hka
      rw [swap_self (htmp k), Function.update_self]
    · rw [Store.swap_snd (by simpa using Ne.symm hka) (htmp a) (htmp k), Function.update_self]
      rfl
  · rw [Function.update_of_ne hkb]
    by_cases hka : k = a
    · subst hka
      rw [Store.swap_fst (by simpa using hkb) (htmp k) (htmp b), Function.update_self]
      rfl
    · rw [swap_other (by simpa using hka) (by simpa using hkb) (htmp k),
        Function.update_of_ne hka]

lemma swap_forswap (a b k : ℕ) :
    (m.swap reset (.hand a) (.hand b) (.hand k)).forswap = (m (.hand k)).forswap := by
  have htmp : ∀ k, HandRef.hand k ≠ .tmp := by simp
  by_cases hka : k = a
  · subst hka
    by_cases hkb : k = b
    · subst hkb
      rw [swap_self (htmp k)]
    · rw [Store.swap_fst (by simpa using hkb) (htmp k) (htmp b), Hand.withForswap_forswap]
  · by_cases hkb : k = b
    · subst hkb
      rw [Store.swap_snd (by simpa using Ne.symm hka) (htmp a) (htmp k),
        Hand.withForswap_forswap]
    · rw [swap_other (by simpa using hka) (by simpa using hkb) (htmp k)]

lemma append_destroy (l : List TreeId) (h : Hand) :
    l ++ h.destroy = if h.forswap = false then l ++ h.rootEnumList.toList else l := by
  rw [Hand.destroy]
  cases h.forswap <;> cases h.rootEnumList <;> simp

/-- A step of the hands is a step of their pointers. -/
lemma handStep_owners (hreset : ResetKeeps reset) (s : HandState) (op : HandOp) :
    (handStep reset s op).map HandState.owners = Ownership.step s.owners op.action := by
  cases op with
  | construct n =>
    by_cases hg : s.alive n = false
    · have hother : ∀ r, r ≠ .hand n → r ≠ .tmp →
          s.hands.construct reset (.hand n) r = s.hands r :=
        fun r hr _ => Function.update_of_ne hr _ _
      have hthis : s.hands.construct reset (.hand n) (.hand n) = reset .make :=
        Function.update_self _ _ _
      simp only [handStep, HandOp.action, Ownership.step, HandState.owners, hg, if_true,
        Option.map_some, member_update Hand.rootEnumList hother,
        member_update Hand.forswap hother, hthis, hreset.rootEnumList, hreset.forswap]
    · simp [handStep, HandOp.action, Ownership.step, HandState.owners, hg]
  | init n tree =>
    by_cases hg : s.alive n = true ∧ tree ∉ s.stored
    · have hother : ∀ r, r ≠ .hand n → r ≠ .tmp →
          (s.hands.modify (.hand n) fun h => { h with rootEnumList := some tree }) r = s.hands r :=
        fun r hr _ => Store.modify_of_ne _ hr
      simp only [handStep, HandOp.action, Ownership.step, HandState.owners, hg, not_false_eq_true,
        and_self, if_true, Option.map_some, member_update Hand.rootEnumList hother,
        member_update Hand.forswap hother, Store.modify_self]
      rw [Function.update_eq_self n fun k => (s.hands (.hand k)).forswap]
    · simp [handStep, HandOp.action, Ownership.step, HandState.owners, hg]
  | copyConstruct n ref raw =>
    by_cases hg : s.alive n = false ∧ s.alive ref = true
    · have hother : ∀ r, r ≠ .hand n → r ≠ .tmp →
          Store.copy (Function.update s.hands (.hand n) raw) (.hand n) (.hand ref) r = s.hands r :=
        fun r hr _ => by rw [Store.copy_other hr, Function.update_of_ne hr]
      have hne : HandRef.hand ref ≠ .hand n := by
        rintro heq
        rw [HandRef.hand.inj heq, hg.1] at hg
        exact absurd hg.2 (by simp)
      simp only [handStep, HandOp.action, Ownership.step, HandState.owners, hg, and_self, if_true,
        Option.map_some, member_update Hand.rootEnumList hother,
        member_update Hand.forswap hother, copy_rootEnumList, copy_forswap,
        Function.update_of_ne hne, Function.update_self]
    · simp [handStep, HandOp.action, Ownership.step, HandState.owners, hg]
  | assign n ref =>
    by_cases hg : s.alive n = true ∧ s.alive ref = true
    · have hother : ∀ r, r ≠ .hand n → r ≠ .tmp →
          s.hands.copy (.hand n) (.hand ref) r = s.hands r := fun r hr _ => Store.copy_other hr
      simp only [handStep, HandOp.action, Ownership.step, HandState.owners, hg, and_self, if_true,
        Option.map_some, member_update Hand.rootEnumList hother,
        member_update Hand.forswap hother, copy_rootEnumList, copy_forswap]
      rw [Function.update_eq_self n fun k => (s.hands (.hand k)).forswap]
    · simp [handStep, HandOp.action, Ownership.step, HandState.owners, hg]
  | swap a b =>
    by_cases hg : s.alive a = true ∧ s.alive b = true
    · simp only [handStep, HandOp.action, Ownership.step, HandState.owners, hg, and_self, if_true,
        Option.map_some, swap_rootEnumList, swap_forswap]
    · simp [handStep, HandOp.action, Ownership.step, HandState.owners, hg]
  | destroy n =>
    by_cases hg : s.alive n = true
    · simp only [handStep, HandOp.action, Ownership.step, HandState.owners, hg, if_true,
        Option.map_some, append_destroy]
      rfl
    · simp [handStep, HandOp.action, Ownership.step, HandState.owners, hg]

end Pointers

/-! ## Whole runs -/

/-- Another live hand has the tree too. -/
def SharedTree (s : HandState) (n : ℕ) (tree : TreeId) : Prop :=
  ∃ k, k ≠ n ∧ s.alive k = true ∧ (s.hands (.hand k)).rootEnumList = some tree

/-- The condition on a step.  `Init` and `operator=` overwrite no pointer that is the last one
to its tree, and the destructor releases the tree exactly when no other live hand has it. -/
def SoundOp (s : HandState) : HandOp → Prop
  | .init n _ => ∀ tree, (s.hands (.hand n)).rootEnumList = some tree → SharedTree s n tree
  | .assign n ref => ∀ tree, (s.hands (.hand n)).rootEnumList = some tree →
      (s.hands (.hand ref)).rootEnumList ≠ some tree → SharedTree s n tree
  | .destroy n => ∀ tree, (s.hands (.hand n)).rootEnumList = some tree →
      ((s.hands (.hand n)).forswap = false ↔ ¬ SharedTree s n tree)
  | .construct _ | .copyConstruct _ _ _ | .swap _ _ => True

/-- No live hand names a tree that was released. -/
def NoReleasedTree (s : HandState) : Prop :=
  ∀ n tree, s.alive n = true → (s.hands (.hand n)).rootEnumList = some tree → tree ∉ s.released

lemma sound_action_iff (s : HandState) (op : HandOp) :
    Sound s.owners op.action ↔ SoundOp s op := by
  cases op <;> exact Iff.rfl

lemma noDangling_owners_iff (s : HandState) : NoDangling s.owners ↔ NoReleasedTree s :=
  ⟨fun h n tree halive hroot => h n tree ⟨halive, hroot⟩,
    fun h n tree hh => h n tree hh.1 hh.2⟩

section Runs

variable {reset : Hand → Hand} {ops : List HandOp} {s : HandState}

/-- A run of the hands is a run of their pointers. -/
lemma run_owners (hreset : ResetKeeps reset) (ops : List HandOp) :
    (run (handStep reset) .init ops).map HandState.owners =
      run Ownership.step Owners.init (ops.map HandOp.action) :=
  run_map HandState.owners HandOp.action (handStep_owners hreset) .init ops

/-- The state of the pointers after a run is that of the hands. -/
lemma eq_owners_of_run (hreset : ResetKeeps reset) {o : Owners ℕ TreeId}
    (hrun : run Ownership.step Owners.init (ops.map HandOp.action) = some o) :
    ∃ s, run (handStep reset) .init ops = some s ∧ o = s.owners := by
  rw [← run_owners hreset, Option.map_eq_some_iff] at hrun
  obtain ⟨s, hs, rfl⟩ := hrun
  exact ⟨s, hs, rfl⟩

lemma run_owners_of_run (hreset : ResetKeeps reset) (hrun : run (handStep reset) .init ops = some s) :
    run Ownership.step Owners.init (ops.map HandOp.action) = some s.owners := by
  rw [← run_owners hreset, hrun]
  rfl

lemma soundRun_map_iff (hreset : ResetKeeps reset) :
    SoundRun (ops.map HandOp.action) ↔
      ∀ pre op post s₁, ops = pre ++ op :: post →
        run (handStep reset) .init pre = some s₁ → SoundOp s₁ op := by
  constructor
  · intro h pre op post s₁ heq hrun
    rw [← sound_action_iff]
    exact h (pre.map HandOp.action) op.action (post.map HandOp.action) s₁.owners
      (by simp [heq]) (run_owners_of_run hreset hrun)
  · intro h pre' a post' o heq hrun
    obtain ⟨pre, rest, rfl, rfl, hrest⟩ := List.map_eq_append_iff.mp heq
    obtain ⟨op, post, rfl, rfl, rfl⟩ := List.map_eq_cons_iff.mp hrest
    obtain ⟨s₁, hs₁, rfl⟩ := eq_owners_of_run hreset hrun
    exact (sound_action_iff s₁ op).mpr (h pre op post s₁ rfl hs₁)

lemma releasesOnce_map_iff (hreset : ResetKeeps reset) :
    ReleasesOnce (ops.map HandOp.action) s.owners ↔
      (∀ tree ∈ s.stored, s.released.count tree = 1) ∧
        ∀ pre post s₁, ops = pre ++ post → run (handStep reset) .init pre = some s₁ →
          NoReleasedTree s₁ := by
  refine and_congr Iff.rfl ⟨?_, ?_⟩
  · intro h pre post s₁ heq hrun
    rw [← noDangling_owners_iff]
    exact h (pre.map HandOp.action) (post.map HandOp.action) s₁.owners (by simp [heq])
      (run_owners_of_run hreset hrun)
  · intro h pre' post' o heq hrun
    obtain ⟨pre, post, rfl, rfl, -⟩ := List.map_eq_append_iff.mp heq
    obtain ⟨s₁, hs₁, rfl⟩ := eq_owners_of_run hreset hrun
    exact (noDangling_owners_iff s₁).mpr (h pre post s₁ rfl hs₁)

end Runs

/-- **Which runs release every tree once.**  In a run of the hands that ends with every hand
destroyed, each tree is released exactly once and no live hand ever names a released tree,
exactly when every step meets `SoundOp` in the state in which it is taken. -/
theorem trees_released_once_iff_sound (reset : Hand → Hand) (hreset : ResetKeeps reset)
    (ops : List HandOp) (s : HandState) (hrun : run (handStep reset) .init ops = some s)
    (hend : ∀ n, s.alive n = false) :
    ((∀ tree ∈ s.stored, s.released.count tree = 1) ∧
        ∀ pre post s₁, ops = pre ++ post → run (handStep reset) .init pre = some s₁ →
          NoReleasedTree s₁) ↔
      ∀ pre op post s₁, ops = pre ++ op :: post →
        run (handStep reset) .init pre = some s₁ → SoundOp s₁ op := by
  rw [← releasesOnce_map_iff hreset, ← soundRun_map_iff hreset]
  exact releasesOnce_iff_soundRun (run_owners_of_run hreset hrun) hend

/-- A hand is given a tree and copied, and both hands are destroyed. -/
def copiedHand : List HandOp :=
  [.construct 0, .init 0 7, .copyConstruct 1 0 .make, .destroy 1, .destroy 0]

/-- The tree of a hand that was copied is released twice. -/
theorem copied_hand_releases_twice :
    ∃ s, run (handStep id) .init copiedHand = some s ∧ (∀ n, s.alive n = false) ∧
      s.stored = [7] ∧ s.released = [7, 7] ∧
      ¬ ∀ tree ∈ s.stored, s.released.count tree = 1 := by
  refine ⟨_, rfl, fun n => ?_, rfl, rfl, ?_⟩
  · match n with
    | 0 => rfl
    | 1 => rfl
    | n + 2 => rfl
  · intro h
    exact absurd (h 7 (by decide)) (by decide)

/-! ## Hands that are never copied -/

/-- The step makes no second pointer to a tree and overwrites none. -/
def PlainOp (s : HandState) : HandOp → Prop
  | .init n _ => (s.hands (.hand n)).rootEnumList = none
  | .copyConstruct _ ref raw => (s.hands (.hand ref)).rootEnumList = none ∧ raw.forswap = false
  | .assign n ref =>
      (s.hands (.hand n)).rootEnumList = none ∧ (s.hands (.hand ref)).rootEnumList = none
  | .construct _ | .swap _ _ | .destroy _ => True

lemma plain_action_iff (s : HandState) (op : HandOp) :
    Plain s.owners op.action ↔ PlainOp s op := by
  cases op <;> exact Iff.rfl

/-- Hands that are only constructed, given one tree, swapped and destroyed are sound. -/
lemma sound_of_plain {reset : Hand → Hand} (hreset : ResetKeeps reset) {ops : List HandOp}
    {s : HandState} (hrun : run (handStep reset) .init ops = some s)
    (hplain : Along (handStep reset) PlainOp .init ops) :
    ∀ pre op post s₁, ops = pre ++ op :: post →
      run (handStep reset) .init pre = some s₁ → SoundOp s₁ op := by
  rw [← soundRun_map_iff hreset]
  refine soundRun_of_plainRun (run_owners_of_run hreset hrun) fun pre' a post' o heq hrun' => ?_
  obtain ⟨pre, rest, rfl, rfl, hrest⟩ := List.map_eq_append_iff.mp heq
  obtain ⟨op, post, rfl, rfl, rfl⟩ := List.map_eq_cons_iff.mp hrest
  obtain ⟨s₁, hs₁, rfl⟩ := eq_owners_of_run hreset hrun'
  exact (plain_action_iff s₁ op).mpr (along_iff.mp hplain pre op post s₁ rfl hs₁)

/-- A hand is given a tree and swapped with another, and both are destroyed. -/
def swappedHands : List HandOp :=
  [.construct 0, .init 0 7, .construct 1, .swap 0 1, .destroy 0, .destroy 1]

lemma swappedHands_plain : Along (handStep id) PlainOp .init swappedHands := by
  refine ⟨trivial, ?_⟩
  rintro s₁ h₁
  cases h₁
  refine ⟨rfl, ?_⟩
  rintro s₂ h₂
  cases h₂
  exact ⟨trivial, fun _ _ => ⟨trivial, fun _ _ => ⟨trivial, fun _ _ => ⟨trivial, fun _ _ => trivial⟩⟩⟩⟩

/-- Its tree is released once, by the hand that got it in the swap. -/
theorem swapped_hands_release_once :
    ∃ s, run (handStep id) .init swappedHands = some s ∧ s.stored = [7] ∧ s.released = [7] ∧
      ((∀ tree ∈ s.stored, s.released.count tree = 1) ∧
        ∀ pre post s₁, swappedHands = pre ++ post → run (handStep id) .init pre = some s₁ →
          NoReleasedTree s₁) := by
  have hreset : ResetKeeps id := ⟨rfl, rfl⟩
  refine ⟨_, rfl, rfl, rfl, ?_⟩
  refine (trees_released_once_iff_sound id hreset swappedHands _ rfl fun n => ?_).mpr
    (sound_of_plain hreset rfl swappedHands_plain)
  match n with
  | 0 => rfl
  | 1 => rfl
  | n + 2 => rfl

end CppServer.S13s
