/-
# Raw owning pointers

A number of handles each hold at most one resource by a plain pointer.  A handle that is
dropped releases the resource it holds unless it is marked not to.  Handles are copied by
copying the pointer, so several may hold one resource; which of them releases it, and
whether any does, depends on the order of copies and drops.

The file gives the condition on single steps (`Sound`) under which every resource is
released exactly once and no handle in use holds a released one, and shows that the
condition is exact for runs in which all handles are dropped at the end.
-/
import Mathlib.Data.List.Nodup
import Mathlib.Logic.Equiv.Basic
import CppServer.Lib.Run

namespace CppServer.Ownership

/-- Handles, and the resources that were handed out and released so far.  `H` are the
handles, `T` the resources. -/
@[ext] structure Owners (H T : Type) where
  /-- The handles in use. -/
  alive : H → Bool
  /-- The resource that a handle holds. -/
  root : H → Option T
  /-- The handles that release nothing when they are dropped. -/
  keeps : H → Bool
  stored : List T
  released : List T

/-- What can happen to the handles. -/
inductive Action (H T : Type) where
  /-- A new handle that holds nothing. -/
  | create (h : H)
  /-- A handle is given a new resource, and forgets the one it held. -/
  | give (h : H) (t : T)
  /-- A new handle holds what `ref` holds; its mark is arbitrary. -/
  | dup (h ref : H) (keeps : Bool)
  /-- A handle takes the pointer of another and forgets its own. -/
  | overwrite (h ref : H)
  /-- Two handles exchange their pointers. -/
  | exchange (a b : H)
  /-- The end of a handle. -/
  | drop (h : H)

variable {H T : Type} [DecidableEq H] [DecidableEq T]

/-- One step: new handles were not in use, all others are, and a resource is new when it is
handed out. -/
def step (s : Owners H T) : Action H T → Option (Owners H T)
  | .create h =>
    if s.alive h = false then
      some { s with
        alive := Function.update s.alive h true
        root := Function.update s.root h none
        keeps := Function.update s.keeps h false }
    else none
  | .give h t =>
    if s.alive h = true ∧ t ∉ s.stored then
      some { s with root := Function.update s.root h (some t), stored := s.stored ++ [t] }
    else none
  | .dup h ref keeps =>
    if s.alive h = false ∧ s.alive ref = true then
      some { s with
        alive := Function.update s.alive h true
        root := Function.update s.root h (s.root ref)
        keeps := Function.update s.keeps h keeps }
    else none
  | .overwrite h ref =>
    if s.alive h = true ∧ s.alive ref = true then
      some { s with root := Function.update s.root h (s.root ref) }
    else none
  | .exchange a b =>
    if s.alive a = true ∧ s.alive b = true then
      some { s with
        root := Function.update (Function.update s.root a (s.root b)) b (s.root a) }
    else none
  | .drop h =>
    if s.alive h = true then
      some { s with
        alive := Function.update s.alive h false
        released := if s.keeps h = false then s.released ++ (s.root h).toList else s.released }
    else none

/-- Before the first handle. -/
def Owners.init : Owners H T := ⟨fun _ => false, fun _ => none, fun _ => false, [], []⟩

/-- A handle in use holds the resource. -/
def Holds (s : Owners H T) (h : H) (t : T) : Prop := s.alive h = true ∧ s.root h = some t

/-- Some other handle in use holds the resource too. -/
def Shared (s : Owners H T) (h : H) (t : T) : Prop := ∃ k, k ≠ h ∧ Holds s k t

/-- The condition on a step: a handle that releases its resource is the only one that holds
it, and a handle that forgets its resource without releasing it is not the only one. -/
def Sound (s : Owners H T) : Action H T → Prop
  | .give h _ => ∀ t, s.root h = some t → Shared s h t
  | .overwrite h ref => ∀ t, s.root h = some t → s.root ref ≠ some t → Shared s h t
  | .drop h => ∀ t, s.root h = some t → (s.keeps h = false ↔ ¬ Shared s h t)
  | _ => True

/-- No handle in use holds a released resource. -/
def NoDangling (s : Owners H T) : Prop := ∀ h t, Holds s h t → t ∉ s.released

section Step

variable {s s' : Owners H T} {a : Action H T} {h k ref : H} {t : T}

lemma step_create : step s (.create h) = some s' ↔ s.alive h = false ∧
    { s with
      alive := Function.update s.alive h true
      root := Function.update s.root h none
      keeps := Function.update s.keeps h false } = s' := by
  simp [step]

lemma step_give : step s (.give h t) = some s' ↔ (s.alive h = true ∧ t ∉ s.stored) ∧
    { s with root := Function.update s.root h (some t), stored := s.stored ++ [t] } = s' := by
  simp [step]

lemma step_dup {b : Bool} :
    step s (.dup h ref b) = some s' ↔ (s.alive h = false ∧ s.alive ref = true) ∧
      { s with
        alive := Function.update s.alive h true
        root := Function.update s.root h (s.root ref)
        keeps := Function.update s.keeps h b } = s' := by
  simp [step]

lemma step_overwrite :
    step s (.overwrite h ref) = some s' ↔ (s.alive h = true ∧ s.alive ref = true) ∧
      { s with root := Function.update s.root h (s.root ref) } = s' := by
  simp [step]

lemma step_exchange :
    step s (.exchange h k) = some s' ↔ (s.alive h = true ∧ s.alive k = true) ∧
      { s with
        root := Function.update (Function.update s.root h (s.root k)) k (s.root h) } = s' := by
  simp [step]

lemma step_drop : step s (.drop h) = some s' ↔ s.alive h = true ∧
    { s with
      alive := Function.update s.alive h false
      released := if s.keeps h = false then s.released ++ (s.root h).toList
        else s.released } = s' := by
  simp [step]

/-- After a step a resource is held only if it was held before or is handed out by it. -/
lemma holds_of_step (hstep : step s a = some s') (hk : Holds s' k t) :
    (∃ k', Holds s k' t) ∨ a = .give k t := by
  obtain ⟨halive, hroot⟩ := hk
  cases a with
  | create h =>
    obtain ⟨-, rfl⟩ := step_create.mp hstep
    by_cases hkh : k = h
    · simp [hkh] at hroot
    · exact Or.inl ⟨k, by simpa [hkh] using halive, by simpa [hkh] using hroot⟩
  | give h t' =>
    obtain ⟨-, rfl⟩ := step_give.mp hstep
    by_cases hkh : k = h
    · subst hkh
      obtain rfl : t' = t := by simpa using hroot
      exact Or.inr rfl
    · exact Or.inl ⟨k, halive, by simpa [hkh] using hroot⟩
  | dup h ref keeps =>
    obtain ⟨hg, rfl⟩ := step_dup.mp hstep
    by_cases hkh : k = h
    · subst hkh
      exact Or.inl ⟨ref, hg.2, by simpa using hroot⟩
    · exact Or.inl ⟨k, by simpa [hkh] using halive, by simpa [hkh] using hroot⟩
  | overwrite h ref =>
    obtain ⟨hg, rfl⟩ := step_overwrite.mp hstep
    by_cases hkh : k = h
    · subst hkh
      exact Or.inl ⟨ref, hg.2, by simpa using hroot⟩
    · exact Or.inl ⟨k, halive, by simpa [hkh] using hroot⟩
  | exchange a b =>
    obtain ⟨hg, rfl⟩ := step_exchange.mp hstep
    by_cases hkb : k = b
    · subst hkb
      exact Or.inl ⟨a, hg.1, by simpa using hroot⟩
    · by_cases hka : k = a
      · subst hka
        exact Or.inl ⟨b, hg.2, by simpa [hkb] using hroot⟩
      · exact Or.inl ⟨k, halive, by simpa [hka, hkb] using hroot⟩
  | drop h =>
    obtain ⟨-, rfl⟩ := step_drop.mp hstep
    by_cases hkh : k = h
    · simp [hkh] at halive
    · exact Or.inl ⟨k, by simpa [hkh] using halive, hroot⟩

/-- A step hands out only new resources. -/
lemma not_mem_stored_of_give (hstep : step s (.give h t) = some s') : t ∉ s.stored :=
  (step_give.mp hstep).1.2

/-- Only a drop releases anything, and it releases the resource that it held. -/
lemma released_of_step (hstep : step s a = some s') :
    s'.released = s.released ∨
      ∃ h t, a = .drop h ∧ Holds s h t ∧ s.keeps h = false ∧ s'.released = s.released ++ [t] := by
  cases a with
  | create h | give h t' | dup h ref keeps | overwrite h ref | exchange a b =>
    simp only [step, Option.ite_none_right_eq_some, Option.some.injEq] at hstep
    obtain ⟨-, rfl⟩ := hstep
    exact Or.inl rfl
  | drop h =>
    obtain ⟨hg, rfl⟩ := step_drop.mp hstep
    by_cases hkeep : s.keeps h = false
    · cases hroot : s.root h with
      | none => exact Or.inl (by simp)
      | some t => exact Or.inr ⟨h, t, rfl, ⟨hg, hroot⟩, hkeep, by simp [hkeep]⟩
    · exact Or.inl (by simp [hkeep])

/-- The resources handed out so far grow by the one that the step hands out. -/
lemma stored_of_step (hstep : step s a = some s') :
    s'.stored = s.stored ∨ ∃ h t, a = .give h t ∧ Holds s' h t ∧ s'.stored = s.stored ++ [t] := by
  cases a with
  | create h | dup h ref keeps | overwrite h ref | exchange a b | drop h =>
    simp only [step, Option.ite_none_right_eq_some, Option.some.injEq] at hstep
    obtain ⟨-, rfl⟩ := hstep
    exact Or.inl rfl
  | give h t =>
    obtain ⟨hg, rfl⟩ := step_give.mp hstep
    exact Or.inr ⟨h, t, rfl, ⟨hg.1, by simp⟩, rfl⟩

end Step

/-! ## Resources come from the store -/

/-- Whatever is held or released was handed out. -/
structure Known (s : Owners H T) : Prop where
  held : ∀ h t, Holds s h t → t ∈ s.stored
  released : ∀ t ∈ s.released, t ∈ s.stored

lemma stored_subset_of_step {s s' : Owners H T} {a : Action H T}
    (hstep : step s a = some s') : ∀ t ∈ s.stored, t ∈ s'.stored := by
  intro t ht
  rcases stored_of_step hstep with hst | ⟨_, _, -, -, hst⟩
  · rw [hst]
    exact ht
  · rw [hst]
    exact List.mem_append_left _ ht

lemma Known.step {s s' : Owners H T} {a : Action H T} (hs : Known s)
    (hstep : step s a = some s') : Known s' := by
  refine ⟨fun k t hk => ?_, fun t ht => ?_⟩
  · rcases holds_of_step hstep hk with ⟨k', hk'⟩ | rfl
    · exact stored_subset_of_step hstep t (hs.held k' t hk')
    · obtain ⟨-, rfl⟩ := step_give.mp hstep
      simp
  · rcases released_of_step hstep with hrel | ⟨h, t', -, hh, -, hrel⟩
    · rw [hrel] at ht
      exact stored_subset_of_step hstep t (hs.released t ht)
    · rw [hrel] at ht
      rcases List.mem_append.mp ht with ht | ht
      · exact stored_subset_of_step hstep t (hs.released t ht)
      · rw [List.mem_singleton.mp ht]
        exact stored_subset_of_step hstep t' (hs.held h t' hh)

lemma known_of_run {s : Owners H T} {as : List (Action H T)}
    (hrun : run step Owners.init as = some s) : Known s := by
  refine run_invariant (fun s₁ a s₂ h hstep => h.step hstep) ⟨?_, ?_⟩ hrun
  · rintro h t ⟨halive, -⟩
    exact absurd halive (by simp [Owners.init])
  · intro t ht
    exact absurd ht (by simp [Owners.init])

/-! ## Sound steps -/

/-- Nothing released is held, nothing is released twice, and what was handed out is held or
released. -/
structure Settled (s : Owners H T) : Prop where
  noDangling : NoDangling s
  nodup : s.released.Nodup
  accounted : ∀ t ∈ s.stored, t ∈ s.released ∨ ∃ h, Holds s h t

section Sound

variable {s s' : Owners H T} {a : Action H T} {h : H} {t : T}

/-- A sound step loses no resource that was held. -/
lemma holder_of_sound_step (hstep : step s a = some s') (hsound : Sound s a) (hh : Holds s h t) :
    t ∈ s'.released ∨ ∃ k, Holds s' k t := by
  obtain ⟨halive, hroot⟩ := hh
  cases a with
  | create h' =>
    obtain ⟨hg, rfl⟩ := step_create.mp hstep
    have hne : h ≠ h' := fun heq => by simp [heq, hg] at halive
    exact Or.inr ⟨h, by simp [hne, halive], by simp [hne, hroot]⟩
  | give h' t' =>
    obtain ⟨hg, rfl⟩ := step_give.mp hstep
    by_cases hne : h = h'
    · subst hne
      obtain ⟨k, hk, hka, hkr⟩ := hsound t hroot
      exact Or.inr ⟨k, hka, by simp [hk, hkr]⟩
    · exact Or.inr ⟨h, halive, by simp [hne, hroot]⟩
  | dup h' ref keeps =>
    obtain ⟨hg, rfl⟩ := step_dup.mp hstep
    have hne : h ≠ h' := fun heq => by simp [heq, hg.1] at halive
    exact Or.inr ⟨h, by simp [hne, halive], by simp [hne, hroot]⟩
  | overwrite h' ref =>
    obtain ⟨hg, rfl⟩ := step_overwrite.mp hstep
    by_cases hne : h = h'
    · subst hne
      by_cases href : s.root ref = some t
      · exact Or.inr ⟨h, halive, by simp [href]⟩
      · obtain ⟨k, hk, hka, hkr⟩ := hsound t hroot href
        exact Or.inr ⟨k, hka, by simp [hk, hkr]⟩
    · exact Or.inr ⟨h, halive, by simp [hne, hroot]⟩
  | exchange a b =>
    obtain ⟨hg, rfl⟩ := step_exchange.mp hstep
    by_cases hha : h = a
    · subst hha
      exact Or.inr ⟨b, hg.2, by simp [hroot]⟩
    · by_cases hhb : h = b
      · subst hhb
        exact Or.inr ⟨a, hg.1, by simp [Ne.symm hha, hroot]⟩
      · exact Or.inr ⟨h, halive, by simp [hha, hhb, hroot]⟩
  | drop h' =>
    obtain ⟨hg, rfl⟩ := step_drop.mp hstep
    by_cases hne : h = h'
    · subst hne
      by_cases hkeep : s.keeps h = false
      · exact Or.inl (by simp [hkeep, hroot])
      · obtain ⟨k, hk, hka, hkr⟩ : Shared s h t := by
          by_contra hns
          exact hkeep ((hsound t hroot).mpr hns)
        exact Or.inr ⟨k, by simp [hk, hka], hkr⟩
    · exact Or.inr ⟨h, by simp [hne, halive], hroot⟩

/-- The resource that a drop releases is held by no handle afterwards. -/
lemma not_holds_of_release (hstep : step s (.drop h) = some s') (hns : ¬ Shared s h t) (k : H) :
    ¬ Holds s' k t := by
  obtain ⟨-, rfl⟩ := step_drop.mp hstep
  rintro ⟨halive, hroot⟩
  by_cases hk : k = h
  · simp [hk] at halive
  · exact hns ⟨k, hk, by simpa [hk] using halive, hroot⟩

lemma Settled.step (hs : Settled s) (hknown : Known s) (hstep : step s a = some s')
    (hsound : Sound s a) : Settled s' := by
  have hrel_mono : ∀ t ∈ s.released, t ∈ s'.released := by
    intro t ht
    rcases released_of_step hstep with hrel | ⟨_, _, -, -, -, hrel⟩
    · rw [hrel]
      exact ht
    · rw [hrel]
      exact List.mem_append_left _ ht
  refine ⟨fun k t hk hrel' => ?_, ?_, fun t ht => ?_⟩
  · have hnot : t ∉ s.released := by
      rcases holds_of_step hstep hk with ⟨k', hk'⟩ | rfl
      · exact hs.noDangling k' t hk'
      · exact fun hrel => not_mem_stored_of_give hstep (hknown.released t hrel)
    rcases released_of_step hstep with hrel | ⟨h, t', rfl, hh, hkeep, hrel⟩
    · rw [hrel] at hrel'
      exact hnot hrel'
    · rw [hrel] at hrel'
      rcases List.mem_append.mp hrel' with hrel' | hrel'
      · exact hnot hrel'
      · rw [List.mem_singleton.mp hrel'] at hk
        exact not_holds_of_release hstep ((hsound t' hh.2).mp hkeep) k hk
  · rcases released_of_step hstep with hrel | ⟨h, t, -, hh, -, hrel⟩
    · rw [hrel]
      exact hs.nodup
    · rw [hrel, List.nodup_append]
      refine ⟨hs.nodup, by simp, ?_⟩
      intro x hx y hy hxy
      rw [List.mem_singleton.mp hy] at hxy
      exact hs.noDangling h t hh (hxy ▸ hx)
  · have hold : t ∈ s.stored → t ∈ s'.released ∨ ∃ k, Holds s' k t := by
      intro ht
      rcases hs.accounted t ht with hrel | ⟨h, hh⟩
      · exact Or.inl (hrel_mono t hrel)
      · exact holder_of_sound_step hstep hsound hh
    rcases stored_of_step hstep with hst | ⟨h, t', -, hh, hst⟩
    · rw [hst] at ht
      exact hold ht
    · rw [hst] at ht
      rcases List.mem_append.mp ht with ht | ht
      · exact hold ht
      · rw [List.mem_singleton.mp ht]
        exact Or.inr ⟨h, hh⟩

end Sound

/-! ## Steps that are not sound -/

/-- The resource was handed out, was not released, and no handle holds it any more. -/
def Lost (s : Owners H T) (t : T) : Prop :=
  t ∈ s.stored ∧ t ∉ s.released ∧ ∀ h, ¬ Holds s h t

section Lost

variable {s s' : Owners H T} {a : Action H T} {t : T}

/-- What is lost stays lost. -/
lemma Lost.step (hs : Lost s t) (hstep : step s a = some s') : Lost s' t := by
  obtain ⟨hst, hrel, hheld⟩ := hs
  refine ⟨stored_subset_of_step hstep t hst, fun hrel' => ?_, fun k hk => ?_⟩
  · rcases released_of_step hstep with heq | ⟨h, t', -, hh, -, heq⟩
    · rw [heq] at hrel'
      exact hrel hrel'
    · rw [heq] at hrel'
      rcases List.mem_append.mp hrel' with hrel' | hrel'
      · exact hrel hrel'
      · rw [List.mem_singleton.mp hrel'] at hheld
        exact hheld h hh
  · rcases holds_of_step hstep hk with ⟨k', hk'⟩ | rfl
    · exact hheld k' hk'
    · exact not_mem_stored_of_give hstep hst

/-- A step that is not sound leaves a released resource held, or loses one. -/
lemma dangling_or_lost_of_not_sound (hnd : NoDangling s) (hknown : Known s)
    (hstep : step s a = some s') (hns : ¬ Sound s a) :
    ¬ NoDangling s' ∨ ∃ t, Lost s' t := by
  cases a with
  | create h | dup h ref keeps | exchange a b => exact absurd trivial hns
  | give h t' =>
    have hfresh := not_mem_stored_of_give hstep
    simp only [Sound, not_forall] at hns
    obtain ⟨t, hroot, hshared⟩ := hns
    obtain ⟨hg, rfl⟩ := step_give.mp hstep
    have hh : Holds s h t := ⟨hg.1, hroot⟩
    refine Or.inr ⟨t, List.mem_append_left _ (hknown.held h t hh), hnd h t hh, ?_⟩
    rintro k ⟨halive, hk⟩
    by_cases hkh : k = h
    · obtain rfl : t' = t := by simpa [hkh] using hk
      exact hfresh (hknown.held h t' hh)
    · exact hshared ⟨k, hkh, halive, by simpa [hkh] using hk⟩
  | overwrite h ref =>
    simp only [Sound, not_forall] at hns
    obtain ⟨t, hroot, href, hshared⟩ := hns
    obtain ⟨hg, rfl⟩ := step_overwrite.mp hstep
    have hh : Holds s h t := ⟨hg.1, hroot⟩
    refine Or.inr ⟨t, hknown.held h t hh, hnd h t hh, ?_⟩
    rintro k ⟨halive, hk⟩
    by_cases hkh : k = h
    · exact href (by simpa [hkh] using hk)
    · exact hshared ⟨k, hkh, halive, by simpa [hkh] using hk⟩
  | drop h =>
    simp only [Sound, not_forall] at hns
    obtain ⟨t, hroot, hns⟩ := hns
    have hdrop := hstep
    obtain ⟨hg, rfl⟩ := step_drop.mp hstep
    have hh : Holds s h t := ⟨hg, hroot⟩
    by_cases hshared : Shared s h t
    · have hkeep : s.keeps h = false := by
        by_contra hkeep
        exact hns ⟨fun h' => absurd h' hkeep, fun h' => absurd hshared h'⟩
      obtain ⟨k, hk, hka, hkr⟩ := hshared
      refine Or.inl fun hnd' => hnd' k t ⟨by simp [hk, hka], hkr⟩ ?_
      simp [hkeep, hroot]
    · have hkeep : s.keeps h ≠ false := fun hkeep =>
        hns ⟨fun _ => hshared, fun _ => hkeep⟩
      refine Or.inr ⟨t, hknown.held h t hh, ?_, not_holds_of_release hdrop hshared⟩
      simpa [hkeep] using hnd h t hh

end Lost

/-! ## Exclusive handles -/

/-- Every resource that is held is held by one handle, which will release it. -/
structure Exclusive (s : Owners H T) : Prop where
  keeps : ∀ h, s.alive h = true → s.keeps h = false
  unique : ∀ h k t, Holds s h t → Holds s k t → h = k

/-- The step copies no pointer and overwrites none. -/
def Plain (s : Owners H T) : Action H T → Prop
  | .create _ => True
  | .give h _ => s.root h = none
  | .dup _ ref keeps => s.root ref = none ∧ keeps = false
  | .overwrite h ref => s.root h = none ∧ s.root ref = none
  | .exchange _ _ => True
  | .drop _ => True

section Plain

variable {s s' : Owners H T} {a : Action H T}

lemma Exclusive.sound (hs : Exclusive s) (hstep : step s a = some s') (hplain : Plain s a) :
    Sound s a := by
  cases a with
  | create h | dup h ref keeps | exchange a b => trivial
  | give h t' =>
    intro t hroot
    rw [show s.root h = none from hplain] at hroot
    exact absurd hroot (by simp)
  | overwrite h ref =>
    intro t hroot
    rw [hplain.1] at hroot
    exact absurd hroot (by simp)
  | drop h =>
    intro t hroot
    obtain ⟨halive, -⟩ := step_drop.mp hstep
    refine ⟨?_, fun _ => hs.keeps h halive⟩
    rintro - ⟨k, hk, hkt⟩
    exact hk (hs.unique k h t hkt ⟨halive, hroot⟩)

omit [DecidableEq T] in
/-- A new handle that holds nothing changes nothing for the others. -/
lemma Exclusive.create (hs : Exclusive s) (h : H) :
    Exclusive { s with
      alive := Function.update s.alive h true
      root := Function.update s.root h none
      keeps := Function.update s.keeps h false } where
  keeps := by
    intro k hk
    by_cases hkh : k = h
    · simp [hkh]
    · simpa [hkh] using hs.keeps k (by simpa [hkh] using hk)
  unique := by
    rintro k k' t ⟨hk, hkt⟩ ⟨hk', hkt'⟩
    have hkh : k ≠ h := fun heq => by simp [heq] at hkt
    have hkh' : k' ≠ h := fun heq => by simp [heq] at hkt'
    exact hs.unique k k' t ⟨by simpa [hkh] using hk, by simpa [hkh] using hkt⟩
      ⟨by simpa [hkh'] using hk', by simpa [hkh'] using hkt'⟩

omit [DecidableEq T] in
/-- A resource that is handed out is held by nobody else. -/
lemma Exclusive.give (hs : Exclusive s) (hknown : Known s) (h : H) {t' : T}
    (hfresh : t' ∉ s.stored) :
    Exclusive { s with
      root := Function.update s.root h (some t'), stored := s.stored ++ [t'] } where
  keeps := hs.keeps
  unique := by
    have hnew : ∀ k t, s.alive k = true → Function.update s.root h (some t') k = some t →
        (k = h ∧ t = t') ∨ Holds s k t := by
      intro k t hk hkt
      by_cases hkh : k = h
      · exact Or.inl ⟨hkh, by simpa [hkh, eq_comm] using hkt⟩
      · exact Or.inr ⟨hk, by simpa [hkh] using hkt⟩
    rintro k k' t ⟨hk, hkt⟩ ⟨hk', hkt'⟩
    rcases hnew k t hk hkt with ⟨h₁, h₂⟩ | hold
    · rcases hnew k' t hk' hkt' with ⟨h₃, -⟩ | hold'
      · rw [h₁, h₃]
      · exact absurd (hknown.held k' t hold') (h₂ ▸ hfresh)
    · rcases hnew k' t hk' hkt' with ⟨-, h₄⟩ | hold'
      · exact absurd (hknown.held k t hold) (h₄ ▸ hfresh)
      · exact hs.unique k k' t hold hold'

omit [DecidableEq T] in
/-- After an exchange a handle holds what its partner held. -/
lemma Exclusive.exchange (hs : Exclusive s) {a b : H} (ha : s.alive a = true)
    (hb : s.alive b = true) :
    Exclusive { s with
      root := Function.update (Function.update s.root a (s.root b)) b (s.root a) } where
  keeps := hs.keeps
  unique := by
    have hpartner : ∀ k t, s.alive k = true →
        Function.update (Function.update s.root a (s.root b)) b (s.root a) k = some t →
        Holds s (Equiv.swap a b k) t := by
      intro k t hk hkt
      by_cases hkb : k = b
      · subst hkb
        exact ⟨by simpa using ha, by simpa using hkt⟩
      · by_cases hka : k = a
        · subst hka
          exact ⟨by simpa using hb, by simpa [hkb] using hkt⟩
        · rw [Equiv.swap_apply_of_ne_of_ne hka hkb]
          exact ⟨hk, by simpa [hka, hkb] using hkt⟩
    rintro k k' t ⟨hk, hkt⟩ ⟨hk', hkt'⟩
    exact (Equiv.swap a b).injective
      (hs.unique _ _ t (hpartner k t hk hkt) (hpartner k' t hk' hkt'))

lemma Exclusive.step (hs : Exclusive s) (hknown : Known s) (hstep : step s a = some s')
    (hplain : Plain s a) : Exclusive s' := by
  cases a with
  | create h =>
    obtain ⟨-, rfl⟩ := step_create.mp hstep
    exact hs.create h
  | give h t' =>
    obtain ⟨⟨-, hfresh⟩, rfl⟩ := step_give.mp hstep
    exact hs.give hknown h hfresh
  | dup h ref keeps =>
    -- a copy of a handle that holds nothing is like a new one
    obtain ⟨-, rfl⟩ := step_dup.mp hstep
    obtain ⟨hroot, rfl⟩ := hplain
    rw [hroot]
    exact hs.create h
  | overwrite h ref =>
    obtain ⟨-, rfl⟩ := step_overwrite.mp hstep
    have hroot : Function.update s.root h (s.root ref) = s.root := by
      rw [hplain.2, ← hplain.1, Function.update_eq_self]
    rw [hroot]
    exact hs
  | exchange a b =>
    obtain ⟨⟨ha, hb⟩, rfl⟩ := step_exchange.mp hstep
    exact hs.exchange ha hb
  | drop h =>
    obtain ⟨-, rfl⟩ := step_drop.mp hstep
    have hdrop : ∀ k, Function.update s.alive h false k = true → s.alive k = true := by
      intro k hk
      by_cases hkh : k = h
      · simp [hkh] at hk
      · simpa [hkh] using hk
    refine ⟨fun k hk => hs.keeps k (hdrop k hk), ?_⟩
    rintro k k' t ⟨hk, hkt⟩ ⟨hk', hkt'⟩
    exact hs.unique k k' t ⟨hdrop k hk, hkt⟩ ⟨hdrop k' hk', hkt'⟩

end Plain

/-! ## Whole runs -/

/-- Every resource is released once in the end, and at no point does a handle in use hold a
released one. -/
def ReleasesOnce (as : List (Action H T)) (s : Owners H T) : Prop :=
  (∀ t ∈ s.stored, s.released.count t = 1) ∧
    ∀ pre post s₁, as = pre ++ post → run step Owners.init pre = some s₁ → NoDangling s₁

/-- Every step of the run is sound in the state in which it is taken. -/
def SoundRun (as : List (Action H T)) : Prop :=
  ∀ pre a post s₁, as = pre ++ a :: post → run step Owners.init pre = some s₁ → Sound s₁ a

/-- A run of sound steps keeps the handles settled. -/
lemma settled_of_soundRun {as : List (Action H T)} {s : Owners H T}
    (hrun : run step Owners.init as = some s) (hsound : SoundRun as) : Settled s := by
  refine run_invariant_of_steps ?_ ?_ hrun hsound
  · intro pre s₁ a s₂ hrun₁ hs ha hstep
    exact hs.step (known_of_run hrun₁) hstep ha
  · refine ⟨?_, by simp [Owners.init], by simp [Owners.init]⟩
    rintro h t ⟨halive, -⟩
    exact absurd halive (by simp [Owners.init])

/-- Every step of the run is plain in the state in which it is taken. -/
def PlainRun (as : List (Action H T)) : Prop :=
  ∀ pre a post s₁, as = pre ++ a :: post → run step Owners.init pre = some s₁ → Plain s₁ a

lemma exclusive_of_plainRun {as : List (Action H T)} {s : Owners H T}
    (hrun : run step Owners.init as = some s) (hplain : PlainRun as) : Exclusive s := by
  refine run_invariant_of_steps ?_ ?_ hrun hplain
  · intro pre s₁ a s₂ hrun₁ hs ha hstep
    exact hs.step (known_of_run hrun₁) hstep ha
  · refine ⟨fun h hh => by simp [Owners.init] at hh, ?_⟩
    rintro h k t ⟨halive, -⟩
    exact absurd halive (by simp [Owners.init])

/-- Handles that are never copied while they hold something are sound. -/
lemma soundRun_of_plainRun {as : List (Action H T)} {s : Owners H T}
    (hrun : run step Owners.init as = some s) (hplain : PlainRun as) : SoundRun as := by
  intro pre a post s₁ heq hrun₁
  have hexcl : Exclusive s₁ := by
    refine exclusive_of_plainRun hrun₁ fun pre' b post' s' heq' => ?_
    exact hplain pre' b (post' ++ a :: post) s' (by simp [heq, heq'])
  obtain ⟨s₂, hstep, -⟩ := exists_step_of_run (heq ▸ hrun) hrun₁
  exact hexcl.sound hstep (hplain pre a post s₁ heq hrun₁)

/-- **Exactly the sound runs release every resource once.** -/
theorem releasesOnce_iff_soundRun {as : List (Action H T)} {s : Owners H T}
    (hrun : run step Owners.init as = some s) (hend : ∀ h, s.alive h = false) :
    ReleasesOnce as s ↔ SoundRun as := by
  have hnone : ∀ h t, ¬ Holds s h t := by
    rintro h t ⟨halive, -⟩
    rw [hend h] at halive
    exact absurd halive (by simp)
  constructor
  · rintro ⟨honce, hdangling⟩ pre a post s₁ heq hrun₁
    by_contra hns
    have hnd : NoDangling s₁ := hdangling pre (a :: post) s₁ heq hrun₁
    obtain ⟨s₂, hstep, hrun₂⟩ := exists_step_of_run (heq ▸ hrun) hrun₁
    rcases dangling_or_lost_of_not_sound hnd (known_of_run hrun₁) hstep hns with hdang | ⟨t, hlost⟩
    · refine hdang (hdangling (pre ++ [a]) post s₂ (by simp [heq]) ?_)
      exact run_snoc_eq_some.mpr ⟨s₁, hrun₁, hstep⟩
    · -- a lost resource is still lost at the end, where it should have been released
      have hlost' : Lost s t :=
        run_invariant (I := fun s => Lost s t) (fun _ _ _ h hs => h.step hs) hlost hrun₂
      have hcount := honce t hlost'.1
      rw [List.count_eq_zero.mpr hlost'.2.1] at hcount
      exact absurd hcount (by simp)
  · intro hsound
    have hsettled := settled_of_soundRun hrun hsound
    refine ⟨fun t ht => ?_, fun pre post s₁ heq hrun₁ => ?_⟩
    · rcases hsettled.accounted t ht with hrel | ⟨h, hh⟩
      · exact List.count_eq_one_of_mem hsettled.nodup hrel
      · exact absurd hh (hnone h t)
    · refine (settled_of_soundRun hrun₁ fun pre' a post' s' heq' => ?_).noDangling
      exact hsound pre' a (post' ++ post) s' (by simp [heq, heq'])

end CppServer.Ownership
