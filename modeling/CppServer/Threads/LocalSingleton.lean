/-
# Clients of which every thread has its own

`MongoDBClient::ThreadLocalSingleton` of `thirdpart/MongoDB/MongoDBClient.h` and
`RedisLock::ThreadLocalSingleton` of `thirdpart/RedisLock/redlock.h`.  A thread-local pointer
`s_value_` holds the client of a thread, and one key of the process, in the static member
`s_deleter_`, has it deleted when the thread ends.  `reset`, which is called after a lost
connection, sets the pointer of its own thread to zero and deletes the key of the process.

A client is the number of its creation.  The model follows any number of threads through any
interleaving, keeps the list of deleted clients beside the state, and compares what happens
with the life cycle that the wrapper is for.
-/
import Mathlib.Data.List.Nodup
import CppServer.Lib.Run
import CppServer.Lib.ThreadKey

namespace CppServer.Threads.LocalSingleton

/-- The two wrappers. -/
inductive Wrapper where
  | mongo
  | redis

/-- The static members of a wrapper, with the pointer of every thread; which threads have
ended, which thread created each client, and the clients that were deleted. -/
structure State (T : Type) where
  pkey_ : ThreadKey T ℕ
  s_value_ : T → Option ℕ
  exited : T → Bool
  created : List T
  deleted : List ℕ

variable {T : Type}

namespace State

/-- The start of the program, with the constructor of `s_deleter_`. -/
def init : State T := ⟨.create, fun _ => none, fun _ => false, [], []⟩

/-- `Deleter::reset`. -/
def deleterReset (s : State T) : State T := { s with pkey_ := s.pkey_.delete }

variable [DecidableEq T]

/-- `Deleter::set`. -/
def deleterSet (ndebug : Bool) (s : State T) (t : T) (newObj : ℕ) : Option (State T) := do
  cassert ndebug (s.pkey_.getspecific t = none)
  return { s with pkey_ := s.pkey_.setspecific t (some newObj) }

/-- `s_value_ = new ..; s_deleter_.set(s_value_);` -/
def newValue (ndebug : Bool) (s : State T) (t : T) : Option (State T) :=
  let obj := s.created.length
  let s := { s with created := s.created ++ [t], s_value_ := Function.update s.s_value_ t (some obj) }
  s.deleterSet ndebug t obj

/-- `MongoDBClient::ThreadLocalSingleton::setvalue`. -/
def setvalue (ndebug : Bool) (s : State T) (t : T) : Option (State T) :=
  if s.s_value_ t = none then s.newValue ndebug t else some s

/-- `instance`; the client that is returned is the pointer of the thread behind it. -/
def instance_ (w : Wrapper) (ndebug : Bool) (s : State T) (t : T) : Option (State T) :=
  match w with
  | .mongo => if s.s_value_ t = none then s.setvalue ndebug t else some s
  | .redis => if s.s_value_ t = none then s.newValue ndebug t else some s

/-- `reset`. -/
def reset (s : State T) (t : T) : State T :=
  let s := s.deleterReset
  -- the client itself is not deleted
  { s with s_value_ := Function.update s.s_value_ t none }

/-- `destructor`, run in the thread `t`. -/
def destructor (ndebug : Bool) (s : State T) (t : T) (obj : ℕ) : Option (State T) := do
  cassert ndebug (s.s_value_ t = some obj)
  let s := { s with deleted := s.deleted ++ (s.s_value_ t).toList }
  return { s with s_value_ := Function.update s.s_value_ t none }

/-- The end of a thread: a pointer that the key holds is set to zero and then destroyed. -/
def exit (ndebug : Bool) (s : State T) (t : T) : Option (State T) :=
  let s := { s with exited := Function.update s.exited t true }
  match s.pkey_.getspecific t with
  | none => some s
  -- the key forgets the pointer before the destructor is run on it
  | some obj => destructor ndebug { s with pkey_ := s.pkey_.setspecific t none } t obj

end State

/-- What a thread does. -/
inductive Op (T : Type) where
  | instance_ (t : T)
  | reset (t : T)
  | exit (t : T)

/-- One operation of a thread that has not ended. -/
def step [DecidableEq T] (w : Wrapper) (ndebug : Bool) (s : State T) : Op T → Option (State T)
  | .instance_ t => if s.exited t then none else s.instance_ w ndebug t
  | .reset t => if s.exited t then none else some (s.reset t)
  | .exit t => if s.exited t then none else s.exit ndebug t

/-- What the wrapper is for, at every point of a run: no client is deleted twice, a client
whose thread has ended was deleted, `instance` returns no deleted client, and `reset` changes
for another thread neither its client nor what is deleted when it ends. -/
structure LifeCycle [DecidableEq T] (w : Wrapper) (ndebug : Bool) (ops : List (Op T)) : Prop where
  deleted_once : ∀ pre post s, ops = pre ++ post → run (step w ndebug) .init pre = some s →
    ∀ o, s.deleted.count o ≤ 1 ∧
      ∀ t, s.created[o]? = some t → s.exited t = true → s.deleted.count o = 1
  not_returned : ∀ pre t post s, ops = pre ++ .instance_ t :: post →
    run (step w ndebug) .init (pre ++ [.instance_ t]) = some s →
    ∃ o, s.s_value_ t = some o ∧ o ∉ s.deleted
  reset_local : ∀ pre t post s, ops = pre ++ .reset t :: post →
    run (step w ndebug) .init pre = some s → ∀ u ≠ t, s.exited u = false →
    (s.reset t).s_value_ u = s.s_value_ u ∧
      (s.reset t).pkey_.getspecific u = s.pkey_.getspecific u ∧ (s.reset t).deleted = s.deleted

/-- A thread makes a client only while the key exists, and no thread that goes on has one when
the key is deleted. -/
def Kept (s : State T) : Op T → Prop
  | .instance_ t => s.s_value_ t = none → s.pkey_.valid = true
  | .reset _ => ∀ u, s.exited u = false → s.s_value_ u = none
  | .exit _ => True

/-- The pointers of finitely many threads can be looked through. -/
instance {n : ℕ} (s : State (Fin n)) : ∀ op, Decidable (Kept s op)
  | .instance_ t => inferInstanceAs (Decidable (s.s_value_ t = none → s.pkey_.valid = true))
  | .reset _ => inferInstanceAs (Decidable (∀ u, s.exited u = false → s.s_value_ u = none))
  | .exit _ => isTrue trivial

/-- Every operation of the run is `Kept`. -/
def KeptRun [DecidableEq T] (w : Wrapper) (ndebug : Bool) (ops : List (Op T)) : Prop :=
  ∀ pre op post s, ops = pre ++ op :: post → run (step w ndebug) .init pre = some s → Kept s op

/-! ## One operation -/

/-- What every run keeps: the pointer of a thread is a client that the thread created, the key
holds the pointers while it exists, and only clients of threads that have ended are deleted,
each once. -/
structure Owned (s : State T) : Prop where
  value : ∀ t o, s.s_value_ t = some o → s.created[o]? = some t
  key : s.pkey_.valid = true → s.pkey_.specific = s.s_value_
  deleted : ∀ o ∈ s.deleted, ∃ t, s.created[o]? = some t ∧ s.exited t = true
  nodup : s.deleted.Nodup

section Owned

variable {s : State T} {t : T} {o : ℕ}

lemma owned_init : Owned (State.init : State T) where
  value := fun t o h => absurd h (by simp [State.init])
  key := fun _ => rfl
  deleted := fun o ho => absurd ho (by simp [State.init])
  nodup := List.nodup_nil

lemma Owned.getspecific (hs : Owned s) (h : s.pkey_.valid = true) (t : T) :
    s.pkey_.getspecific t = s.s_value_ t := by
  rw [ThreadKey.getspecific_of_valid h, hs.key h]

lemma Owned.value_of_getspecific (hs : Owned s) (h : s.pkey_.getspecific t = some o) :
    s.s_value_ t = some o := by
  rwa [hs.getspecific (ThreadKey.valid_of_getspecific h)] at h

/-- The client of a thread that goes on is not deleted. -/
lemma Owned.not_deleted (hs : Owned s) (ht : s.exited t = false) (h : s.s_value_ t = some o) :
    o ∉ s.deleted := by
  intro hmem
  obtain ⟨t', hcreated, hexited⟩ := hs.deleted o hmem
  have hsame : some t' = some t := hcreated.symm.trans (hs.value t o h)
  obtain rfl : t' = t := Option.some.inj hsame
  rw [ht] at hexited
  exact absurd hexited (by simp)

/-- A client that exists keeps its number. -/
lemma created_append {l : List T} {u : T} (h : l[o]? = some u) (t : T) :
    (l ++ [t])[o]? = some u := by
  rw [List.getElem?_append_left (List.getElem?_eq_some_iff.mp h).1, h]

/-- A new client is the last one. -/
lemma created_append_cases {l : List T} {u t : T} (h : (l ++ [t])[o]? = some u) :
    l[o]? = some u ∨ o = l.length ∧ u = t := by
  rcases Nat.lt_or_ge o l.length with hlt | hge
  · rw [List.getElem?_append_left hlt] at h
    exact Or.inl h
  · rw [List.getElem?_append_right hge, List.getElem?_singleton] at h
    split at h
    · exact Or.inr ⟨by omega, (Option.some.inj h).symm⟩
    · exact absurd h (by simp)

end Owned

section Step

variable [DecidableEq T] {w : Wrapper} {ndebug : Bool} {s s' : State T} {op : Op T} {t : T} {o : ℕ}

/-- The state after a thread made a client. -/
def State.withNew (s : State T) (t : T) : State T :=
  { s with
    created := s.created ++ [t]
    s_value_ := Function.update s.s_value_ t (some s.created.length)
    pkey_ := s.pkey_.setspecific t (some s.created.length) }

/-- The state after a thread ended and its client was deleted. -/
def State.withExit (s : State T) (t : T) (o : ℕ) : State T :=
  { s with
    exited := Function.update s.exited t true
    pkey_ := s.pkey_.setspecific t none
    deleted := s.deleted ++ [o]
    s_value_ := Function.update s.s_value_ t none }

/-- Both wrappers return the client of the thread, or a new one if it has none; the assertion
of `set` holds. -/
lemma Owned.instance_eq (hs : Owned s) (w : Wrapper) (ndebug : Bool) (t : T) :
    s.instance_ w ndebug t = some (if s.s_value_ t = none then s.withNew t else s) := by
  by_cases h : s.s_value_ t = none
  · have hget : s.pkey_.getspecific t = none := by
      by_contra hne
      obtain ⟨o, ho⟩ := Option.ne_none_iff_exists'.mp hne
      rw [hs.value_of_getspecific ho] at h
      exact absurd h (by simp)
    have hnew : s.newValue ndebug t = some (s.withNew t) := by
      simp [State.newValue, State.deleterSet, cassert, hget, State.withNew]
    cases w <;> simp [State.instance_, State.setvalue, h, hnew]
  · cases w <;> simp [State.instance_, h]

/-- At the end of a thread its client is deleted exactly if the key still exists. -/
lemma Owned.exit_eq (hs : Owned s) (ndebug : Bool) (t : T) :
    s.exit ndebug t = some (match s.pkey_.getspecific t with
      | none => { s with exited := Function.update s.exited t true }
      | some o => s.withExit t o) := by
  cases h : s.pkey_.getspecific t with
  | none => simp [State.exit, h]
  | some o =>
    have hvalue := hs.value_of_getspecific h
    simp [State.exit, h, State.destructor, cassert, hvalue, State.withExit]

/-- What an operation does. -/
lemma Owned.step_cases (hs : Owned s) (h : step w ndebug s op = some s') :
    (∃ t, op = .instance_ t ∧ s.exited t = false ∧ s.s_value_ t ≠ none ∧ s' = s) ∨
    (∃ t, op = .instance_ t ∧ s.exited t = false ∧ s.s_value_ t = none ∧ s' = s.withNew t) ∨
    (∃ t, op = .reset t ∧ s.exited t = false ∧ s' = s.reset t) ∨
    (∃ t, op = .exit t ∧ s.exited t = false ∧ s.pkey_.getspecific t = none ∧
      s' = { s with exited := Function.update s.exited t true }) ∨
    ∃ t o, op = .exit t ∧ s.exited t = false ∧ s.pkey_.getspecific t = some o ∧
      s' = s.withExit t o := by
  cases op with
  | instance_ t =>
    simp only [step] at h
    split at h
    · exact absurd h (by simp)
    · rename_i hlive
      rw [hs.instance_eq] at h
      obtain rfl := Option.some.inj h
      by_cases hnone : s.s_value_ t = none
      · exact Or.inr (Or.inl ⟨t, rfl, by simpa using hlive, hnone, by rw [if_pos hnone]⟩)
      · exact Or.inl ⟨t, rfl, by simpa using hlive, hnone, by rw [if_neg hnone]⟩
  | reset t =>
    simp only [step] at h
    split at h
    · exact absurd h (by simp)
    · rename_i hlive
      exact Or.inr (Or.inr (Or.inl ⟨t, rfl, by simpa using hlive, (Option.some.inj h).symm⟩))
  | exit t =>
    simp only [step] at h
    split at h
    · exact absurd h (by simp)
    · rename_i hlive
      rw [hs.exit_eq] at h
      obtain rfl := Option.some.inj h
      refine Or.inr (Or.inr (Or.inr ?_))
      cases hget : s.pkey_.getspecific t with
      | none => exact Or.inl ⟨t, rfl, by simpa using hlive, hget, rfl⟩
      | some o => exact Or.inr ⟨t, o, rfl, by simpa using hlive, hget, rfl⟩

/-- No operation of a thread that goes on fails. -/
lemma Owned.exists_step (hs : Owned s) (w : Wrapper) (ndebug : Bool) (ht : s.exited t = false) :
    (∃ s', step w ndebug s (.instance_ t) = some s') ∧
      (∃ s', step w ndebug s (.reset t) = some s') ∧
      ∃ s', step w ndebug s (.exit t) = some s' := by
  refine ⟨⟨if s.s_value_ t = none then s.withNew t else s, ?_⟩, ⟨s.reset t, ?_⟩, ?_⟩
  · simp [step, ht, hs.instance_eq]
  · simp [step, ht]
  · simp [step, ht, hs.exit_eq]

lemma exited_update {u t : T} (h : s.exited u = true) :
    Function.update s.exited t true u = true := by
  by_cases hut : u = t
  · subst hut
    exact Function.update_self ..
  · rw [Function.update_of_ne hut, h]

/-- Only the thread that ends has ended in addition. -/
lemma exited_update_cases {u t : T} (h : Function.update s.exited t true u = true) :
    s.exited u = true ∨ u = t := by
  by_cases hut : u = t
  · exact Or.inr hut
  · rw [Function.update_of_ne hut] at h
    exact Or.inl h

lemma live_update {u t : T} (h : Function.update s.exited t true u = false) :
    u ≠ t ∧ s.exited u = false := by
  by_cases hut : u = t
  · subst hut
    rw [Function.update_self] at h
    exact absurd h (by simp)
  · rw [Function.update_of_ne hut] at h
    exact ⟨hut, h⟩

lemma value_update {u t : T} (h : Function.update s.s_value_ t none u = some o) :
    u ≠ t ∧ s.s_value_ u = some o := by
  by_cases hut : u = t
  · subst hut
    rw [Function.update_self] at h
    exact absurd h (by simp)
  · rw [Function.update_of_ne hut] at h
    exact ⟨hut, h⟩

/-- A pointer that is set in the key and in the thread stays the same in both. -/
lemma Owned.specific_setspecific (hs : Owned s) (h : s.pkey_.valid = true) (t : T) (v : Option ℕ) :
    (s.pkey_.setspecific t v).specific = Function.update s.s_value_ t v := by
  rw [ThreadKey.specific_setspecific h, hs.key h]

lemma Owned.withNew (hs : Owned s) (t : T) : Owned (s.withNew t) where
  value := by
    intro u o h
    have h : Function.update s.s_value_ t (some s.created.length) u = some o := h
    by_cases hut : u = t
    · subst hut
      rw [Function.update_self] at h
      obtain rfl := Option.some.inj h
      exact List.getElem?_concat_length
    · rw [Function.update_of_ne hut] at h
      exact created_append (hs.value u o h) t
  key := by
    intro h
    have hvalid : s.pkey_.valid = true := by simpa [State.withNew] using h
    exact hs.specific_setspecific hvalid t _
  deleted := by
    intro o ho
    obtain ⟨u, hcreated, hexited⟩ := hs.deleted o ho
    exact ⟨u, created_append hcreated t, hexited⟩
  nodup := hs.nodup

lemma Owned.reset (hs : Owned s) (t : T) : Owned (s.reset t) where
  value := fun u o h => hs.value u o (value_update h).2
  key := fun h => absurd h (by simp [State.reset, State.deleterReset, ThreadKey.delete])
  deleted := hs.deleted
  nodup := hs.nodup

lemma Owned.exited (hs : Owned s) (t : T) :
    Owned { s with exited := Function.update s.exited t true } where
  value := hs.value
  key := hs.key
  deleted := by
    intro o ho
    obtain ⟨u, hcreated, hexited⟩ := hs.deleted o ho
    exact ⟨u, hcreated, exited_update hexited⟩
  nodup := hs.nodup

lemma Owned.withExit (hs : Owned s) (ht : s.exited t = false)
    (hget : s.pkey_.getspecific t = some o) : Owned (s.withExit t o) where
  value := fun u o' h => hs.value u o' (value_update h).2
  key := by
    intro h
    have hvalid : s.pkey_.valid = true := by simpa [State.withExit] using h
    exact hs.specific_setspecific hvalid t _
  deleted := by
    intro o' ho'
    rcases List.mem_append.mp ho' with hmem | hmem
    · obtain ⟨u, hcreated, hexited⟩ := hs.deleted o' hmem
      exact ⟨u, hcreated, exited_update hexited⟩
    · obtain rfl := List.mem_singleton.mp hmem
      exact ⟨t, hs.value t o' (hs.value_of_getspecific hget), Function.update_self ..⟩
  nodup := by
    refine List.nodup_append.mpr ⟨hs.nodup, by simp, ?_⟩
    intro a ha b hb hab
    obtain rfl : b = o := List.mem_singleton.mp hb
    exact hs.not_deleted ht (hs.value_of_getspecific hget) (hab ▸ ha)

lemma Owned.step (hs : Owned s) (h : step w ndebug s op = some s') : Owned s' := by
  rcases hs.step_cases h with ⟨t, -, -, -, rfl⟩ | ⟨t, -, -, -, rfl⟩ | ⟨t, -, -, rfl⟩ |
    ⟨t, -, -, -, rfl⟩ | ⟨t, o, -, ht, hget, rfl⟩
  · exact hs
  · exact hs.withNew t
  · exact hs.reset t
  · exact hs.exited t
  · exact hs.withExit ht hget

/-! ## Runs in which the key is kept -/

/-- Every client of a thread that goes on is its pointer and will be deleted, and every client
of a thread that has ended was deleted. -/
structure Settled (s : State T) : Prop where
  live : ∀ o t, s.created[o]? = some t → s.exited t = false →
    s.pkey_.valid = true ∧ s.s_value_ t = some o
  gone : ∀ o t, s.created[o]? = some t → s.exited t = true → o ∈ s.deleted

lemma Settled.withNew (hs : Settled s) (ht : s.exited t = false) (hnone : s.s_value_ t = none)
    (hvalid : s.pkey_.valid = true) : Settled (s.withNew t) where
  live := by
    intro o u hcreated hu
    have hvalid' : (s.withNew t).pkey_.valid = true := by simpa [State.withNew] using hvalid
    refine ⟨hvalid', ?_⟩
    show Function.update s.s_value_ t (some s.created.length) u = some o
    rcases created_append_cases hcreated with hold | ⟨rfl, rfl⟩
    · -- an old client is that of another thread, since `t` had none
      obtain ⟨-, hvalue⟩ := hs.live o u hold hu
      have hut : u ≠ t := by
        rintro rfl
        rw [hnone] at hvalue
        exact absurd hvalue (by simp)
      rw [Function.update_of_ne hut, hvalue]
    · exact Function.update_self ..
  gone := by
    intro o u hcreated hu
    rcases created_append_cases hcreated with hold | ⟨rfl, rfl⟩
    · exact hs.gone o u hold hu
    · exact absurd (ht.symm.trans hu) (by simp)

lemma Settled.reset (hs : Settled s) (t : T)
    (hnone : ∀ u, s.exited u = false → s.s_value_ u = none) : Settled (s.reset t) where
  live := by
    intro o u hcreated hu
    have hvalue := (hs.live o u hcreated hu).2
    rw [hnone u hu] at hvalue
    exact absurd hvalue (by simp)
  gone := hs.gone

/-- A thread that ends without a pointer in the key has no client. -/
lemma Settled.exited (hs : Settled s) (howned : Owned s) (ht : s.exited t = false)
    (hget : s.pkey_.getspecific t = none) :
    Settled { s with exited := Function.update s.exited t true } where
  live := fun o u hcreated hu => hs.live o u hcreated (live_update hu).2
  gone := by
    intro o u hcreated hu
    rcases exited_update_cases hu with hu | rfl
    · exact hs.gone o u hcreated hu
    · -- a client of `t` would be in the key
      obtain ⟨hvalid, hvalue⟩ := hs.live o u hcreated ht
      rw [← howned.getspecific hvalid, hget] at hvalue
      exact absurd hvalue (by simp)

lemma Settled.withExit (hs : Settled s) (ht : s.exited t = false)
    (hvalue : s.s_value_ t = some o) : Settled (s.withExit t o) where
  live := by
    intro o' u hcreated hu
    obtain ⟨hut, hu⟩ := live_update hu
    obtain ⟨hvalid, hvalue'⟩ := hs.live o' u hcreated hu
    refine ⟨by simpa [State.withExit] using hvalid, ?_⟩
    show Function.update s.s_value_ t none u = some o'
    rw [Function.update_of_ne hut, hvalue']
  gone := by
    intro o' u hcreated hu
    refine List.mem_append.mpr ?_
    rcases exited_update_cases hu with hu | rfl
    · exact Or.inl (hs.gone o' u hcreated hu)
    · have hvalue' := (hs.live o' u hcreated ht).2
      rw [hvalue] at hvalue'
      exact Or.inr (List.mem_singleton.mpr (Option.some.inj hvalue').symm)

lemma Settled.step (hs : Settled s) (howned : Owned s) (hkept : Kept s op)
    (h : step w ndebug s op = some s') : Settled s' := by
  rcases howned.step_cases h with ⟨t, -, -, -, rfl⟩ | ⟨t, rfl, ht, hnone, rfl⟩ |
    ⟨t, rfl, -, rfl⟩ | ⟨t, -, ht, hget, rfl⟩ | ⟨t, o, -, ht, hget, rfl⟩
  · exact hs
  · exact hs.withNew ht hnone (hkept hnone)
  · exact hs.reset t hkept
  · exact hs.exited howned ht hget
  · exact hs.withExit ht (howned.value_of_getspecific hget)

/-! ## Clients that are lost -/

/-- The key is deleted and there is a client that was not, so nothing deletes it any more. -/
def Lost (s : State T) : Prop :=
  s.pkey_.valid = false ∧ ∃ o < s.created.length, o ∉ s.deleted

lemma Lost.step (hs : Lost s) (howned : Owned s) (h : step w ndebug s op = some s') : Lost s' := by
  obtain ⟨hinvalid, o, ho, hmem⟩ := hs
  rcases howned.step_cases h with ⟨t, -, -, -, rfl⟩ | ⟨t, -, -, -, rfl⟩ | ⟨t, -, -, rfl⟩ |
    ⟨t, -, -, -, rfl⟩ | ⟨t, o', -, -, hget, rfl⟩
  · exact ⟨hinvalid, o, ho, hmem⟩
  · refine ⟨by simpa [State.withNew] using hinvalid, o, ?_, hmem⟩
    show o < (s.created ++ [t]).length
    rw [List.length_append]
    omega
  · exact ⟨rfl, o, ho, hmem⟩
  · exact ⟨hinvalid, o, ho, hmem⟩
  · -- the key holds nothing
    rw [ThreadKey.valid_of_getspecific hget] at hinvalid
    exact absurd hinvalid (by simp)

/-- An operation that is not `Kept` loses a client. -/
lemma lost_of_not_kept (hs : Owned s) (hkept : ¬ Kept s op)
    (h : step w ndebug s op = some s') : Lost s' := by
  rcases hs.step_cases h with ⟨t, rfl, -, hne, rfl⟩ | ⟨t, rfl, -, hnone, rfl⟩ | ⟨t, rfl, -, rfl⟩ |
    ⟨t, rfl, -⟩ | ⟨t, o, rfl, -⟩
  · exact absurd (fun hnone => absurd hnone hne) hkept
  · -- the new client is not in the key
    have hinvalid : s.pkey_.valid = false := by simpa [Kept, hnone] using hkept
    refine ⟨by simpa [State.withNew] using hinvalid, s.created.length, ?_, ?_⟩
    · simp [State.withNew]
    · intro hmem
      obtain ⟨u, hcreated, -⟩ := hs.deleted _ hmem
      simp at hcreated
  · obtain ⟨u, hu, hne⟩ : ∃ u, s.exited u = false ∧ s.s_value_ u ≠ none := by
      simpa [Kept] using hkept
    obtain ⟨o, ho⟩ := Option.ne_none_iff_exists'.mp hne
    -- the client of `u` is still there, and the key is not
    exact ⟨rfl, o, (List.getElem?_eq_some_iff.mp (hs.value u o ho)).1, hs.not_deleted hu ho⟩
  · exact absurd trivial hkept
  · exact absurd trivial hkept

end Step

/-! ## Whole runs -/

section Run

variable [DecidableEq T] {w : Wrapper} {ndebug : Bool} {ops : List (Op T)} {s : State T}

lemma owned_of_run (hrun : run (step w ndebug) .init ops = some s) : Owned s :=
  run_invariant (fun _ _ _ hs h => Owned.step hs h) owned_init hrun

lemma KeptRun.of_append {pre post : List (Op T)} (h : KeptRun w ndebug (pre ++ post)) :
    KeptRun w ndebug pre :=
  fun pre' op post' s heq => h pre' op (post' ++ post) s (by simp [heq])

lemma settled_of_run (hrun : run (step w ndebug) .init ops = some s)
    (hkept : KeptRun w ndebug ops) : Settled s := by
  refine run_invariant_of_steps ?_ ?_ hrun hkept
  · intro pre s₁ op s₂ hpre hs hop h
    exact hs.step (owned_of_run hpre) hop h
  · exact ⟨fun o t h => absurd h (by simp [State.init]), fun o t h => absurd h (by simp [State.init])⟩

/-- The operation `instance` returns a client that is not deleted, in every run. -/
lemma returned_of_run {pre : List (Op T)} {t : T}
    (hrun : run (step w ndebug) .init (pre ++ [.instance_ t]) = some s) :
    ∃ o, s.s_value_ t = some o ∧ o ∉ s.deleted := by
  obtain ⟨s₁, hpre, h⟩ := run_snoc_eq_some.mp hrun
  have hs₁ : Owned s₁ := owned_of_run hpre
  have hs : Owned s := owned_of_run hrun
  rcases hs₁.step_cases h with ⟨t', heq, ht, hne, rfl⟩ | ⟨t', heq, ht, -, rfl⟩ | ⟨t', heq, -⟩ |
    ⟨t', heq, -⟩ | ⟨t', o, heq, -⟩
  · -- the thread has a client
    obtain rfl : t = t' := by simpa using heq
    obtain ⟨o, ho⟩ := Option.ne_none_iff_exists'.mp hne
    exact ⟨o, ho, hs.not_deleted ht ho⟩
  · -- it gets a new one
    obtain rfl : t = t' := by simpa using heq
    have ho : (s₁.withNew t).s_value_ t = some s₁.created.length := Function.update_self ..
    exact ⟨_, ho, hs.not_deleted ht ho⟩
  all_goals exact absurd heq (by simp)

/-- A `reset` when no thread that goes on has a client changes nothing for the others. -/
lemma reset_of_kept {t : T} (hs : Owned s) (hkept : Kept s (.reset t)) {u : T} (hut : u ≠ t)
    (hu : s.exited u = false) :
    (s.reset t).s_value_ u = s.s_value_ u ∧
      (s.reset t).pkey_.getspecific u = s.pkey_.getspecific u ∧ (s.reset t).deleted = s.deleted := by
  refine ⟨Function.update_of_ne hut .., ?_, rfl⟩
  show s.pkey_.delete.getspecific u = s.pkey_.getspecific u
  rw [ThreadKey.getspecific_delete]
  by_contra hne
  obtain ⟨o, ho⟩ := Option.ne_none_iff_exists'.mp (Ne.symm hne)
  have hvalue := hs.value_of_getspecific ho
  rw [hkept u hu] at hvalue
  exact absurd hvalue (by simp)

lemma KeptRun.lifeCycle (hrun : run (step w ndebug) .init ops = some s)
    (hkept : KeptRun w ndebug ops) : LifeCycle w ndebug ops where
  deleted_once := by
    rintro pre post s₁ rfl hpre o
    have hs₁ : Owned s₁ := owned_of_run hpre
    have hle : s₁.deleted.count o ≤ 1 := List.nodup_iff_count_le_one.mp hs₁.nodup o
    refine ⟨hle, fun t hcreated ht => ?_⟩
    have hmem := (settled_of_run hpre hkept.of_append).gone o t hcreated ht
    have hpos := List.count_pos_iff.mpr hmem
    omega
  not_returned := fun _ _ _ _ _ => returned_of_run
  reset_local := by
    intro pre t post s₁ heq hpre u hut hu
    exact reset_of_kept (owned_of_run hpre) (hkept pre (.reset t) post s₁ heq hpre) hut hu

/-- A run that loses a client goes on without it. -/
lemma lost_of_run {pre post : List (Op T)} {op : Op T} {s₁ : State T}
    (hrun : run (step w ndebug) .init (pre ++ op :: post) = some s)
    (hpre : run (step w ndebug) .init pre = some s₁) (hkept : ¬ Kept s₁ op) : Lost s := by
  obtain ⟨s₂, h, hpost⟩ := exists_step_of_run hrun hpre
  have hs₂ : Owned s₂ ∧ Lost s₂ :=
    ⟨(owned_of_run hpre).step h, lost_of_not_kept (owned_of_run hpre) hkept h⟩
  have hend := run_invariant (I := fun s => Owned s ∧ Lost s)
    (fun _ _ _ hs h => ⟨hs.1.step h, hs.2.step hs.1 h⟩) hs₂ hpost
  exact hend.2

/-- **When the life cycle holds.**  A run in which every client is made while the key exists,
and in which no thread that goes on has a client when a `reset` deletes the key, follows the
life cycle at every point; and when all threads that made clients have ended, no other run
does. -/
theorem lifeCycle_iff_kept (w : Wrapper) (ndebug : Bool) (ops : List (Op T)) (s : State T)
    (hrun : run (step w ndebug) .init ops = some s) :
    (KeptRun w ndebug ops → LifeCycle w ndebug ops) ∧
      ((∀ t ∈ s.created, s.exited t = true) → LifeCycle w ndebug ops → KeptRun w ndebug ops) := by
  refine ⟨fun hkept => hkept.lifeCycle hrun, ?_⟩
  intro hended hlife pre op post s₁ heq hpre
  by_contra hkept
  -- the client that is lost belongs to a thread that has ended by now
  obtain ⟨-, o, ho, hmem⟩ := lost_of_run (heq ▸ hrun) hpre hkept
  have hcreated : s.created[o]? = some s.created[o] := List.getElem?_eq_getElem ho
  have hcount := (hlife.deleted_once ops [] s (by simp) hrun o).2 _ hcreated
    (hended _ (List.getElem_mem ho))
  exact hmem (List.count_pos_iff.mp (by omega))

end Run

/-- Two threads use their clients and end, and a third one resets when no client is left. -/
theorem lifeCycle_of_late_reset :
    LifeCycle .redis false [.instance_ (0 : Fin 3), .instance_ 1, .instance_ 0, .exit 1, .exit 0,
      .reset 2, .exit 2] := by
  have hkept : KeptRun .redis false [.instance_ (0 : Fin 3), .instance_ 1, .instance_ 0, .exit 1,
      .exit 0, .reset 2, .exit 2] := along_iff.mp (by decide)
  exact (lifeCycle_iff_kept .redis false _ _ rfl).1 hkept

/-- Two threads have clients and one of them loses its connection: the client of the other one
is not deleted when that thread ends. -/
theorem reset_loses_clients :
    ¬ LifeCycle .mongo false [.instance_ (0 : Fin 2), .instance_ 1, .reset 0, .exit 1, .exit 0] ∧
      ¬ LifeCycle .redis false
        [.instance_ (0 : Fin 2), .instance_ 1, .reset 0, .exit 1, .exit 0] := by
  constructor
  all_goals
    intro h
    have hcount := (h.deleted_once _ [] _ (List.append_nil _).symm rfl 1).2 1 rfl rfl
    exact absurd hcount (by decide)

end CppServer.Threads.LocalSingleton
