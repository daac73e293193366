/-
# Keys for thread-specific data

A key of `pthread_key_create` gives every thread one pointer of its own.  When a thread ends,
the destructor of the key is run on the pointer of that thread, if it has one; after
`pthread_key_delete` the key holds nothing for any thread, no destructor is run any more, and
`pthread_setspecific` fails.  A pointer is an `Option`, with `none` for `NULL`.
-/
import Mathlib.Logic.Function.Basic

namespace CppServer

/-- A key: whether it was deleted, and the pointers of the threads. -/
structure ThreadKey (T V : Type) where
  valid : Bool
  specific : T → Option V

namespace ThreadKey

variable {T V : Type}

/-- `pthread_key_create`. -/
def create : ThreadKey T V := ⟨true, fun _ => none⟩

/-- `pthread_key_delete`, which fails on a key that was deleted and then changes nothing. -/
def delete (k : ThreadKey T V) : ThreadKey T V := { k with valid := false }

/-- `pthread_getspecific`.  It is also the pointer on which the destructor is run when the
thread ends. -/
def getspecific (k : ThreadKey T V) (t : T) : Option V := if k.valid then k.specific t else none

/-- `pthread_setspecific`. -/
def setspecific [DecidableEq T] (k : ThreadKey T V) (t : T) (v : Option V) : ThreadKey T V :=
  if k.valid then { k with specific := Function.update k.specific t v } else k

variable {k : ThreadKey T V} {t : T} {v : Option V}

lemma getspecific_of_valid (h : k.valid = true) (t : T) : k.getspecific t = k.specific t :=
  if_pos h

lemma valid_of_getspecific {x : V} (h : k.getspecific t = some x) : k.valid = true := by
  unfold getspecific at h
  by_contra hv
  rw [if_neg hv] at h
  exact absurd h (by simp)

@[simp] lemma getspecific_delete (k : ThreadKey T V) (t : T) : k.delete.getspecific t = none := rfl

@[simp] lemma valid_setspecific [DecidableEq T] (k : ThreadKey T V) (t : T) (v : Option V) :
    (k.setspecific t v).valid = k.valid := by
  unfold setspecific
  split <;> rfl

lemma specific_setspecific [DecidableEq T] (h : k.valid = true) :
    (k.setspecific t v).specific = Function.update k.specific t v := by
  rw [setspecific, if_pos h]

end ThreadKey

end CppServer
