/-
# Computations that log the places they touch

A computation on buffers returns, beside its value, the list of the places of the buffers that
it reads and writes.  Forgetting the list gives the computation without the log; bounds of the
accesses are proved of the list.
-/
import CppServer.Lib.Bytes

namespace CppServer

/-- A value with the places of the buffers `A` that were touched to compute it. -/
structure Traced (A α : Type) where
  val : α
  log : List (A × ℤ)

namespace Traced

variable {A α β : Type}

instance : Monad (Traced A) where
  pure x := ⟨x, []⟩
  bind x f := ⟨(f x.val).val, x.log ++ (f x.val).log⟩

@[simp] lemma val_pure (x : α) : (pure x : Traced A α).val = x := rfl

@[simp] lemma log_pure (x : α) : (pure x : Traced A α).log = [] := rfl

@[simp] lemma val_bind (x : Traced A α) (f : α → Traced A β) :
    (x >>= f).val = (f x.val).val := rfl

@[simp] lemma log_bind (x : Traced A α) (f : α → Traced A β) :
    (x >>= f).log = x.log ++ (f x.val).log := rfl

/-- All places are below `n`. -/
def Within (n : ℤ) (x : Traced A α) : Prop := ∀ a ∈ x.log, 0 ≤ a.2 ∧ a.2 < n

@[simp] lemma within_pure (n : ℤ) (x : α) : Within n (pure x : Traced A α) := by
  simp [Within]

@[simp] lemma within_bind {n : ℤ} (x : Traced A α) (f : α → Traced A β) :
    Within n (x >>= f) ↔ Within n x ∧ Within n (f x.val) := by
  rw [Within, Within, Within, log_bind]
  exact List.forall_mem_append

/-- Read one byte of the buffer `a`. -/
def read (a : A) (m : Memory) (i : ℤ) : Traced A UInt8 := ⟨m i, [(a, i)]⟩

/-- Read `k` bytes of the buffer `a`. -/
def loads (a : A) (m : Memory) (off : ℤ) (k : ℕ) : Traced A Bytes :=
  ⟨load m off k, (List.range k).map fun i : ℕ => (a, off + (i : ℤ))⟩

/-- Write the bytes `s` to the buffer `a`. -/
def stores (a : A) (m : Memory) (off : ℤ) (s : Bytes) : Traced A Memory :=
  ⟨store m off s, (List.range s.length).map fun i : ℕ => (a, off + (i : ℤ))⟩

@[simp] lemma val_read (a : A) (m : Memory) (i : ℤ) : (read a m i).val = m i := rfl

@[simp] lemma val_loads (a : A) (m : Memory) (off : ℤ) (k : ℕ) :
    (loads a m off k).val = load m off k := rfl

@[simp] lemma val_stores (a : A) (m : Memory) (off : ℤ) (s : Bytes) :
    (stores a m off s).val = store m off s := rfl

@[simp] lemma within_read {n i : ℤ} (a : A) (m : Memory) :
    Within n (read a m i) ↔ 0 ≤ i ∧ i < n := by
  simp [Within, read]

/-- The places from `off` on are below `n` when the first and the last one are. -/
lemma forall_places_iff {n off : ℤ} {k : ℕ} (hk : 0 < k) (a : A) :
    (∀ p ∈ (List.range k).map fun i : ℕ => (a, off + (i : ℤ)), 0 ≤ p.2 ∧ p.2 < n) ↔
      0 ≤ off ∧ off + k ≤ n := by
  constructor
  · intro h
    have hfirst := h (a, off + ((0 : ℕ) : ℤ)) (List.mem_map_of_mem (List.mem_range.mpr hk))
    have hlast := h (a, off + ((k - 1 : ℕ) : ℤ))
      (List.mem_map_of_mem (List.mem_range.mpr (by omega)))
    dsimp only at hfirst hlast
    omega
  · rintro ⟨h₀, hn⟩ p hp
    obtain ⟨i, hi, rfl⟩ := List.mem_map.mp hp
    have hlt : i < k := List.mem_range.mp hi
    dsimp only
    omega

lemma within_loads {n off : ℤ} {k : ℕ} (hk : 0 < k) (a : A) (m : Memory) :
    Within n (loads a m off k) ↔ 0 ≤ off ∧ off + k ≤ n :=
  forall_places_iff hk a

lemma within_stores {n off : ℤ} {s : Bytes} (hs : 0 < s.length) (a : A) (m : Memory) :
    Within n (stores a m off s) ↔ 0 ≤ off ∧ off + s.length ≤ n :=
  forall_places_iff hs a

end Traced

end CppServer
