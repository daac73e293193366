/-
# Integers, buffers and memory of a C program

An `int` is an integer that is reduced to 32 bits in two's complement.  A buffer is the list
of its bytes, and a write that does not fit has no result.  Where a program reads or writes
past the end of an array and goes on, the array is a part of a `Memory` that has a byte at
every address.
-/
import Mathlib.Algebra.Group.Int.Defs
import Mathlib.Algebra.Group.Nat.Defs
import Mathlib.Data.List.Basic
import Mathlib.Data.List.TakeWhile

namespace CppServer

/-- The conversion to `int`. -/
def cint (n : ℤ) : ℤ := n.bmod (2 ^ 32)

lemma cint_of_range {n : ℤ} (hl : -2 ^ 31 ≤ n) (hu : n < 2 ^ 31) : cint n = n :=
  Int.bmod_eq_of_le (by omega) (by omega)

lemma le_cint (n : ℤ) : -2 ^ 31 ≤ cint n := by
  have h := Int.le_bmod (x := n) (m := 2 ^ 32) (by omega)
  rw [cint]
  omega

lemma cint_lt (n : ℤ) : cint n < 2 ^ 31 := by
  have h := Int.bmod_lt (x := n) (m := 2 ^ 32) (by omega)
  rw [cint]
  omega

/-- The conversion makes no length longer. -/
lemma cint_le_of_nonneg {n : ℤ} (h : 0 ≤ n) : cint n ≤ n := by
  rw [cint, Int.bmod_eq_emod]
  split <;> omega

/-- A number behind the largest `int` comes round to the negative ones. -/
lemma cint_of_wrap {n : ℤ} (hl : 2 ^ 31 ≤ n) (hu : n < 2 ^ 32) : cint n = n - 2 ^ 32 := by
  rw [cint, Int.bmod_eq_emod]
  split <;> omega

lemma cint_cint_add (n k : ℤ) : cint (cint n + k) = cint (n + k) := Int.bmod_add_bmod

/-- The conversion to `size_t`. -/
def csize (n : ℤ) : ℤ := n % 2 ^ 64

/-- The conversion of a `size_t` to `ssize_t`. -/
def cssize (n : ℤ) : ℤ := n.bmod (2 ^ 64)

lemma cssize_of_range {n : ℤ} (hl : -2 ^ 63 ≤ n) (hu : n < 2 ^ 63) : cssize n = n :=
  Int.bmod_eq_of_le (by omega) (by omega)

/-- `std::string`, or the bytes of a buffer. -/
abbrev Bytes := List UInt8

/-- The bytes of a string literal of ASCII characters. -/
def ascii (s : String) : Bytes := s.toList.map Char.toUInt8

/-- A number that fits a byte is stored as it is. -/
lemma toNat_ofInt_of_range {n : ℤ} (hl : 0 ≤ n) (hu : n < 256) :
    (UInt8.ofInt n).toNat = n.toNat := by
  show (n % 2 ^ 8).toNat % 2 ^ 8 = n.toNat
  omega

/-! ## Buffers -/

/-- A new buffer of `n` zeros.  A negative length is too large a `size_t`, for which the
allocation throws. -/
def newBytes (n : ℤ) : Option Bytes :=
  if n < 0 then none else some (List.replicate n.toNat 0)

@[simp] lemma newBytes_natCast (n : ℕ) : newBytes n = some (List.replicate n 0) := by
  rw [newBytes, if_neg (by omega), Int.toNat_natCast]

/-- `memcpy` of `s` to the offset `off` of a buffer. -/
def writeAt (b : Bytes) (off : ℕ) (s : Bytes) : Option Bytes :=
  if off + s.length ≤ b.length then some (b.take off ++ s ++ b.drop (off + s.length)) else none

/-- A write behind the part that is already written. -/
lemma writeAt_append {a z s : Bytes} (h : s.length ≤ z.length) :
    writeAt (a ++ z) a.length s = some (a ++ s ++ z.drop s.length) := by
  have hle : a.length + s.length ≤ (a ++ z).length := by
    rw [List.length_append]
    omega
  rw [writeAt, if_pos hle, List.take_left, List.drop_append]
  simp

lemma length_writeAt {b b' s : Bytes} {off : ℕ} (h : writeAt b off s = some b') :
    b'.length = b.length := by
  unfold writeAt at h
  split at h
  · rename_i hle
    obtain rfl := Option.some.inj h
    simp only [List.length_append, List.length_take, List.length_drop]
    omega
  · exact absurd h (by simp)

/-- No byte ends the string before its end. -/
def NoNul (s : Bytes) : Prop := ∀ b ∈ s, b ≠ 0

instance (s : Bytes) : Decidable (NoNul s) := List.decidableBAll (· ≠ 0) s

/-- `strlen` of a string that is followed by a NUL byte. -/
def cstrlen (s : Bytes) : ℕ := (s.takeWhile (· ≠ 0)).length

lemma cstrlen_of_noNul {s : Bytes} (h : NoNul s) : cstrlen s = s.length := by
  rw [cstrlen, List.takeWhile_eq_self_iff.mpr (by simpa [NoNul] using h)]

/-! ## Memory -/

/-- A byte at every address. -/
abbrev Memory := ℤ → UInt8

/-- The `n` bytes from the address `off` on. -/
def load (m : Memory) (off : ℤ) (n : ℕ) : Bytes := (List.range n).map fun i : ℕ => m (off + (i : ℤ))

/-- Write `s` to the addresses from `off` on. -/
def store (m : Memory) (off : ℤ) (s : Bytes) : Memory := fun i =>
  if off ≤ i ∧ i < off + s.length then s.getD (i - off).toNat 0 else m i

section Memory

variable {m m' : Memory} {off : ℤ} {n k : ℕ} {s : Bytes}

@[simp] lemma length_load (m : Memory) (off : ℤ) (n : ℕ) : (load m off n).length = n := by
  simp [load]

lemma load_add (m : Memory) (off : ℤ) (n k : ℕ) :
    load m off (n + k) = load m off n ++ load m (off + n) k := by
  simp only [load, List.range_add, List.map_append, List.map_map]
  congr 1
  refine List.map_congr_left fun i _ => ?_
  show m (off + ((n + i : ℕ) : ℤ)) = m (off + (n : ℤ) + (i : ℤ))
  congr 1
  push_cast
  omega

lemma load_congr (h : ∀ i : ℤ, off ≤ i → i < off + n → m i = m' i) :
    load m off n = load m' off n := by
  refine List.map_congr_left fun i hi => ?_
  have hlt : i < n := List.mem_range.mp hi
  exact h _ (by omega) (by omega)

lemma getElem_load {i : ℕ} (hi : i < (load m off n).length) : (load m off n)[i] = m (off + i) := by
  simp [load]

/-- The bytes that were read from the address 0 on. -/
lemma apply_of_load (h : load m 0 s.length = s) {i : ℕ} (hi : i < s.length) : m i = s[i] := by
  have hget : (load m 0 s.length)[i]? = s[i]? := by rw [h]
  rw [List.getElem?_eq_getElem hi, List.getElem?_eq_getElem (by simpa using hi), getElem_load,
    Option.some.injEq, Int.zero_add] at hget
  exact hget

lemma store_of_lt {i : ℤ} (h : i < off) : store m off s i = m i :=
  if_neg fun hc => by omega

@[simp] lemma store_singleton_self (m : Memory) (i : ℤ) (x : UInt8) : store m i [x] i = x := by
  have hin : i ≤ i ∧ i < i + ([x] : Bytes).length := ⟨Int.le_refl i, Int.lt_succ i⟩
  rw [store, if_pos hin, Int.sub_self]
  rfl

/-- The front of what was read. -/
lemma load_front {t : Bytes} (h : load m 0 (s ++ t).length = s ++ t) : load m 0 s.length = s := by
  rw [List.length_append, load_add] at h
  exact List.append_inj_left h (length_load _ _ _)

/-- What was stored is read back. -/
lemma load_store (m : Memory) (off : ℤ) (s : Bytes) : load (store m off s) off s.length = s := by
  refine List.ext_getElem (by simp) fun i hi hi' => ?_
  have hsub : (off + (i : ℤ) - off).toNat = i := by omega
  have hin : off ≤ off + (i : ℤ) ∧ off + (i : ℤ) < off + s.length := by omega
  rw [getElem_load, store, if_pos hin, hsub, List.getD_eq_getElem?_getD,
    List.getElem?_eq_getElem hi', Option.getD_some]

/-- The string at the address 0, which ends at the address `n` at the latest. -/
def cString (m : Memory) (n : ℕ) : Bytes := (load m 0 n).takeWhile (· ≠ 0)

lemma length_cString_le (m : Memory) (n : ℕ) : (cString m n).length ≤ n := by
  have h := (List.takeWhile_sublist (l := load m 0 n) fun b : UInt8 => decide (b ≠ 0)).length_le
  rwa [length_load] at h

/-- Bytes that are not NUL, followed by NUL, are read as a string. -/
lemma cString_eq (hs : NoNul s) (hload : load m 0 s.length = s) (hnul : m s.length = 0)
    (hn : s.length < n) : cString m n = s := by
  obtain ⟨k, rfl⟩ : ∃ k, n = s.length + (1 + k) := ⟨n - s.length - 1, by omega⟩
  have hhead : load m s.length (1 + k) = 0 :: load m (s.length + 1) k := by
    rw [load_add]
    simp [load, hnul]
  rw [cString, load_add, hload, Int.zero_add, hhead]
  rw [List.takeWhile_append_of_pos (by simpa [NoNul] using hs)]
  simp

end Memory

end CppServer
