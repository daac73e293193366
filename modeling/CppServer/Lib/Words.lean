/-
# Unsigned words and the bytes of an integer object

A `size_t` is a natural number below `2 ^ 64`, and sums and differences are reduced to that
range.  An integer object of `k` bytes is a bit vector of `8 * k` bits; its object
representation is the list of its bytes, the least significant one first, as on every host
that the program is built for.  The network order is the reverse of it.
-/
import CppServer.Lib.Bytes
import Mathlib.Data.List.Basic

namespace CppServer

/-- The sum of two `size_t`. -/
def sizeAdd (a b : ℕ) : ℕ := (a + b) % 2 ^ 64

/-- The difference of two `size_t`. -/
def sizeSub (a b : ℕ) : ℕ := (a + (2 ^ 64 - b % 2 ^ 64)) % 2 ^ 64

lemma sizeAdd_of_lt {a b : ℕ} (h : a + b < 2 ^ 64) : sizeAdd a b = a + b := Nat.mod_eq_of_lt h

lemma sizeSub_of_le {a b : ℕ} (hle : b ≤ a) (ha : a < 2 ^ 64) : sizeSub a b = a - b := by
  rw [sizeSub]
  omega

/-! ## Little-endian bytes -/

/-- The lowest `k` bytes of a number, the least significant one first. -/
def leBytes : ℕ → ℕ → Bytes
  | 0, _ => []
  | k + 1, n => UInt8.ofNat n :: leBytes k (n / 256)

/-- The number with the given bytes, the least significant one first. -/
def ofLeBytes : Bytes → ℕ
  | [] => 0
  | b :: bs => b.toNat + 256 * ofLeBytes bs

@[simp] lemma length_leBytes (k n : ℕ) : (leBytes k n).length = k := by
  induction k generalizing n with
  | zero => rfl
  | succ k ih => rw [leBytes, List.length_cons, ih]

lemma ofLeBytes_lt (bs : Bytes) : ofLeBytes bs < 2 ^ (8 * bs.length) := by
  induction bs with
  | nil => simp [ofLeBytes]
  | cons b bs ih =>
    have hb : b.toNat < 256 := b.toNat_lt
    have hpow : 2 ^ (8 * (b :: bs).length) = 256 * 2 ^ (8 * bs.length) := by
      rw [List.length_cons, Nat.mul_add, Nat.pow_add, Nat.mul_comm]
    rw [ofLeBytes, hpow]
    omega

lemma ofLeBytes_leBytes (k n : ℕ) : ofLeBytes (leBytes k n) = n % 2 ^ (8 * k) := by
  induction k generalizing n with
  | zero => simp [leBytes, ofLeBytes, Nat.mod_one]
  | succ k ih =>
    have hpow : 2 ^ (8 * (k + 1)) = 256 * 2 ^ (8 * k) := by
      rw [Nat.mul_add, Nat.pow_add, Nat.mul_comm]
    have hbyte : (UInt8.ofNat n).toNat = n % 256 := UInt8.toNat_ofNat'
    rw [leBytes, ofLeBytes, ih, hbyte, hpow, Nat.mod_mul]

lemma leBytes_ofLeBytes (bs : Bytes) : leBytes bs.length (ofLeBytes bs) = bs := by
  induction bs with
  | nil => rfl
  | cons b bs ih =>
    have hb : b.toNat < 256 := b.toNat_lt
    have hdiv : (b.toNat + 256 * ofLeBytes bs) / 256 = ofLeBytes bs := by omega
    have hbyte : UInt8.ofNat (b.toNat + 256 * ofLeBytes bs) = b := by
      refine UInt8.toNat_inj.mp ?_
      rw [UInt8.toNat_ofNat']
      omega
    rw [List.length_cons, ofLeBytes, leBytes, hdiv, hbyte, ih]

/-! ## Integer objects -/

section Object

variable {k : ℕ}

/-- The object representation of an integer of `k` bytes. -/
def objBytes (x : BitVec (8 * k)) : Bytes := leBytes k x.toNat

/-- The integer of `k` bytes into which `memcpy` copied the bytes. -/
def ofObjBytes (k : ℕ) (bs : Bytes) : BitVec (8 * k) := BitVec.ofNat (8 * k) (ofLeBytes bs)

/-- `htobe16`, `htobe32` and `htobe64` on a little-endian host, which are their own inverses
`be16toh`, `be32toh` and `be64toh`: the bytes in the other order. -/
def byteSwap (x : BitVec (8 * k)) : BitVec (8 * k) := ofObjBytes k (objBytes x).reverse

@[simp] lemma length_objBytes (x : BitVec (8 * k)) : (objBytes x).length = k :=
  length_leBytes k _

@[simp] lemma ofObjBytes_objBytes (x : BitVec (8 * k)) : ofObjBytes k (objBytes x) = x := by
  rw [ofObjBytes, objBytes, ofLeBytes_leBytes, Nat.mod_eq_of_lt x.isLt, BitVec.ofNat_toNat,
    BitVec.setWidth_eq]

lemma objBytes_ofObjBytes {bs : Bytes} (h : bs.length = k) : objBytes (ofObjBytes k bs) = bs := by
  subst h
  rw [objBytes, ofObjBytes, BitVec.toNat_ofNat, Nat.mod_eq_of_lt (ofLeBytes_lt bs),
    leBytes_ofLeBytes]

lemma objBytes_byteSwap (x : BitVec (8 * k)) : objBytes (byteSwap x) = (objBytes x).reverse :=
  objBytes_ofObjBytes (by simp)

/-- The two conversions undo each other. -/
@[simp] lemma byteSwap_byteSwap (x : BitVec (8 * k)) : byteSwap (byteSwap x) = x := by
  rw [byteSwap, objBytes_byteSwap, List.reverse_reverse, ofObjBytes_objBytes]

end Object

end CppServer
