/-
# Block by block

A message is padded to whole blocks, and a block cipher is applied to it one block after the
other.  If decrypting a block undoes encrypting it, the same is true of messages.
-/
import Mathlib.Tactic.SplitIfs
import CppServer.Lib.Bytes

namespace CppServer

/-- A block cipher on blocks of `n` bytes with keys `K`. -/
structure BlockCipher (n : ℕ) (K : Type) where
  encrypt : K → Bytes → Bytes
  decrypt : K → Bytes → Bytes
  length_encrypt : ∀ k b, b.length = n → (encrypt k b).length = n
  length_decrypt : ∀ k b, b.length = n → (decrypt k b).length = n

/-- Decryption under the key undoes encryption. -/
def BlockCipher.Inverts {n : ℕ} {K : Type} (C : BlockCipher n K) (k : K) : Prop :=
  ∀ b : Bytes, b.length = n → C.decrypt k (C.encrypt k b) = b

/-- Exchange two strings and leave all others. -/
def exchanging (a b s : Bytes) : Bytes := if s = a then b else if s = b then a else s

lemma exchanging_exchanging (a b s : Bytes) : exchanging a b (exchanging a b s) = s := by
  by_cases ha : s = a
  · by_cases hb : b = a <;> simp [exchanging, ha, hb]
  · by_cases hb : s = b <;> simp [exchanging, ha, hb]

/-- A block cipher of which one block under one key is known. -/
def BlockCipher.ofSample {n : ℕ} {K : Type} [DecidableEq K] (key : K) (a b : Bytes)
    (ha : a.length = n) (hb : b.length = n) : BlockCipher n K where
  encrypt k s := if k = key then exchanging a b s else s
  decrypt k s := if k = key then exchanging a b s else s
  length_encrypt k s hs := by
    simp only [exchanging]
    split_ifs <;> assumption
  length_decrypt k s hs := by
    simp only [exchanging]
    split_ifs <;> assumption

lemma BlockCipher.ofSample_inverts {n : ℕ} {K : Type} [DecidableEq K] (key k : K) (a b : Bytes)
    (ha : a.length = n) (hb : b.length = n) : (ofSample key a b ha hb).Inverts k := by
  intro s _
  by_cases hk : k = key
  · simp [ofSample, hk, exchanging_exchanging]
  · simp [ofSample, hk]

/-- A text with its padding: the number of bytes up to the next multiple of `n`, that often. -/
def padTo (n : ℕ) (s : Bytes) : Bytes :=
  s ++ List.replicate (n - s.length % n) (UInt8.ofNat (n - s.length % n))

lemma length_padTo {n : ℕ} (hn : 0 < n) (s : Bytes) :
    (padTo n s).length = n * (s.length / n + 1) := by
  have hmod := Nat.mod_lt s.length hn
  have hdiv := Nat.div_add_mod s.length n
  rw [padTo, List.length_append, List.length_replicate, Nat.mul_succ]
  omega

/-- Apply `f` to each of the first `k` blocks of `n` bytes. -/
def mapBlocks (f : Bytes → Bytes) (n : ℕ) : ℕ → Bytes → Bytes
  | 0, _ => []
  | k + 1, s => f (s.take n) ++ mapBlocks f n k (s.drop n)

section MapBlocks

variable {f g : Bytes → Bytes} {n k : ℕ} {s : Bytes}

lemma length_mapBlocks (hf : ∀ b : Bytes, b.length = n → (f b).length = n)
    (hs : n * k ≤ s.length) : (mapBlocks f n k s).length = n * k := by
  induction k generalizing s with
  | zero => rfl
  | succ k ih =>
    rw [Nat.mul_succ] at hs ⊢
    have htake : (s.take n).length = n := by
      rw [List.length_take]
      omega
    have hdrop : n * k ≤ (s.drop n).length := by
      rw [List.length_drop]
      omega
    rw [mapBlocks, List.length_append, hf _ htake, ih hdrop]
    omega

/-- A first block in front. -/
lemma mapBlocks_append {b : Bytes} (hb : b.length = n) :
    mapBlocks f n (k + 1) (b ++ s) = f b ++ mapBlocks f n k s := by
  rw [mapBlocks, ← hb, List.take_left, List.drop_left]

/-- A last block behind. -/
lemma mapBlocks_succ (f : Bytes → Bytes) (n k : ℕ) (s : Bytes) :
    mapBlocks f n (k + 1) s = mapBlocks f n k s ++ f ((s.drop (k * n)).take n) := by
  induction k generalizing s with
  | zero => simp [mapBlocks]
  | succ k ih =>
    have hdrop : (s.drop n).drop (k * n) = s.drop ((k + 1) * n) := by
      rw [List.drop_drop, Nat.succ_mul, Nat.add_comm]
    rw [mapBlocks, ih (s.drop n), hdrop, ← List.append_assoc]
    rfl

/-- Inverse functions on blocks are inverse on messages. -/
lemma mapBlocks_mapBlocks (hf : ∀ b : Bytes, b.length = n → (f b).length = n)
    (hgf : ∀ b : Bytes, b.length = n → g (f b) = b) (hs : s.length = n * k) :
    mapBlocks g n k (mapBlocks f n k s) = s := by
  induction k generalizing s with
  | zero =>
    rw [Nat.mul_zero, List.length_eq_zero_iff] at hs
    rw [hs]
    rfl
  | succ k ih =>
    rw [Nat.mul_succ] at hs
    have htake : (s.take n).length = n := by
      rw [List.length_take]
      omega
    have hdrop : (s.drop n).length = n * k := by
      rw [List.length_drop]
      omega
    have hsplit : mapBlocks f n (k + 1) s = f (s.take n) ++ mapBlocks f n k (s.drop n) := rfl
    rw [hsplit, mapBlocks_append (hf _ htake), hgf _ htake, ih hdrop, List.take_append_drop]

end MapBlocks

end CppServer
