/-
# What DES decryption reads

`Des_Decrypt` of `thirdpart/https/aes.h` takes any ciphertext.  It decrypts the whole blocks of
it into the vector `vecCleartext`, takes the number of padding bytes from the place
`nRaw_size - 1` of that vector, where `nRaw_size` is the length of the ciphertext and not of the
vector, and cuts that many bytes off the end.  Neither the place nor the number is checked.

Both are inside the vector exactly for a positive number of whole blocks whose last decrypted
byte is no larger than their length.
-/
import CppServer.Https.Des

namespace CppServer.Crypto

/-- `nRaw_size` of `Des_Decrypt`. -/
def nRawSize (lib : DesLibrary) (data : Bytes) : ℤ := cint (lib.base64Decode data).length

/-- `vecCleartext` behind the loop of `Des_Decrypt`. -/
def vecCleartext (lib : DesLibrary) (data key : Bytes) : Bytes :=
  (List.range ((nRawSize lib data).tdiv 8).toNat).foldl
    (desDecryptAt (lib.des.decrypt (key.take 8)) (lib.base64Decode data)) []

/-- The accesses behind the loop are inside the vector: `vecCleartext[nRaw_size - 1]`, and the
range that ends `nPadNum` bytes before its end. -/
structure DecryptSafe (lib : DesLibrary) (data key : Bytes) : Prop where
  nonneg : 0 ≤ nRawSize lib data - 1
  index : nRawSize lib data - 1 < (vecCleartext lib data key).length
  range : ∀ nPadNum, (vecCleartext lib data key)[(nRawSize lib data - 1).toNat]? = some nPadNum →
    nPadNum.toNat ≤ (vecCleartext lib data key).length

/-- The decryption of the block that ends at `nRaw_size`. -/
def lastBlock (lib : DesLibrary) (data key : Bytes) : Bytes :=
  lib.des.decrypt (key.take 8)
    (((lib.base64Decode data).drop ((nRawSize lib data).toNat - 8)).take 8)

/-- The ciphertext, as far as its length fits an `int`, has at least one block and only whole
blocks, and the last byte of the last one decrypts to no more than its length. -/
def WellPadded (lib : DesLibrary) (data key : Bytes) : Prop :=
  0 < nRawSize lib data ∧ nRawSize lib data % 8 = 0 ∧
    ∃ b, (lastBlock lib data key)[7]? = some b ∧ (b.toNat : ℤ) ≤ nRawSize lib data

section Bounds

variable {lib : DesLibrary} {data key : Bytes}

lemma vecCleartext_eq (h : 0 < nRawSize lib data) :
    vecCleartext lib data key = mapBlocks (lib.des.decrypt (key.take 8)) 8
      ((nRawSize lib data).toNat / 8) (lib.base64Decode data) := by
  have hj : ((nRawSize lib data).tdiv 8).toNat = (nRawSize lib data).toNat / 8 := by
    rw [Int.tdiv_eq_ediv_of_nonneg (by omega)]
    omega
  rw [vecCleartext, hj, foldl_desDecryptAt]

/-- Every block that the loop reads is a part of the ciphertext. -/
lemma toNat_nRawSize_le (lib : DesLibrary) (data : Bytes) :
    (nRawSize lib data).toNat ≤ (lib.base64Decode data).length := by
  have h := cint_le_of_nonneg (n := (lib.base64Decode data).length) (by omega)
  rw [nRawSize]
  omega

lemma length_vecCleartext (key : Bytes) (h : 0 < nRawSize lib data) :
    (vecCleartext lib data key).length = 8 * ((nRawSize lib data).toNat / 8) := by
  have hle := toNat_nRawSize_le lib data
  rw [vecCleartext_eq h]
  exact length_mapBlocks (lib.des.length_decrypt _) (by omega)

/-- The last place of the vector is the last byte of the last block. -/
lemma getElem?_vecCleartext (h : 0 < nRawSize lib data) (hmod : nRawSize lib data % 8 = 0) :
    (vecCleartext lib data key)[(nRawSize lib data - 1).toNat]? =
      (lastBlock lib data key)[7]? := by
  have hle := toNat_nRawSize_le lib data
  obtain ⟨k, hk⟩ : ∃ k : ℕ, nRawSize lib data = 8 * (k + 1) :=
    ⟨(nRawSize lib data).toNat / 8 - 1, by omega⟩
  have hdiv : (nRawSize lib data).toNat / 8 = k + 1 := by omega
  have hlast : (nRawSize lib data).toNat - 8 = k * 8 := by omega
  have hidx : (nRawSize lib data - 1).toNat = 8 * k + 7 := by omega
  have hlen : (mapBlocks (lib.des.decrypt (key.take 8)) 8 k (lib.base64Decode data)).length =
      8 * k := length_mapBlocks (lib.des.length_decrypt _) (by omega)
  rw [vecCleartext_eq h, lastBlock, hdiv, hlast, hidx, mapBlocks_succ,
    List.getElem?_append_right (by omega), hlen, Nat.add_sub_cancel_left]

/-- Decryption has a result exactly if its accesses are inside the vector. -/
lemma exists_desDecrypt_iff_safe :
    (∃ text, desDecrypt lib data key = some text) ↔ DecryptSafe lib data key := by
  have hdecrypt : desDecrypt lib data key =
      if nRawSize lib data < 1 then none
      else (vecCleartext lib data key)[(nRawSize lib data - 1).toNat]?.bind fun nPadNum =>
        if nPadNum.toNat ≤ (vecCleartext lib data key).length then
          some ((vecCleartext lib data key).take
            ((vecCleartext lib data key).length - nPadNum.toNat))
        else none := rfl
  rw [hdecrypt]
  constructor
  · rintro ⟨text, htext⟩
    split at htext
    · exact absurd htext (by simp)
    · obtain ⟨nPadNum, hget, hpad⟩ := Option.bind_eq_some_iff.mp htext
      split at hpad
      · rename_i hle
        have hlt := (List.getElem?_eq_some_iff.mp hget).1
        refine ⟨by omega, by omega, fun b hb => ?_⟩
        obtain rfl : nPadNum = b := Option.some.inj (hget.symm.trans hb)
        exact hle
      · exact absurd hpad (by simp)
  · rintro ⟨hnonneg, hindex, hrange⟩
    have hget := List.getElem?_eq_getElem
      (l := vecCleartext lib data key) (i := (nRawSize lib data - 1).toNat) (by omega)
    rw [if_neg (by omega), hget, Option.bind_some, if_pos (hrange _ hget)]
    exact ⟨_, rfl⟩

/-- The place of the padding is in the vector exactly for whole blocks, and the padding is then
the last byte that was decrypted. -/
lemma decryptSafe_iff_wellPadded : DecryptSafe lib data key ↔ WellPadded lib data key := by
  constructor
  · rintro ⟨hnonneg, hindex, hrange⟩
    have hpos : 0 < nRawSize lib data := by omega
    have hlen := length_vecCleartext key hpos
    have hmod : nRawSize lib data % 8 = 0 := by omega
    have hget := List.getElem?_eq_getElem
      (l := vecCleartext lib data key) (i := (nRawSize lib data - 1).toNat) (by omega)
    have hle := hrange _ hget
    rw [getElem?_vecCleartext hpos hmod] at hget
    exact ⟨hpos, hmod, _, hget, by omega⟩
  · rintro ⟨hpos, hmod, b, hb, hle⟩
    have hlen := length_vecCleartext key hpos
    refine ⟨by omega, by omega, fun nPadNum hget => ?_⟩
    rw [getElem?_vecCleartext hpos hmod, hb] at hget
    obtain rfl := Option.some.inj hget
    omega

end Bounds

/-- **When DES decryption stays in its vector.**  For every ciphertext, key and block function,
the accesses of `Des_Decrypt` are inside the decrypted bytes, and it yields a string, exactly if
the ciphertext is a positive number of whole blocks and its last decrypted byte is at most its
length. -/
theorem des_decrypt_safe_iff_wellPadded (lib : DesLibrary) (data key : Bytes) :
    (DecryptSafe lib data key ↔ WellPadded lib data key) ∧
      ((∃ text, desDecrypt lib data key = some text) ↔ WellPadded lib data key) := by
  refine ⟨decryptSafe_iff_wellPadded, ?_⟩
  rw [exists_desDecrypt_iff_safe, decryptSafe_iff_wellPadded]

/-- From the empty text nothing is decrypted, and the padding is read in front of the vector. -/
theorem des_decrypt_empty_not_safe :
    sampleDesLibrary.base64Decode [] = [] ∧
      ¬ DecryptSafe sampleDesLibrary [] (ascii "12341234") ∧
      desDecrypt sampleDesLibrary [] (ascii "12341234") = none := by
  have hsize : nRawSize sampleDesLibrary [] = 0 := cint_of_range (by decide) (by decide)
  have hsafe : ¬ DecryptSafe sampleDesLibrary [] (ascii "12341234") := by
    intro h
    have hnonneg := h.nonneg
    rw [hsize] at hnonneg
    exact absurd hnonneg (by decide)
  refine ⟨rfl, hsafe, Option.eq_none_iff_forall_ne_some.mpr fun text htext => ?_⟩
  exact hsafe (exists_desDecrypt_iff_safe.mp ⟨text, htext⟩)

end CppServer.Crypto
