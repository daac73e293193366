/-
# DES with PKCS5 padding

`PKCS5Padding`, `Des_Encrypt` and `Des_Decrypt` of `thirdpart/https/aes.h`.  The padded text
is encrypted block by block into an array of 1024 bytes on the stack, whose size is checked
nowhere.

Every write goes through `writeAt`, so that an encryption has no result if one of its writes
is outside the buffer it is meant for; likewise the decryption has no result if it reads the
number of padding bytes outside the vector or takes more bytes off than there are.
-/
import CppServer.Lib.Blocks
import CppServer.Lib.Run

namespace CppServer.Crypto

/-- The code outside the repository that the functions of this file call.  A key of DES is
scheduled from its 8 bytes. -/
structure DesLibrary where
  des : BlockCipher 8 Bytes
  base64Encode : Bytes → Bytes
  base64Decode : Bytes → Bytes

/-- What is assumed of that code. -/
structure DesLibrary.Documented (lib : DesLibrary) : Prop where
  des : ∀ key, lib.des.Inverts key
  base64 : ∀ s, lib.base64Decode (lib.base64Encode s) = s

/-- `PKCS5Padding`. -/
def pkcs5Padding (data : Bytes) : Option Bytes := do
  let nRaw_size := cint data.length
  let k := nRaw_size.tmod 8
  let nPidding_size := 8 - k
  let buf ← newBytes (cint (nRaw_size + nPidding_size))
  let buf ← writeAt buf 0 (data.take nRaw_size.toNat)
  run (fun buf i => writeAt buf i [UInt8.ofNat nPidding_size.toNat]) buf
    (List.range' nRaw_size.toNat nPidding_size.toNat)

/-- The body of the loop of `Des_Encrypt`. -/
def desEncryptAt (enc : Bytes → Bytes) (buf szCommand : Bytes) (i : ℕ) : Option Bytes :=
  writeAt szCommand (i * 8) (enc ((buf.drop (i * 8)).take 8))

/-- `Des_Encrypt`. -/
def desEncrypt (lib : DesLibrary) (data key : Bytes) : Option Bytes := do
  let szCommand : Bytes := List.replicate 1024 0
  let nRaw_size := cint data.length
  let buf ← pkcs5Padding data
  let j := nRaw_size.tdiv 8 + 1
  let KEY := key.take 8
  let szCommand ← run (desEncryptAt (lib.des.encrypt KEY) buf) szCommand (List.range j.toNat)
  let nLen := cint (j * 8)
  return lib.base64Encode (szCommand.take nLen.toNat)

/-- The body of the loop of `Des_Decrypt`. -/
def desDecryptAt (dec : Bytes → Bytes) (szData vecCleartext : Bytes) (i : ℕ) : Bytes :=
  vecCleartext ++ dec ((szData.drop (i * 8)).take 8)

/-- `Des_Decrypt`. -/
def desDecrypt (lib : DesLibrary) (data key : Bytes) : Option Bytes := do
  let strSrcHex := lib.base64Decode data
  let KEY := key.take 8
  let nRaw_size := cint strSrcHex.length
  let j := nRaw_size.tdiv 8
  let vecCleartext :=
    (List.range j.toNat).foldl (desDecryptAt (lib.des.decrypt KEY) strSrcHex) []
  if nRaw_size < 1 then none
  else do
    let nPadNum ← vecCleartext[(nRaw_size - 1).toNat]?
    if nPadNum.toNat ≤ vecCleartext.length then
      return vecCleartext.take (vecCleartext.length - nPadNum.toNat)
    else none

/-! ## The padding -/

/-- Bytes written one after the other fill the buffer. -/
lemma run_writeAt_fill (x : UInt8) (k : ℕ) {a z : Bytes} (hz : z.length = k) :
    run (fun buf i => writeAt buf i [x]) (a ++ z) (List.range' a.length k) =
      some (a ++ List.replicate k x) := by
  induction k generalizing a z with
  | zero =>
    rw [List.length_eq_zero_iff.mp hz]
    rfl
  | succ k ih =>
    have hlen : (a ++ [x]).length = a.length + 1 := by simp
    rw [List.range'_succ, run_cons, writeAt_append (by simp [hz]), Option.bind_some, ← hlen,
      ih (by simp [hz]), List.append_assoc, List.singleton_append, ← List.replicate_succ]

/-- `PKCS5Padding` stays in its vector and pads the text. -/
lemma pkcs5Padding_eq {data : Bytes} (hmax : data.length < 2 ^ 31 - 8) :
    pkcs5Padding data = some (padTo 8 data) := by
  have hsize : cint data.length = data.length := cint_of_range (by omega) (by omega)
  have hmod : (data.length : ℤ).tmod 8 = ((data.length % 8 : ℕ) : ℤ) := by
    rw [Int.tmod_eq_emod_of_nonneg (by omega)]
    omega
  have hpad : ((8 : ℤ) - ((data.length % 8 : ℕ) : ℤ)).toNat = 8 - data.length % 8 := by omega
  have hresize : cint ((data.length : ℤ) + (8 - ((data.length % 8 : ℕ) : ℤ))) =
      ((data.length + (8 - data.length % 8) : ℕ) : ℤ) := by
    rw [cint_of_range (by omega) (by omega)]
    omega
  have hwrite : writeAt (List.replicate (data.length + (8 - data.length % 8)) 0) 0 data =
      some (data ++ List.replicate (8 - data.length % 8) 0) := by
    have h := writeAt_append (a := []) (z := List.replicate (data.length + (8 - data.length % 8)) 0)
      (s := data) (by rw [List.length_replicate]; omega)
    simpa using h
  simp only [pkcs5Padding, hsize, hmod, hpad, hresize, newBytes_natCast, Int.toNat_natCast, List.take_length,
    Option.bind_eq_bind, Option.bind_some, hwrite]
  exact run_writeAt_fill _ _ (by simp)

/-! ## Encrypting -/

section Encrypt

variable {enc : Bytes → Bytes} {buf : Bytes}

/-- The loop fills the array block by block, as long as it has room. -/
lemma run_desEncryptAt (henc : ∀ b : Bytes, b.length = 8 → (enc b).length = 8) {n j : ℕ}
    (hbuf : 8 * j ≤ buf.length) (hj : 8 * j ≤ n) :
    run (desEncryptAt enc buf) (List.replicate n 0) (List.range j) =
      some (mapBlocks enc 8 j buf ++ List.replicate (n - 8 * j) 0) := by
  induction j with
  | zero => simp [mapBlocks]
  | succ j ih =>
    have hlen : (mapBlocks enc 8 j buf).length = j * 8 := by
      rw [length_mapBlocks henc (by omega), Nat.mul_comm]
    have hblock : (enc ((buf.drop (j * 8)).take 8)).length = 8 := by
      refine henc _ ?_
      rw [List.length_take, List.length_drop]
      omega
    have hrest : n - 8 * j - 8 = n - 8 * (j + 1) := by omega
    rw [List.range_succ, run_append, ih (by omega) (by omega), Option.bind_some, run_singleton,
      desEncryptAt, ← hlen, writeAt_append (by rw [hlen, hblock, List.length_replicate]; omega),
      hlen, hblock, List.drop_replicate, hrest, mapBlocks_succ]

/-- All blocks that were written had room. -/
lemma le_of_run_desEncryptAt (henc : ∀ b : Bytes, b.length = 8 → (enc b).length = 8) {j : ℕ}
    {sz sz' : Bytes} (hbuf : 8 * j ≤ buf.length)
    (h : run (desEncryptAt enc buf) sz (List.range j) = some sz') : 8 * j ≤ sz.length := by
  cases j with
  | zero => omega
  | succ j =>
    rw [List.range_succ] at h
    obtain ⟨sz₁, h₁, h₂⟩ := run_snoc_eq_some.mp h
    -- the writes before the last one do not change the size of the array
    have hsz : sz₁.length = sz.length :=
      run_invariant (I := fun b : Bytes => b.length = sz.length)
        (fun _ _ _ hb hstep => (length_writeAt hstep).trans hb) rfl h₁
    have hblock : (enc ((buf.drop (j * 8)).take 8)).length = 8 := by
      refine henc _ ?_
      rw [List.length_take, List.length_drop]
      omega
    rw [desEncryptAt, writeAt, hblock] at h₂
    split at h₂
    · omega
    · exact absurd h₂ (by simp)

/-- `Des_Encrypt` behind the padding. -/
lemma desEncrypt_of_lt (lib : DesLibrary) {data key : Bytes} (hkey : key.length = 8)
    (hmax : data.length < 2 ^ 31 - 8) :
    desEncrypt lib data key =
      (run (desEncryptAt (lib.des.encrypt key) (padTo 8 data)) (List.replicate 1024 0)
        (List.range (data.length / 8 + 1))).map
        fun szCommand => lib.base64Encode (szCommand.take (8 * (data.length / 8 + 1))) := by
  have hsize : cint data.length = data.length := cint_of_range (by omega) (by omega)
  have hdiv : (data.length : ℤ).tdiv 8 + 1 = ((data.length / 8 + 1 : ℕ) : ℤ) := by
    rw [Int.tdiv_eq_ediv_of_nonneg (by omega)]
    omega
  have hlen : (cint (((data.length / 8 + 1 : ℕ) : ℤ) * 8)).toNat = 8 * (data.length / 8 + 1) := by
    rw [cint_of_range (by omega) (by omega)]
    omega
  have hKEY : key.take 8 = key := List.take_of_length_le hkey.le
  simp only [desEncrypt, hsize, hdiv, hlen, hKEY, pkcs5Padding_eq hmax, Int.toNat_natCast,
    Option.bind_eq_bind, Option.bind_some, Option.pure_def, Option.map_eq_bind, Function.comp_def]

end Encrypt

/-! ## Decrypting -/

section Decrypt

lemma foldl_desDecryptAt (dec : Bytes → Bytes) (szData : Bytes) (j : ℕ) :
    (List.range j).foldl (desDecryptAt dec szData) [] = mapBlocks dec 8 j szData := by
  induction j with
  | zero => rfl
  | succ j ih =>
    rw [List.range_succ, List.foldl_append, ih, mapBlocks_succ]
    rfl

/-- Decrypting gives back the text that was padded and encrypted. -/
lemma desDecrypt_eq {lib : DesLibrary} (hlib : lib.Documented) {s key : Bytes}
    (hmax : s.length < 1024) (hkey : key.length = 8) :
    desDecrypt lib (lib.base64Encode
      (mapBlocks (lib.des.encrypt key) 8 (s.length / 8 + 1) (padTo 8 s))) key = some s := by
  have hpadded := length_padTo (n := 8) (by omega) s
  obtain ⟨c, hc⟩ : ∃ c, c = mapBlocks (lib.des.encrypt key) 8 (s.length / 8 + 1) (padTo 8 s) :=
    ⟨_, rfl⟩
  have hclen : c.length = 8 * (s.length / 8 + 1) := by
    rw [hc]
    exact length_mapBlocks (lib.des.length_encrypt _) hpadded.ge
  have hKEY : key.take 8 = key := List.take_of_length_le hkey.le
  have hsize : cint c.length = c.length := cint_of_range (by omega) (by omega)
  have hdiv : ((c.length : ℤ).tdiv 8).toNat = s.length / 8 + 1 := by
    rw [Int.tdiv_eq_ediv_of_nonneg (by omega)]
    omega
  have hplain : mapBlocks (lib.des.decrypt key) 8 (s.length / 8 + 1) c = padTo 8 s := by
    rw [hc]
    exact mapBlocks_mapBlocks (lib.des.length_encrypt _) (hlib.des key) hpadded
  -- the last byte of the padding says how much of it there is
  have hpad : (padTo 8 s)[((c.length : ℤ) - 1).toNat]? = some (UInt8.ofNat (8 - s.length % 8)) := by
    have hidx : ((c.length : ℤ) - 1).toNat = s.length + (8 - s.length % 8 - 1) := by omega
    rw [hidx, padTo, List.getElem?_append_right (by omega), Nat.add_sub_cancel_left,
      List.getElem?_replicate, if_pos (by omega)]
  have hnat : (UInt8.ofNat (8 - s.length % 8)).toNat = 8 - s.length % 8 :=
    UInt8.toNat_ofNat_of_lt' (show 8 - s.length % 8 < 256 by omega)
  have htake : (padTo 8 s).take ((padTo 8 s).length - (8 - s.length % 8)) = s := by
    have hn : (padTo 8 s).length - (8 - s.length % 8) = s.length := by omega
    rw [hn, padTo, List.take_left]
  rw [← hc, desDecrypt, hlib.base64]
  simp only [hKEY, hsize, hdiv, foldl_desDecryptAt, hplain]
  rw [if_neg (by omega), hpad]
  simp only [Option.bind_eq_bind, Option.bind_some, hnat, htake]
  rw [if_pos (by omega)]
  rfl

end Decrypt

/-- **When the DES round trip succeeds.**  Encryption stays in its buffers and decryption gives
the data back exactly if the data has less than 1024 bytes. -/
theorem des_roundtrip_iff_length_lt (lib : DesLibrary) (hlib : lib.Documented) (d key : Bytes)
    (hkey : key.length = 8) (hmax : d.length < 2 ^ 31 - 8) :
    (∃ e, desEncrypt lib d key = some e ∧ desDecrypt lib e key = some d) ↔ d.length < 1024 := by
  have hpadded := length_padTo (n := 8) (by omega) d
  rw [desEncrypt_of_lt lib hkey hmax]
  constructor
  · rintro ⟨e, he, -⟩
    obtain ⟨sz, hsz, -⟩ := Option.map_eq_some_iff.mp he
    have hle := le_of_run_desEncryptAt (lib.des.length_encrypt key) (by omega) hsz
    rw [List.length_replicate] at hle
    omega
  · intro hlt
    have hlen : (mapBlocks (lib.des.encrypt key) 8 (d.length / 8 + 1) (padTo 8 d)).length =
        8 * (d.length / 8 + 1) := length_mapBlocks (lib.des.length_encrypt key) hpadded.ge
    rw [run_desEncryptAt (lib.des.length_encrypt key) (by omega) (by omega), Option.map_some,
      List.take_left' hlen]
    exact ⟨_, rfl, desDecrypt_eq hlib hlt hkey⟩

/-- A key and a block for which the ciphertext is known, with its Base64 text. -/
def sampleDesLibrary : DesLibrary where
  des := BlockCipher.ofSample (ascii "12341234") (ascii "hello" ++ [3, 3, 3])
    [0x85, 0xE7, 0x39, 0xFA, 0x30, 0xB0, 0x1F, 0xF9] rfl rfl
  base64Encode := exchanging [0x85, 0xE7, 0x39, 0xFA, 0x30, 0xB0, 0x1F, 0xF9]
    (ascii "hec5+jCwH/k=")
  base64Decode := exchanging [0x85, 0xE7, 0x39, 0xFA, 0x30, 0xB0, 0x1F, 0xF9]
    (ascii "hec5+jCwH/k=")

lemma sampleDesLibrary_documented : sampleDesLibrary.Documented where
  des key := BlockCipher.ofSample_inverts _ key _ _ (by rfl) (by rfl)
  base64 s := exchanging_exchanging _ _ s

/-- The sample is encrypted and decrypted again. -/
theorem des_roundtrip_hello :
    ∃ e, desEncrypt sampleDesLibrary (ascii "hello") (ascii "12341234") = some e ∧
      desDecrypt sampleDesLibrary e (ascii "12341234") = some (ascii "hello") :=
  (des_roundtrip_iff_length_lt sampleDesLibrary sampleDesLibrary_documented (ascii "hello")
    (ascii "12341234") (by decide) (by decide)).mpr (by decide)

/-- With 1024 bytes the last block is written behind the array. -/
lemma desEncrypt_eq_none (lib : DesLibrary) {d key : Bytes} (hkey : key.length = 8)
    (hd : d.length = 1024) : desEncrypt lib d key = none := by
  have hpadded := length_padTo (n := 8) (by omega) d
  rw [desEncrypt_of_lt lib hkey (by omega), Option.map_eq_none_iff, Option.eq_none_iff_forall_ne_some]
  intro sz hsz
  have hle := le_of_run_desEncryptAt (lib.des.length_encrypt key) (by omega) hsz
  rw [List.length_replicate] at hle
  omega

theorem des_overflow :
    sampleDesLibrary.Documented ∧
      desEncrypt sampleDesLibrary (List.replicate 1024 0x41) (ascii "12341234") = none ∧
      ¬ ∃ e, desEncrypt sampleDesLibrary (List.replicate 1024 0x41) (ascii "12341234") = some e ∧
        desDecrypt sampleDesLibrary e (ascii "12341234") = some (List.replicate 1024 0x41) := by
  have hnone : desEncrypt sampleDesLibrary (List.replicate 1024 0x41) (ascii "12341234") = none :=
    desEncrypt_eq_none sampleDesLibrary (by decide) List.length_replicate
  refine ⟨sampleDesLibrary_documented, hnone, ?_⟩
  rintro ⟨e, he, -⟩
  rw [hnone] at he
  exact Option.some_ne_none e he.symm

end CppServer.Crypto
