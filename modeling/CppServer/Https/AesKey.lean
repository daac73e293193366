/-
# The keys of the two directions

`AES_ECBEncrypt` makes a block of 16 bytes of its key with `StringToHex` and schedules it as
128 bits.  `AES_ECBDecrypt` schedules the bytes of its key as they are, with eight times their
number as the number of bits; the call of `StringToHex` is only there in a comment.  The file
says for which keys the two directions schedule the same key, whatever its bytes and its
length are.
-/
import CppServer.Https.Aes

namespace CppServer.Crypto

/-- Both directions schedule the same key: its length is 16, as far as an `int` of bits can
tell, and there is no NUL in its first 16 bytes.  A string of more than `2 ^ 32` bytes may be
taken for a short one by the encryption and must then look like its own padding. -/
def Interchangeable (key : Bytes) : Prop :=
  key.length % 2 ^ 29 = 16 ∧ NoNul (key.take 16) ∧
    (cint (cstrlen key) < 16 →
      (key.take 16).drop (copied key).length = List.replicate (16 - (copied key).length)
        (UInt8.ofNat (16 - (copied key).length)))

section Keys

variable {key : Bytes} {ctx : AesKey}

/-- What the encryption schedules. -/
lemma encryptKey_eq_some_iff :
    encryptKey key = some ctx ↔
      0 ≤ cint (cstrlen key) ∧ ctx = ⟨padBlock (copied key), 128⟩ := by
  rw [encryptKey]
  by_cases hneg : cint (cstrlen key) < 0
  · rw [stringToHex_eq_none hneg]
    exact iff_of_false (by simp) fun h => absurd h.1 (by omega)
  · rw [stringToHex_eq (by omega) rfl, Option.bind_some,
      aesSetEncryptKey_of_key (length_padBlock _), Option.some.injEq, eq_comm]
    exact (and_iff_right (by omega)).symm

/-- A number of bits of which an `int` says that it is 128. -/
lemma cint_bits_iff (n : ℕ) : cint (n * 8) = 128 ↔ n % 2 ^ 29 = 16 := by
  rw [cint, Int.bmod_eq_emod]
  split <;> omega

/-- When the decryption schedules 128 bits. -/
lemma decryptKey_eq_some_iff {bytes : Bytes} :
    decryptKey key = some ⟨bytes, 128⟩ ↔ key.length % 2 ^ 29 = 16 ∧ key.take 16 = bytes := by
  rw [decryptKey, aesSetDecryptKey, aesSetEncryptKey]
  constructor
  · intro h
    split at h
    · obtain ⟨hbytes, hbits⟩ := AesKey.mk.injEq .. ▸ Option.some.inj h
      rw [hbits] at hbytes
      exact ⟨(cint_bits_iff _).mp hbits, hbytes⟩
    · exact absurd h (by simp)
  · rintro ⟨hlen, rfl⟩
    rw [(cint_bits_iff _).mpr hlen, if_pos (Or.inl rfl)]
    rfl

/-- What is copied stands in front of the first NUL. -/
lemma noNul_copied (key : Bytes) : NoNul (copied key) := by
  have hle : (copied key).length ≤ (key.takeWhile (· ≠ 0)).length := by
    have hint : cint (cstrlen key) ≤ cstrlen key := cint_le_of_nonneg (by omega)
    rw [length_copied]
    show min 16 (cint (cstrlen key)).toNat ≤ cstrlen key
    omega
  have hpre : copied key <+: key.takeWhile (· ≠ 0) :=
    List.prefix_of_prefix_length_le (List.take_prefix _ _) (List.takeWhile_prefix _) hle
  intro b hb
  simpa using List.mem_takeWhile_imp (hpre.subset hb)

/-- The block that the encryption schedules has no NUL. -/
lemma noNul_padBlock {s : Bytes} (hs : NoNul s) : NoNul (padBlock s) := by
  intro b hb
  rcases List.mem_append.mp hb with hb | hb
  · exact hs b (List.mem_of_mem_take hb)
  · obtain ⟨hne, rfl⟩ := List.mem_replicate.mp hb
    have hnat : (UInt8.ofNat (16 - s.length)).toNat = 16 - s.length :=
      UInt8.toNat_ofNat_of_lt' (show 16 - s.length < 256 by omega)
    intro hzero
    rw [hzero] at hnat
    exact hne hnat.symm

/-- The first 16 bytes of a key are the block that the encryption makes of it, exactly if
nothing was cut off or what was cut off is the padding. -/
lemma take_eq_padBlock_iff (key : Bytes) :
    key.take 16 = padBlock (copied key) ↔ NoNul (key.take 16) ∧
      (cint (cstrlen key) < 16 →
        (key.take 16).drop (copied key).length = List.replicate (16 - (copied key).length)
          (UInt8.ofNat (16 - (copied key).length))) := by
  have hcopied := length_copied key
  have hpad : padBlock (copied key) = copied key ++ List.replicate (16 - (copied key).length)
      (UInt8.ofNat (16 - (copied key).length)) := by
    rw [padBlock, List.take_of_length_le (by omega)]
  constructor
  · -- the block has no NUL, and behind what was copied it is padding
    intro h
    refine ⟨h ▸ noNul_padBlock (noNul_copied key), fun _ => ?_⟩
    rw [h, hpad, List.drop_left]
  · rintro ⟨-, hrest⟩
    have hfront : (key.take 16).take (copied key).length = copied key := by
      obtain ⟨m, hm, hlen'⟩ : ∃ m, copied key = key.take m ∧ (copied key).length = m :=
        ⟨_, rfl, hcopied⟩
      rw [List.take_take, Nat.min_eq_left (by omega), hlen', hm]
    rw [hpad, ← List.take_append_drop (copied key).length (key.take 16), hfront]
    refine congrArg (copied key ++ ·) ?_
    by_cases hlt : cint (cstrlen key) < 16
    · exact hrest hlt
    · -- 16 bytes were copied
      have hall : (copied key).length = 16 := by omega
      rw [hall, Nat.sub_self, List.replicate_zero]
      exact List.drop_of_length_le (List.length_take_le 16 key)

/-- The two directions schedule the same key exactly if it is interchangeable. -/
lemma decryptKey_eq_iff (hctx : encryptKey key = some ctx) :
    decryptKey key = some ctx ↔ Interchangeable key := by
  obtain ⟨-, rfl⟩ := encryptKey_eq_some_iff.mp hctx
  rw [decryptKey_eq_some_iff]
  exact and_congr_right fun _ => take_eq_padBlock_iff key

end Keys

/-- **When both directions use the same key.**  For every key with which `AES_ECBEncrypt` goes
on to encrypt, `AES_ECBDecrypt` schedules the same bytes with the same number of bits, and so
gives back every printable text, exactly if the key is interchangeable. -/
theorem same_key_iff_interchangeable (key : Bytes) (ctx : AesKey)
    (hctx : encryptKey key = some ctx) :
    (decryptKey key = some ctx ∧
      ∀ lib : Library, lib.Documented → ∀ (heap stack : Memory) (d : Bytes), d ≠ [] →
        Printable d → d.length < 2 ^ 31 - 16 →
        (aesEcbEncrypt lib d key).map (fun e => aesEcbDecrypt lib heap stack e key) = some d) ↔
      Interchangeable key := by
  rw [← decryptKey_eq_iff hctx]
  refine ⟨fun h => h.1, fun hdec => ⟨hdec, ?_⟩⟩
  intro lib hlib heap stack d hd hprint hmax
  obtain ⟨-, hkey⟩ := encryptKey_eq_some_iff.mp hctx
  rw [aesEcbEncrypt_eq lib hprint.noNul hmax hctx, Option.map_some,
    aesEcbDecrypt_eq hlib heap stack hd hprint hmax hdec (by rw [hkey])]

/-- The key of the sample has 16 bytes. -/
theorem same_key_of_sixteen_bytes :
    decryptKey (ascii "0123456789abcdef") = some ⟨ascii "0123456789abcdef", 128⟩ := by
  have hctx : encryptKey (ascii "0123456789abcdef") = some ⟨ascii "0123456789abcdef", 128⟩ :=
    encryptKey_of_key rfl (by decide)
  have hkey : Interchangeable (ascii "0123456789abcdef") :=
    ⟨rfl, by decide, fun h => absurd h (by decide)⟩
  exact ((same_key_iff_interchangeable _ _ hctx).mpr hkey).1

/-- `AES_ECBDecrypt` gives nothing when its key cannot be scheduled. -/
lemma aesEcbDecrypt_of_decryptKey_eq_none (lib : Library) (heap stack : Memory) (data : Bytes)
    {key : Bytes} (h : decryptKey key = none) : aesEcbDecrypt lib heap stack data key = [] := by
  rw [decryptKey] at h
  rw [aesEcbDecrypt]
  split
  · rfl
  · rw [h]

/-- A key of five bytes is padded by the encryption and refused by the decryption, and a key of
24 bytes is cut by the one and scheduled as 192 bits by the other. -/
theorem different_keys :
    (encryptKey (ascii "abcde") =
        some ⟨ascii "abcde" ++ [11, 11, 11, 11, 11, 11, 11, 11, 11, 11, 11], 128⟩ ∧
      decryptKey (ascii "abcde") = none ∧
      (aesEcbEncrypt sampleLibrary (ascii "hello world") (ascii "abcde")).map
        (fun e => aesEcbDecrypt sampleLibrary (fun _ => 0) (fun _ => 0) e (ascii "abcde")) =
          some []) ∧
    encryptKey (ascii "0123456789abcdef01234567") = some ⟨ascii "0123456789abcdef", 128⟩ ∧
      decryptKey (ascii "0123456789abcdef01234567") =
        some ⟨ascii "0123456789abcdef01234567", 192⟩ := by
  have hctx : encryptKey (ascii "abcde") =
      some ⟨ascii "abcde" ++ [11, 11, 11, 11, 11, 11, 11, 11, 11, 11, 11], 128⟩ := by decide
  have hnone : decryptKey (ascii "abcde") = none := by decide
  refine ⟨⟨hctx, hnone, ?_⟩, by decide, by decide⟩
  rw [aesEcbEncrypt_eq sampleLibrary (by decide) (by decide) hctx, Option.map_some,
    aesEcbDecrypt_of_decryptKey_eq_none _ _ _ _ hnone]

end CppServer.Crypto
