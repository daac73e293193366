/-
# Which places the decryption touches

`AES_ECBDecrypt` decrypts from the string `src` into an array `dst` of the same length, by
whole blocks, lets `ClearPadding` look back from the end of `dst`, and ends the text with a
terminator.  The file repeats the three parts with a log of their accesses, shows that the
log changes nothing, and compares the accesses with the length `n` of the two buffers: the
blocks stay inside when 16 divides `n`, the look-back when it finds a byte that differs, and
the terminator never.
-/
import CppServer.Https.Aes
import CppServer.Lib.Traced

namespace CppServer.Crypto

open Traced

/-- The two buffers of `AES_ECBDecrypt`. -/
inductive Buffer where
  | src
  | dst
deriving DecidableEq

/-- `decryptLoop`: `AES_decrypt` reads a block of `src` and writes one of `dst`. -/
def decryptLoopLog (dec : Bytes → Bytes) (src : Memory) (dstlen len : ℕ) (dst : Memory) :
    Traced Buffer (ℕ × Memory) :=
  if len < dstlen then do
    let block ← loads .src src len 16
    let dst ← stores .dst dst len (dec block)
    decryptLoopLog dec src dstlen (len + 16) dst
  else pure (len, dst)
termination_by dstlen - len

/-- The first loop of `ClearPadding`, which compares the last byte with `i`. -/
def clearLastLog (pSrc : Memory) (nSrcLen : ℤ) : List ℕ → Traced Buffer Memory
  | [] => pure pSrc
  | i :: is => do
    let last ← read .dst pSrc (nSrcLen - 1)
    if last.toNat = i then stores .dst pSrc (nSrcLen - 1) [0] else clearLastLog pSrc nSrcLen is

/-- The second loop of `ClearPadding`, which compares the last byte with the one `i` before. -/
def clearRunLog (pSrc : Memory) (nSrcLen : ℤ) : List ℕ → Traced Buffer Memory
  | [] => pure pSrc
  | i :: is => do
    let last ← read .dst pSrc (nSrcLen - 1)
    let other ← read .dst pSrc (nSrcLen - 1 - (i : ℤ))
    if last ≠ other then stores .dst pSrc (nSrcLen - (i : ℤ)) [0] else clearRunLog pSrc nSrcLen is

/-- `clearPadding`. -/
def clearPaddingLog (pSrc : Memory) (nSrcLen : ℤ) : Traced Buffer Memory := do
  let nEnd := nSrcLen
  let nStart := (nSrcLen.tdiv 16 - 1) * 16
  let last ← read .dst pSrc (nSrcLen - 1)
  let other ← read .dst pSrc (nSrcLen - 2)
  if last ≠ other then clearLastLog pSrc nSrcLen (List.range 16)
  else clearRunLog pSrc nSrcLen (List.range' 2 (nEnd - nStart - 1).toNat)

/-- `aesEcbDecrypt`. -/
def aesEcbDecryptLog (lib : Library) (heap stack : Memory) (data key : Bytes) :
    Traced Buffer Bytes :=
  let strSrcHex := lib.base64Decode data
  if strSrcHex.isEmpty then pure []
  else
    match aesSetDecryptKey key (cint (key.length * 8)) with
    | none => pure []
    | some ctx => do
      let src := store heap 0 strSrcHex
      let dstlen := strSrcHex.length
      let dst := store stack 0 (List.replicate dstlen 0)
      let (len, dst) ← decryptLoopLog (lib.aes.decrypt ctx) src dstlen 0 dst
      let dst ← clearPaddingLog dst (cint dstlen)
      let dst ← stores .dst dst len [0]
      let text := cString dst len
      pure (if lib.regexMatch text then text else [])

/-! ## The log changes nothing -/

section Value

variable {dec : Bytes → Bytes} {src dst pSrc : Memory} {dstlen len : ℕ} {nSrcLen : ℤ}

lemma val_decryptLoopLog :
    (decryptLoopLog dec src dstlen len dst).val = decryptLoop dec src dstlen len dst := by
  induction len, dst using decryptLoop.induct dec src dstlen with
  | case1 len dst hlt ih =>
    rw [decryptLoopLog, decryptLoop, if_pos hlt, if_pos hlt]
    exact ih
  | case2 len dst hlt =>
    rw [decryptLoopLog, decryptLoop, if_neg hlt, if_neg hlt]
    rfl

lemma val_clearLastLog (is : List ℕ) :
    (clearLastLog pSrc nSrcLen is).val =
      match is.find? fun i => (pSrc (nSrcLen - 1)).toNat = i with
      | some _ => store pSrc (nSrcLen - 1) [0]
      | none => pSrc := by
  induction is with
  | nil => rfl
  | cons i is ih =>
    rw [clearLastLog, val_bind, List.find?_cons, val_read]
    by_cases h : (pSrc (nSrcLen - 1)).toNat = i
    · simp [h]
    · simpa [h] using ih

lemma val_clearRunLog (is : List ℕ) :
    (clearRunLog pSrc nSrcLen is).val =
      match is.find? fun i : ℕ => pSrc (nSrcLen - 1) ≠ pSrc (nSrcLen - 1 - (i : ℤ)) with
      | some i => store pSrc (nSrcLen - (i : ℤ)) [0]
      | none => pSrc := by
  induction is with
  | nil => rfl
  | cons i is ih =>
    rw [clearRunLog, val_bind, val_bind, List.find?_cons, val_read, val_read]
    by_cases h : pSrc (nSrcLen - 1) = pSrc (nSrcLen - 1 - (i : ℤ))
    · simpa [h] using ih
    · simp [h]

lemma val_clearPaddingLog : (clearPaddingLog pSrc nSrcLen).val = clearPadding pSrc nSrcLen := by
  rw [clearPadding]
  show (if pSrc (nSrcLen - 1) ≠ pSrc (nSrcLen - 2) then clearLastLog pSrc nSrcLen (List.range 16)
    else clearRunLog pSrc nSrcLen _).val = _
  by_cases h : pSrc (nSrcLen - 1) ≠ pSrc (nSrcLen - 2)
  · rw [if_pos h, if_pos h]
    exact val_clearLastLog _
  · rw [if_neg h, if_neg h]
    exact val_clearRunLog _

/-- What is returned is what `aesEcbDecrypt` returns. -/
theorem val_aesEcbDecryptLog (lib : Library) (heap stack : Memory) (data key : Bytes) :
    (aesEcbDecryptLog lib heap stack data key).val = aesEcbDecrypt lib heap stack data key := by
  rw [aesEcbDecryptLog, aesEcbDecrypt]
  split
  · rfl
  · cases aesSetDecryptKey key (cint (key.length * 8)) with
    | none => rfl
    | some ctx =>
      dsimp only
      rw [val_bind, val_decryptLoopLog]
      generalize decryptLoop _ _ _ _ _ = result
      obtain ⟨len, dst⟩ := result
      dsimp only
      rw [val_bind, val_clearPaddingLog, val_bind, val_stores, val_pure]

end Value

/-! ## The accesses of the parts -/

section Bounds

variable {dec : Bytes → Bytes} {src dst m : Memory} {n len : ℕ}

/-- The blocks stay inside the buffers exactly if they fill them. -/
lemma within_decryptLoopLog_iff (hdec : ∀ b : Bytes, b.length = 16 → (dec b).length = 16)
    (hlen : len ≤ n) :
    Within n (decryptLoopLog dec src n len dst) ↔ 16 ∣ n - len := by
  induction len, dst using decryptLoop.induct dec src n with
  | case1 len dst hlt ih =>
    have hblock : (dec (load src len 16)).length = 16 := hdec _ (length_load _ _ _)
    rw [decryptLoopLog, if_pos hlt, within_bind, within_bind, within_loads (by omega), val_loads,
      within_stores (by omega), val_stores, hblock]
    by_cases hfits : len + 16 ≤ n
    · rw [ih hfits]
      omega
    · -- the last block reaches over the end
      refine iff_of_false (fun h => ?_) (by omega)
      omega
  | case2 len dst hlt =>
    rw [decryptLoopLog, if_neg hlt]
    exact iff_of_true (within_pure _ _) (by simp [Nat.sub_eq_zero_of_le (Nat.not_lt.mp hlt)])

/-- The first loop of `ClearPadding` looks only at the last byte. -/
lemma within_clearLastLog (hn : 1 ≤ n) (is : List ℕ) : Within n (clearLastLog m n is) := by
  induction is with
  | nil => exact within_pure _ _
  | cons i is ih =>
    rw [clearLastLog, within_bind, within_read]
    refine ⟨by omega, ?_⟩
    split
    · rw [within_stores (by simp)]
      simp only [List.length_singleton]
      omega
    · exact ih

/-- The second loop stays inside the buffer if it ends before its begin, or finds a byte there
that differs from the last one. -/
lemma within_clearRunLog_iff (k : ℕ) {i : ℕ} (hi : 1 ≤ i) (hin : i ≤ n) :
    Within n (clearRunLog m n (List.range' i k)) ↔
      i + k ≤ n ∨ ∃ j < n, i ≤ j ∧ m (n - 1) ≠ m (n - 1 - (j : ℤ)) := by
  induction k generalizing i with
  | zero => exact iff_of_true (within_pure _ _) (Or.inl (by omega))
  | succ k ih =>
    rw [List.range'_succ, clearRunLog, within_bind, within_bind, within_read, within_read,
      val_read, val_read]
    by_cases hlt : i = n
    · -- the byte before the buffer
      refine iff_of_false (fun h => ?_) ?_
      · omega
      · rintro (h | ⟨j, hj, hij, -⟩) <;> omega
    · by_cases hdiff : m (n - 1) = m (n - 1 - (i : ℤ))
      · -- the byte does not differ, and the loop goes on behind it
        rw [if_neg (not_not.mpr hdiff), ih (by omega) (by omega)]
        have hnext : (∃ j < n, i + 1 ≤ j ∧ m (n - 1) ≠ m (n - 1 - (j : ℤ))) ↔
            ∃ j < n, i ≤ j ∧ m (n - 1) ≠ m (n - 1 - (j : ℤ)) := by
          constructor
          · rintro ⟨j, hj, hij, hne⟩
            exact ⟨j, hj, by omega, hne⟩
          · rintro ⟨j, hj, hij, hne⟩
            refine ⟨j, hj, ?_, hne⟩
            have hne' : i ≠ j := by
              rintro rfl
              exact hne hdiff
            omega
        rw [hnext]
        constructor
        · rintro ⟨-, -, h | h⟩
          · exact Or.inl (by omega)
          · exact Or.inr h
        · rintro (h | h)
          · exact ⟨by omega, by omega, Or.inl (by omega)⟩
          · exact ⟨by omega, by omega, Or.inr h⟩
      · -- the loop cuts the text here and ends
        rw [if_pos hdiff, within_stores (by simp), List.length_singleton]
        refine iff_of_true ⟨by omega, by omega, by omega⟩ (Or.inr ⟨i, by omega, le_rfl, hdiff⟩)

/-- `ClearPadding` stays inside a buffer of `n` bytes exactly if there are two blocks, or two
bytes of which one differs from the last one. -/
lemma within_clearPaddingLog_iff (hn : 1 ≤ n) :
    Within n (clearPaddingLog m n) ↔
      32 ≤ n ∨ 2 ≤ n ∧ ∃ j < n, m (n - 1) ≠ m (n - 1 - (j : ℤ)) := by
  have hcount : ((n : ℤ) - ((n : ℤ).tdiv 16 - 1) * 16 - 1).toNat = 15 + n % 16 := by
    rw [Int.tdiv_eq_ediv_of_nonneg (by omega)]
    omega
  have hparts : Within n (clearPaddingLog m n) ↔ 2 ≤ n ∧
      Within n (if m (n - 1) ≠ m (n - 2) then clearLastLog m n (List.range 16)
        else clearRunLog m n (List.range' 2 (15 + n % 16))) := by
    rw [← hcount]
    show Within n (Traced.read .dst m (n - 1) >>= fun last => Traced.read .dst m (n - 2) >>=
      fun other => if last ≠ other then clearLastLog m n (List.range 16)
        else clearRunLog m n (List.range' 2 _)) ↔ _
    rw [within_bind, within_bind, within_read, within_read]
    refine ⟨fun h => ⟨by omega, h.2.2⟩, fun h => ⟨by omega, by omega, h.2⟩⟩
  have haddr : (n : ℤ) - 1 - ((1 : ℕ) : ℤ) = n - 2 := by omega
  rw [hparts]
  by_cases htwo : 2 ≤ n
  · by_cases hdiff : m (n - 1) = m (n - 2)
    · -- the bytes 0 and 1 before the last one do not differ
      have hfar : (∃ j < n, 2 ≤ j ∧ m (n - 1) ≠ m (n - 1 - (j : ℤ))) ↔
          ∃ j < n, m (n - 1) ≠ m (n - 1 - (j : ℤ)) := by
        refine ⟨fun ⟨j, hj, _, hne⟩ => ⟨j, hj, hne⟩, fun ⟨j, hj, hne⟩ => ⟨j, hj, ?_, hne⟩⟩
        match j with
        | 0 => exact absurd (by simp) hne
        | 1 => exact absurd (by rw [haddr]; exact hdiff) hne
        | j + 2 => omega
      rw [if_neg (not_not.mpr hdiff), within_clearRunLog_iff _ (by omega) htwo, hfar]
      -- the loop looks at the block before the last one too
      have hblocks : 2 + (15 + n % 16) ≤ n ↔ 32 ≤ n := by omega
      rw [hblocks, and_or_left]
      exact or_congr_left (and_iff_right htwo)
    · rw [if_pos hdiff]
      refine iff_of_true ⟨htwo, within_clearLastLog hn _⟩ (Or.inr ⟨htwo, 1, by omega, ?_⟩)
      rw [haddr]
      exact hdiff
  · exact iff_of_false (fun h => htwo h.1) (by omega)

/-- **The blocks and the look-back.**  With a length that is an `int`, both stay inside the
buffers exactly if these are made of whole blocks and are not one block that is decrypted to
equal bytes. -/
theorem within_blocks_and_padding_iff (hdec : ∀ b : Bytes, b.length = 16 → (dec b).length = 16)
    (hn : 1 ≤ n) (hmax : n < 2 ^ 31) :
    Within n (decryptLoopLog dec src n 0 dst >>= fun r => clearPaddingLog r.2 (cint n)) ↔
      16 ∣ n ∧ (n = 16 → ∃ j : ℕ, j < 16 ∧
        (decryptLoop dec src n 0 dst).2 15 ≠ (decryptLoop dec src n 0 dst).2 (15 - (j : ℤ))) := by
  rw [cint_of_range (by omega) (by omega), within_bind, val_decryptLoopLog,
    within_decryptLoopLog_iff hdec (Nat.zero_le n), Nat.sub_zero, within_clearPaddingLog_iff hn]
  refine and_congr_right fun hdvd => ?_
  by_cases hone : n = 16
  · subst hone
    simp
  · exact iff_of_true (Or.inl (by omega)) fun h => absurd h hone

/-- The loop ends behind the buffer. -/
lemma le_decryptLoop_fst (dec : Bytes → Bytes) (src : Memory) (n len : ℕ) (dst : Memory) :
    n ≤ (decryptLoop dec src n len dst).1 := by
  induction len, dst using decryptLoop.induct dec src n with
  | case1 len dst hlt ih =>
    rw [decryptLoop, if_pos hlt]
    exact ih
  | case2 len dst hlt =>
    rw [decryptLoop, if_neg hlt]
    omega

end Bounds

/-! ## The terminator -/

/-- The terminator is written where the loop ends. -/
lemma terminator_mem_log (lib : Library) (heap stack : Memory) (data key : Bytes)
    (hdata : 1 ≤ (lib.base64Decode data).length)
    (hkey : key.length = 16) :
    (Buffer.dst, ((decryptLoop (lib.aes.decrypt ⟨key, 128⟩) (store heap 0 (lib.base64Decode data))
      (lib.base64Decode data).length 0
      (store stack 0 (List.replicate (lib.base64Decode data).length 0))).1 : ℤ)) ∈
        (aesEcbDecryptLog lib heap stack data key).log := by
  have hne : (lib.base64Decode data).isEmpty = false := by
    rw [List.isEmpty_eq_false_iff, ← List.length_pos_iff]
    exact hdata
  have hctx : aesSetDecryptKey key (cint (key.length * 8)) = some ⟨key, 128⟩ :=
    decryptKey_of_key hkey
  rw [aesEcbDecryptLog, hne, hctx]
  dsimp only
  rw [if_neg (by simp), log_bind, val_decryptLoopLog]
  generalize decryptLoop _ _ _ _ _ = result
  obtain ⟨len, dst⟩ := result
  dsimp only
  rw [log_bind, log_bind]
  refine List.mem_append_right _ (List.mem_append_right _ (List.mem_append_left _ ?_))
  simp [stores]

/-- **The decryption leaves its buffer.**  For every ciphertext, every key of 16 bytes and every
block function there is an access outside the two buffers: the terminator is written behind the
last block, so behind the end of `dst`. -/
theorem decrypt_not_within (lib : Library) (heap stack : Memory) (data key : Bytes)
    (hdata : 1 ≤ (lib.base64Decode data).length) (hkey : key.length = 16) :
    ¬ Within (lib.base64Decode data).length (aesEcbDecryptLog lib heap stack data key) := by
  intro h
  obtain ⟨-, hlt⟩ := h _ (terminator_mem_log lib heap stack data key hdata hkey)
  have hle := le_decryptLoop_fst (lib.aes.decrypt ⟨key, 128⟩) (store heap 0 (lib.base64Decode data))
    (lib.base64Decode data).length 0 (store stack 0 (List.replicate (lib.base64Decode data).length 0))
  dsimp only at hlt
  omega

/-- The sample ciphertext of one block. -/
theorem sample_not_within :
    ¬ Within 16 (aesEcbDecryptLog sampleLibrary (fun _ => 0) (fun _ => 0)
      (ascii "gWm+1O9JqIdFWcWyANqt5w==") (ascii "0123456789abcdef")) :=
  decrypt_not_within sampleLibrary _ _ (ascii "gWm+1O9JqIdFWcWyANqt5w==")
    (ascii "0123456789abcdef") (by decide) rfl

/-- The sample ciphertext of 16 bytes has the terminator written to the place 16. -/
theorem sample_terminator :
    (sampleLibrary.base64Decode (ascii "gWm+1O9JqIdFWcWyANqt5w==")).length = 16 ∧
      (Buffer.dst, 16) ∈ (aesEcbDecryptLog sampleLibrary (fun _ => 0) (fun _ => 0)
        (ascii "gWm+1O9JqIdFWcWyANqt5w==") (ascii "0123456789abcdef")).log := by
  have hlen : (sampleLibrary.base64Decode (ascii "gWm+1O9JqIdFWcWyANqt5w==")).length =
      0 + 16 * 1 := rfl
  have hmem := terminator_mem_log sampleLibrary (fun _ => 0) (fun _ => 0)
    (ascii "gWm+1O9JqIdFWcWyANqt5w==") (ascii "0123456789abcdef") (by omega) rfl
  rw [hlen, (decryptLoop_eq (sampleLibrary.aes.length_decrypt _) _ 1 0 _).1] at hmem
  exact ⟨hlen, hmem⟩

end CppServer.Crypto
