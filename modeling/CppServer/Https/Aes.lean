/-
# AES in ECB mode with the padding of the project

`AES_ECBEncrypt` and `AES_ECBDecrypt` of `thirdpart/https/aes.h` with their helpers.  The
text is encrypted block by block; `StringToHex` takes up to 16 bytes of the rest of the text
and fills a block that is not full with the number of missing bytes, and a whole block of
padding follows a text whose length is a multiple of 16.  `ClearPadding` does not read that
number but looks for the first byte from the end that differs from the last one.

The block functions of OpenSSL, `Base64` and the regular expression are parameters.  Lengths
are `int`s in the encryption.  The array `dst` of the decryption is a part of the stack: its
terminator is written one byte behind its end.
-/
import CppServer.Lib.Blocks

namespace CppServer.Crypto

/-- What `AES_set_encrypt_key` and `AES_set_decrypt_key` schedule. -/
structure AesKey where
  bytes : Bytes
  bits : ℤ
deriving DecidableEq

/-- `AES_set_encrypt_key`; `none` is a negative result. -/
def aesSetEncryptKey (userKey : Bytes) (bits : ℤ) : Option AesKey :=
  if bits = 128 ∨ bits = 192 ∨ bits = 256 then some ⟨userKey.take (bits / 8).toNat, bits⟩ else none

/-- `AES_set_decrypt_key`. -/
def aesSetDecryptKey (userKey : Bytes) (bits : ℤ) : Option AesKey := aesSetEncryptKey userKey bits

/-- The printable characters of ASCII. -/
def Printable (s : Bytes) : Prop := ∀ b ∈ s, 0x20 ≤ b ∧ b ≤ 0x7E

instance (s : Bytes) : Decidable (Printable s) := List.decidableBAll (fun b => 0x20 ≤ b ∧ b ≤ 0x7E) s

lemma Printable.noNul {s : Bytes} (h : Printable s) : NoNul s := by
  rintro b hb rfl
  exact absurd (h 0 hb).1 (by decide)

/-- The code outside the repository that the functions of this file call. -/
structure Library where
  aes : BlockCipher 16 AesKey
  base64Encode : Bytes → Bytes
  base64Decode : Bytes → Bytes
  /-- `boost::regex_match` with the expression of `AES_ECBDecrypt`. -/
  regexMatch : Bytes → Bool

/-- What is assumed of that code. -/
structure Library.Documented (lib : Library) : Prop where
  aes : ∀ key, key.bits = 128 → lib.aes.Inverts key
  base64 : ∀ s, lib.base64Decode (lib.base64Encode s) = s
  regex : ∀ s, s ≠ [] → Printable s → lib.regexMatch s = true

/-! ## Encryption -/

/-- The loop of `Padding`, from `nID` down. -/
def paddingLoop (ucPad : UInt8) (nSrcLen : ℕ) : ℕ → Bytes → Bytes
  | 0, pSrc => pSrc
  | nID + 1, pSrc =>
    if nSrcLen < nID + 1 then paddingLoop ucPad nSrcLen nID (pSrc.set nID ucPad) else pSrc

/-- `Padding`. -/
def padding (pSrc : Bytes) (nSrcLen : ℕ) : Bytes :=
  if nSrcLen < 16 then paddingLoop (UInt8.ofNat (16 - nSrcLen)) nSrcLen 16 pSrc else pSrc

/-- `StringToHex`, with `none` for the null pointer.  A negative length is one that `memcpy`
cannot take. -/
def stringToHex (pSrc : Option Bytes) (pDest : Bytes) (nDestLen : ℤ) : Option Bytes :=
  match pSrc with
  | some pSrc =>
    let nSrcLen := cint (cstrlen pSrc)
    let n := if nSrcLen > nDestLen then nDestLen else nSrcLen
    if n < 0 then none
    else (writeAt pDest 0 (pSrc.take n.toNat)).map fun pDest => padding pDest n.toNat
  | none => some (padding pDest 0)

/-- An uninitialised block; all of it is written before it is read. -/
def uninit : Bytes := List.replicate 16 0

/-- The loop of `AES_ECBEncrypt`; `off` is `pTmpSrc - pSrc` and `pTmpDest - pDest`. -/
def encryptLoop (enc : Bytes → Bytes) (data : Bytes) (nSrcLen : ℤ) (off : ℕ) (buf pDest : Bytes) :
    Option (ℕ × Bytes × Bytes) :=
  if (off : ℤ) < nSrcLen then do
    let buf ← stringToHex (some (data.drop off)) buf 16
    let buf := enc buf
    let pDest ← writeAt pDest off buf
    encryptLoop enc data nSrcLen (off + 16) buf pDest
  else some (off, buf, pDest)
termination_by (nSrcLen - off).toNat

/-- The extra block behind the loop. -/
def encryptExtra (enc : Bytes → Bytes) (nDestLen : ℤ) : ℕ × Bytes × Bytes → Option Bytes
  | (off, buf, pDest) =>
    if (off : ℤ) < nDestLen then do
      let buf ← stringToHex none buf 16
      writeAt pDest off (enc buf)
    else some pDest

/-- `AES_ECBEncrypt`. -/
def aesEcbEncrypt (lib : Library) (data key : Bytes) : Option Bytes := do
  let KEY ← stringToHex (some key) uninit 16
  match aesSetEncryptKey KEY 128 with
  | none => return []
  | some ctx =>
    let nSrcLen := cint data.length
    let nDestLen := cint (cint (nSrcLen.tdiv 16 * 16) + 16)
    let pDest ← newBytes nDestLen
    let state ← encryptLoop (lib.aes.encrypt ctx) data nSrcLen 0 uninit pDest
    let pDest ← encryptExtra (lib.aes.encrypt ctx) nDestLen state
    return lib.base64Encode pDest

/-! ## Decryption -/

/-- The loop of `AES_ECBDecrypt`. -/
def decryptLoop (dec : Bytes → Bytes) (src : Memory) (dstlen len : ℕ) (dst : Memory) :
    ℕ × Memory :=
  if len < dstlen then
    decryptLoop dec src dstlen (len + 16) (store dst len (dec (load src len 16)))
  else (len, dst)
termination_by dstlen - len

/-- `ClearPadding`.  Both loops stop at the first hit. -/
def clearPadding (pSrc : Memory) (nSrcLen : ℤ) : Memory :=
  let nEnd := nSrcLen
  let nStart := (nSrcLen.tdiv 16 - 1) * 16
  if pSrc (nSrcLen - 1) ≠ pSrc (nSrcLen - 2) then
    match (List.range 16).find? fun i => (pSrc (nSrcLen - 1)).toNat = i with
    | some _ => store pSrc (nSrcLen - 1) [0]
    | none => pSrc
  else
    match (List.range' 2 (nEnd - nStart - 1).toNat).find? fun i : ℕ =>
        pSrc (nSrcLen - 1) ≠ pSrc (nSrcLen - 1 - (i : ℤ)) with
    | some i => store pSrc (nSrcLen - (i : ℤ)) [0]
    | none => pSrc

/-- `AES_ECBDecrypt`.  The memory `heap` has the bytes behind `src`, the memory `stack` those
around `dst`. -/
def aesEcbDecrypt (lib : Library) (heap stack : Memory) (data key : Bytes) : Bytes :=
  let strSrcHex := lib.base64Decode data
  if strSrcHex.isEmpty then []
  else
    match aesSetDecryptKey key (cint (key.length * 8)) with
    | none => []
    | some ctx =>
      let src := store heap 0 strSrcHex
      let dstlen := strSrcHex.length
      let dst := store stack 0 (List.replicate dstlen 0)
      let (len, dst) := decryptLoop (lib.aes.decrypt ctx) src dstlen 0 dst
      let dst := clearPadding dst (cint dstlen)
      let dst := store dst len [0]
      let text := cString dst len
      if lib.regexMatch text then text else []

/-! ## What the padding is -/

/-- A block that is filled with the number of the missing bytes. -/
def padBlock (s : Bytes) : Bytes :=
  s.take 16 ++ List.replicate (16 - s.length) (UInt8.ofNat (16 - s.length))

section Padding

variable {s p : Bytes} {n : ℕ}

@[simp] lemma length_padBlock (s : Bytes) : (padBlock s).length = 16 := by
  simp only [padBlock, List.length_append, List.length_take, List.length_replicate]
  omega

/-- A block that is not full is padded like a text. -/
lemma padTo_of_lt (h : s.length < 16) : padTo 16 s = padBlock s := by
  rw [padTo, padBlock, List.take_of_length_le h.le, Nat.mod_eq_of_lt h]

lemma padBlock_of_ge (h : 16 ≤ s.length) : padBlock s = s.take 16 := by
  rw [padBlock, Nat.sub_eq_zero_of_le h, List.replicate_zero, List.append_nil]

/-- The padding of a text is that of its rest behind a full block. -/
lemma padTo_of_ge (h : 16 ≤ s.length) : padTo 16 s = s.take 16 ++ padTo 16 (s.drop 16) := by
  have hmod : (s.length - 16) % 16 = s.length % 16 := by omega
  rw [padTo, padTo, List.length_drop, hmod, ← List.append_assoc, List.take_append_drop]

lemma paddingLoop_eq (c : UInt8) {k : ℕ} (hk : k ≤ p.length) (hn : n ≤ k) :
    paddingLoop c n k p = p.take n ++ List.replicate (k - n) c ++ p.drop k := by
  induction k generalizing p with
  | zero =>
    obtain rfl : n = 0 := by omega
    simp [paddingLoop]
  | succ k ih =>
    rw [paddingLoop]
    by_cases h : n < k + 1
    · have hlen : k ≤ (p.set k c).length := by
        rw [List.length_set]
        omega
      have htake : (p.set k c).take n = p.take n := List.take_set_of_le (by omega)
      have hdrop : (p.set k c).drop k = c :: p.drop (k + 1) := by
        rw [List.drop_eq_getElem_cons (by rw [List.length_set]; omega), List.getElem_set_self,
          List.drop_set_of_lt (by omega)]
      have hrep : List.replicate (k + 1 - n) c = List.replicate (k - n) c ++ [c] := by
        rw [← List.replicate_succ', show k + 1 - n = k - n + 1 by omega]
      rw [if_pos h, ih hlen (by omega), htake, hdrop, hrep]
      simp
    · obtain rfl : n = k + 1 := by omega
      rw [if_neg h]
      simp

/-- `Padding` fills a block behind its first `n` bytes. -/
lemma padding_eq (hp : p.length = 16) (hn : n ≤ 16) :
    padding p n = p.take n ++ List.replicate (16 - n) (UInt8.ofNat (16 - n)) := by
  rw [padding]
  by_cases h : n < 16
  · rw [if_pos h, paddingLoop_eq _ (by omega) h.le, List.drop_of_length_le (by omega),
      List.append_nil]
  · obtain rfl : n = 16 := by omega
    rw [if_neg h, Nat.sub_self, List.replicate_zero, List.append_nil, List.take_of_length_le
      (by omega)]

/-- The part of a string that `StringToHex` copies. -/
def copied (s : Bytes) : Bytes := s.take (min 16 (cint (cstrlen s)).toNat)

lemma length_copied (s : Bytes) :
    (copied s).length = min 16 (cint (cstrlen s)).toNat := by
  have hint : cint (cstrlen s) ≤ cstrlen s := cint_le_of_nonneg (by omega)
  have hstr : cstrlen s ≤ s.length := (List.takeWhile_prefix _).length_le
  rw [copied, List.length_take]
  omega

/-- `StringToHex` copies up to 16 bytes and pads them, if the length is an `int`. -/
lemma stringToHex_eq (hs : 0 ≤ cint (cstrlen s)) (hp : p.length = 16) :
    stringToHex (some s) p 16 = some (padBlock (copied s)) := by
  have hlen := length_copied s
  obtain ⟨n, hn⟩ : ∃ n, n = cint (cstrlen s) := ⟨_, rfl⟩
  have hcopied : copied s = s.take (min 16 n.toNat) := by rw [hn, copied]
  rw [← hn] at hs hlen
  have hmin : (if n > 16 then (16 : ℤ) else n).toNat = min 16 n.toNat := by
    by_cases h : n > 16
    · rw [if_pos h]
      omega
    · rw [if_neg h]
      omega
  have hpos : ¬ (if n > 16 then (16 : ℤ) else n) < 0 := by split <;> omega
  have hwrite : writeAt p 0 (copied s) = some (copied s ++ p.drop (copied s).length) := by
    have hle : (copied s).length ≤ p.length := by omega
    have h := writeAt_append (a := []) hle
    rwa [List.nil_append, List.nil_append, List.length_nil] at h
  have hwhole : (copied s ++ p.drop (copied s).length).length = 16 := by
    rw [List.length_append, List.length_drop]
    omega
  simp only [stringToHex, ← hn, hpos, if_false, hmin, ← hcopied]
  rw [hwrite, Option.map_some, ← hlen, padding_eq hwhole (by omega), List.take_left, padBlock,
    List.take_of_length_le (by omega)]

/-- A string whose length is not an `int` after the conversion cannot be copied. -/
lemma stringToHex_eq_none (hs : cint (cstrlen s) < 0) (p : Bytes) :
    stringToHex (some s) p 16 = none := by
  have hneg : (if cint (cstrlen s) > 16 then (16 : ℤ) else cint (cstrlen s)) < 0 := by
    split <;> omega
  simp only [stringToHex, hneg, if_true]

/-- `StringToHex` makes a padded block of a text without NUL bytes. -/
lemma stringToHex_some (hs : NoNul s) (hlen : s.length < 2 ^ 31) (hp : p.length = 16) :
    stringToHex (some s) p 16 = some (padBlock s) := by
  have hint : cint (cstrlen s) = s.length := by
    rw [cstrlen_of_noNul hs]
    exact cint_of_range (by omega) (by omega)
  have hcopied : copied s = s.take 16 := by
    rw [copied, hint, List.take_eq_take_iff]
    omega
  have hsub : 16 - (s.take 16).length = 16 - s.length := by
    rw [List.length_take]
    omega
  rw [stringToHex_eq (by omega) hp, hcopied, padBlock, hsub, List.take_take, Nat.min_self]
  rfl

lemma stringToHex_none (hp : p.length = 16) : stringToHex none p 16 = some (padBlock []) := by
  rw [stringToHex, padding_eq hp (by omega)]
  rfl

end Padding

/-! ## Encrypting -/

section Encrypt

variable {enc : Bytes → Bytes} {data buf : Bytes}

/-- One turn of the loop appends one encrypted block. -/
lemma encryptLoop_of_lt (henc : ∀ b : Bytes, b.length = 16 → (enc b).length = 16)
    (hdata : NoNul data) (hmax : data.length < 2 ^ 31) (hbuf : buf.length = 16) {a z : Bytes}
    (hz : 16 ≤ z.length) (hlt : a.length < data.length) :
    encryptLoop enc data data.length a.length buf (a ++ z) =
      encryptLoop enc data data.length (a.length + 16) (enc (padBlock (data.drop a.length)))
        (a ++ enc (padBlock (data.drop a.length)) ++ z.drop 16) := by
  have hrest : NoNul (data.drop a.length) := fun b hb => hdata b (List.mem_of_mem_drop hb)
  have hlen : (enc (padBlock (data.drop a.length))).length = 16 := henc _ (length_padBlock _)
  rw [encryptLoop, if_pos (by omega),
    stringToHex_some hrest (by rw [List.length_drop]; omega) hbuf]
  simp only [Option.bind_eq_bind, Option.bind_some]
  rw [writeAt_append (by omega), hlen]
  rfl

/-- The loop and the extra block encrypt the padded rest of the text.  The induction is on the
number of whole blocks that are left. -/
lemma encryptLoop_extra (henc : ∀ b : Bytes, b.length = 16 → (enc b).length = 16)
    (hdata : NoNul data) (hmax : data.length < 2 ^ 31) (k : ℕ) {a z : Bytes}
    (hbuf : buf.length = 16) (ha : a.length ≤ data.length)
    (hk : (data.length - a.length) / 16 = k) (hz : z.length = 16 * (k + 1)) :
    (encryptLoop enc data data.length a.length buf (a ++ z)).bind
        (encryptExtra enc ((a ++ z).length : ℕ)) =
      some (a ++ mapBlocks enc 16 (k + 1) (padTo 16 (data.drop a.length))) := by
  induction k generalizing a z buf with
  | zero =>
    have hblock : padTo 16 (data.drop a.length) = padBlock (data.drop a.length) :=
      padTo_of_lt (by rw [List.length_drop]; omega)
    have hlen : (enc (padBlock (data.drop a.length))).length = 16 := henc _ (length_padBlock _)
    have hmap : mapBlocks enc 16 (0 + 1) (padTo 16 (data.drop a.length)) =
        enc (padBlock (data.drop a.length)) := by
      rw [hblock]
      simp [mapBlocks, List.take_of_length_le]
    have hz' : z.drop 16 = [] := List.drop_of_length_le (by omega)
    rw [hmap]
    by_cases hlt : a.length < data.length
    · -- the last block is begun by the text and is the last turn of the loop
      rw [encryptLoop_of_lt henc hdata hmax hbuf (by omega) hlt, encryptLoop, if_neg (by omega),
        hz', List.append_nil, Option.bind_some, encryptExtra,
        if_neg (by rw [List.length_append]; omega)]
    · -- the text ends with a block, and the extra block is all padding
      have hnil : data.drop a.length = [] := List.drop_of_length_le (by omega)
      rw [hnil] at hlen
      rw [encryptLoop, if_neg (by omega), Option.bind_some, encryptExtra,
        if_pos (by rw [List.length_append]; omega), stringToHex_none hbuf, hnil]
      simp only [Option.bind_eq_bind, Option.bind_some]
      rw [writeAt_append (by omega), hlen, hz', List.append_nil]
  | succ k ih =>
    have hge : 16 ≤ (data.drop a.length).length := by
      rw [List.length_drop]
      omega
    have hlen : (enc ((data.drop a.length).take 16)).length = 16 := by
      refine henc _ ?_
      rw [List.length_take]
      omega
    have ha' : (a ++ enc ((data.drop a.length).take 16)).length = a.length + 16 := by
      rw [List.length_append, hlen]
    have htotal : (a ++ z).length =
        (a ++ enc ((data.drop a.length).take 16) ++ z.drop 16).length := by
      simp only [List.length_append, hlen, List.length_drop]
      omega
    rw [encryptLoop_of_lt henc hdata hmax hbuf (by omega) (by omega), padBlock_of_ge hge, htotal,
      ← ha', ih hlen (by omega) (by omega) (by rw [List.length_drop]; omega), ha',
      padTo_of_ge hge, List.drop_drop, mapBlocks_append (k := k + 1) (by simp; omega),
      List.append_assoc]

/-- A key of 16 bytes is scheduled as it is. -/
lemma aesSetEncryptKey_of_key {key : Bytes} (hkey : key.length = 16) :
    aesSetEncryptKey key 128 = some ⟨key, 128⟩ := by
  have htake : key.take (128 / 8 : ℤ).toNat = key := List.take_of_length_le (le_of_eq hkey)
  rw [aesSetEncryptKey, if_pos (Or.inl rfl), htake]

/-- The key that `AES_ECBEncrypt` schedules. -/
def encryptKey (key : Bytes) : Option AesKey :=
  (stringToHex (some key) uninit 16).bind fun KEY => aesSetEncryptKey KEY 128

/-- The key that `AES_ECBDecrypt` schedules. -/
def decryptKey (key : Bytes) : Option AesKey := aesSetDecryptKey key (cint (key.length * 8))

lemma encryptKey_of_key {key : Bytes} (hkey : key.length = 16) (hkey' : NoNul key) :
    encryptKey key = some ⟨key, 128⟩ := by
  rw [encryptKey, stringToHex_some hkey' (by omega) rfl, padBlock_of_ge (by omega),
    List.take_of_length_le (by omega), Option.bind_some, aesSetEncryptKey_of_key hkey]

lemma decryptKey_of_key {key : Bytes} (hkey : key.length = 16) :
    decryptKey key = some ⟨key, 128⟩ := by
  rw [decryptKey, aesSetDecryptKey, hkey]
  exact aesSetEncryptKey_of_key hkey

/-- `AES_ECBEncrypt` behind its key setup. -/
lemma aesEcbEncrypt_of_ctx (lib : Library) (data : Bytes) {key : Bytes} {ctx : AesKey}
    (hctx : encryptKey key = some ctx) :
    aesEcbEncrypt lib data key =
      (newBytes (cint (cint ((cint data.length).tdiv 16 * 16) + 16))).bind fun pDest =>
        (encryptLoop (lib.aes.encrypt ctx) data (cint data.length) 0 uninit pDest).bind
          fun state => (encryptExtra (lib.aes.encrypt ctx)
            (cint (cint ((cint data.length).tdiv 16 * 16) + 16)) state).map lib.base64Encode := by
  obtain ⟨KEY, hKEY, hset⟩ := Option.bind_eq_some_iff.mp hctx
  rw [aesEcbEncrypt, hKEY, Option.bind_eq_bind, Option.bind_some, hset]
  simp only [Option.bind_eq_bind, Option.pure_def, Option.map_eq_bind, Function.comp_def]

/-- What `AES_ECBEncrypt` gives for a text of the usual lengths. -/
lemma aesEcbEncrypt_eq (lib : Library) {data key : Bytes} {ctx : AesKey} (hdata : NoNul data)
    (hmax : data.length < 2 ^ 31 - 16) (hctx : encryptKey key = some ctx) :
    aesEcbEncrypt lib data key = some (lib.base64Encode
      (mapBlocks (lib.aes.encrypt ctx) 16 (data.length / 16 + 1) (padTo 16 data))) := by
  have hsrc : cint data.length = data.length := cint_of_range (by omega) (by omega)
  have hdest : cint (cint ((data.length : ℤ).tdiv 16 * 16) + 16) =
      ((16 * (data.length / 16 + 1) : ℕ) : ℤ) := by
    have hdiv : (data.length : ℤ).tdiv 16 = ((data.length / 16 : ℕ) : ℤ) := by
      rw [Int.tdiv_eq_ediv_of_nonneg (by omega)]
      omega
    have hinner : cint (((data.length / 16 : ℕ) : ℤ) * 16) = ((data.length / 16 : ℕ) : ℤ) * 16 :=
      cint_of_range (by omega) (by omega)
    rw [hdiv, hinner, cint_of_range (by omega) (by omega)]
    push_cast
    omega
  have hloop := encryptLoop_extra (lib.aes.length_encrypt ctx) hdata (by omega)
    (data.length / 16) (a := []) (z := List.replicate (16 * (data.length / 16 + 1)) 0)
    (show uninit.length = 16 from rfl) (by simp) (by simp) (by simp)
  simp only [List.nil_append, List.length_nil, List.drop_zero, List.length_replicate] at hloop
  rw [aesEcbEncrypt_of_ctx lib data hctx, hsrc, hdest, newBytes_natCast, Option.bind_some]
  have hall := congrArg (Option.map lib.base64Encode) hloop
  rw [Option.map_bind] at hall
  exact hall

/-- The loop does not change the size of the buffer. -/
lemma length_encryptLoop {nSrcLen : ℤ} {off off' : ℕ} {pDest buf' pDest' : Bytes}
    (h : encryptLoop enc data nSrcLen off buf pDest = some (off', buf', pDest')) :
    pDest'.length = pDest.length := by
  induction off, buf, pDest using encryptLoop.induct enc nSrcLen with
  | case1 off buf pDest hlt ih =>
    rw [encryptLoop, if_pos hlt] at h
    simp only [Option.bind_eq_bind, Option.bind_eq_some_iff] at h
    obtain ⟨b, -, p, hp, hrest⟩ := h
    rw [ih b p hrest, length_writeAt hp]
  | case2 off buf pDest hlt =>
    rw [encryptLoop, if_neg hlt] at h
    obtain ⟨-, -, rfl⟩ : off = off' ∧ buf = buf' ∧ pDest = pDest' := by simpa using h
    rfl

lemma length_encryptExtra {nDestLen : ℤ} {off : ℕ} {pDest pDest' : Bytes}
    (h : encryptExtra enc nDestLen (off, buf, pDest) = some pDest') :
    pDest'.length = pDest.length := by
  rw [encryptExtra] at h
  split at h
  · simp only [Option.bind_eq_bind, Option.bind_eq_some_iff] at h
    obtain ⟨b, -, hwrite⟩ := h
    exact length_writeAt hwrite
  · rw [Option.some.inj h]

/-- The size of what is encoded, for a text of any length, if the encryption comes to it. -/
lemma exists_of_aesEcbEncrypt {lib : Library} {key e : Bytes} {ctx : AesKey}
    (hctx : encryptKey key = some ctx) (h : aesEcbEncrypt lib data key = some e) :
    ∃ pDest : Bytes, e = lib.base64Encode pDest ∧
      (pDest.length : ℤ) = cint (cint ((cint data.length).tdiv 16 * 16) + 16) := by
  rw [aesEcbEncrypt_of_ctx lib data hctx, Option.bind_eq_some_iff] at h
  obtain ⟨pDest, hnew, h⟩ := h
  obtain ⟨⟨off, buf, pDest₁⟩, hloop, h⟩ := Option.bind_eq_some_iff.mp h
  obtain ⟨pDest₂, hextra, he⟩ := Option.map_eq_some_iff.mp h
  refine ⟨pDest₂, he.symm, ?_⟩
  rw [length_encryptExtra hextra, length_encryptLoop hloop]
  rw [newBytes] at hnew
  split at hnew
  · exact absurd hnew (by simp)
  · rw [← Option.some.inj hnew, List.length_replicate]
    omega

/-- Rounding an `int` to blocks rounds towards zero. -/
lemma tdiv_sixteen (n : ℤ) :
    (0 ≤ n → n.tdiv 16 = n / 16) ∧ (n < 0 → n.tdiv 16 = -(-n / 16)) := by
  refine ⟨fun h => Int.tdiv_eq_ediv_of_nonneg h, fun h => ?_⟩
  rw [← Int.tdiv_eq_ediv_of_nonneg (by omega), Int.neg_tdiv, Int.neg_neg]

/-- A text that is too long for an `int` does not fit what is encoded. -/
lemma destLen_of_ge {n : ℕ} (hn : 2 ^ 31 - 16 ≤ n)
    (hpos : 0 ≤ cint (cint ((cint n).tdiv 16 * 16) + 16)) :
    cint (cint ((cint n).tdiv 16 * 16) + 16) + 16 ≤ n := by
  have hl := le_cint n
  have hu := cint_lt n
  obtain ⟨hdiv, hdiv'⟩ := tdiv_sixteen (cint n)
  have hinner : cint ((cint n).tdiv 16 * 16) = (cint n).tdiv 16 * 16 :=
    cint_of_range (by omega) (by omega)
  rw [hinner] at hpos ⊢
  by_cases hover : (cint n).tdiv 16 * 16 + 16 = 2 ^ 31
  · -- the sum overflows to the least `int`
    have hwrap : cint (2 ^ 31) = -2 ^ 31 := by decide
    rw [hover, hwrap] at hpos
    omega
  · rw [cint_of_range (by omega) (by omega)] at hpos ⊢
    by_cases hsmall : n < 2 ^ 31
    · rw [cint_of_range (n := (n : ℤ)) (by omega) (by omega)] at hover hdiv
      omega
    · omega

end Encrypt

/-! ## Decrypting -/

section Decrypt

variable {dec : Bytes → Bytes} {src dst : Memory}

/-- The loop decrypts block by block.  The induction is on the number of blocks left. -/
lemma decryptLoop_eq (hdec : ∀ b : Bytes, b.length = 16 → (dec b).length = 16) (src : Memory)
    (k len : ℕ) (dst : Memory) :
    (decryptLoop dec src (len + 16 * k) len dst).1 = len + 16 * k ∧
      load (decryptLoop dec src (len + 16 * k) len dst).2 0 (len + 16 * k) =
        load dst 0 len ++ mapBlocks dec 16 k (load src len (16 * k)) := by
  induction k generalizing len dst with
  | zero =>
    rw [decryptLoop, if_neg (by omega)]
    simp [mapBlocks]
  | succ k ih =>
    have hblock : (dec (load src len 16)).length = 16 := hdec _ (length_load _ _ _)
    have hlen : len + 16 * (k + 1) = len + 16 + 16 * k := by omega
    have hsrc : load src len (16 * (k + 1)) = load src len 16 ++ load src (len + 16 : ℕ) (16 * k) := by
      rw [show 16 * (k + 1) = 16 + 16 * k by omega, load_add]
      rfl
    -- the blocks before are not touched, and the new block is read back
    have hdst : load (store dst len (dec (load src len 16))) 0 (len + 16) =
        load dst 0 len ++ dec (load src len 16) := by
      have hstored := load_store dst len (dec (load src len 16))
      rw [hblock] at hstored
      rw [load_add, Int.zero_add, hstored]
      congr 1
      exact load_congr fun i _ hi => store_of_lt (by omega)
    rw [decryptLoop, if_pos (by omega), hlen, hsrc, mapBlocks_append (length_load _ _ _),
      ← List.append_assoc, ← hdst]
    exact ih (len + 16) _

/-- Whatever the length, the loop ends at most a block behind the end. -/
lemma decryptLoop_fst_lt {dstlen len : ℕ} (h : len < dstlen + 16) :
    (decryptLoop dec src dstlen len dst).1 < dstlen + 16 := by
  induction len, dst using decryptLoop.induct dec src dstlen with
  | case1 len dst hlt ih =>
    rw [decryptLoop, if_pos hlt]
    exact ih (by omega)
  | case2 len dst hlt =>
    rw [decryptLoop, if_neg hlt]
    exact h

section ClearPadding

variable {s : Bytes} {m : Memory}

/-- The bytes of the padding in a buffer with a padded text. -/
lemma apply_padding (hload : load m 0 (padTo 16 s).length = padTo 16 s) {i : ℤ}
    (hi : s.length ≤ i) (hlt : i < (padTo 16 s).length) : m i = UInt8.ofNat (16 - s.length % 16) := by
  obtain ⟨k, rfl⟩ : ∃ k : ℕ, i = ((s.length + k : ℕ) : ℤ) := ⟨(i - s.length).toNat, by omega⟩
  rw [apply_of_load hload (by omega)]
  simp [padTo]

/-- The last byte of the text in front of it. -/
lemma apply_last (hload : load m 0 (padTo 16 s).length = padTo 16 s) (hs : s ≠ []) :
    m (s.length - 1) = s.getLast hs := by
  have hpos := List.length_pos_iff.mpr hs
  have hlen := length_padTo (n := 16) (by omega) s
  have hcast : (s.length : ℤ) - 1 = ((s.length - 1 : ℕ) : ℤ) := by omega
  rw [hcast, apply_of_load hload (by omega), List.getLast_eq_getElem]
  exact List.getElem_append_left (by omega)

/-- `ClearPadding` cuts whole blocks before the `k` bytes `k` that they end with, if another byte
stands before these. -/
lemma clearPadding_of_run {n : ℤ} {k : ℕ} (hn : 0 ≤ n) (hdvd : 16 ∣ n) (hk₁ : 1 ≤ k)
    (hk₁₆ : k ≤ 16) (hrun : ∀ i : ℤ, 1 ≤ i → i ≤ k → m (n - i) = UInt8.ofNat k)
    (hbefore : UInt8.ofNat k ≠ m (n - 1 - k)) :
    clearPadding m n = store m (n - k) [0] := by
  have hstart : n - (n.tdiv 16 - 1) * 16 = 16 := by
    rw [Int.tdiv_eq_ediv_of_nonneg hn]
    omega
  have hlast : m (n - 1) = UInt8.ofNat k := hrun 1 (by omega) (by omega)
  rw [clearPadding]
  simp only [hstart, hlast]
  by_cases hone : k = 1
  · -- one byte of padding, which differs from the text
    subst hone
    have hdiff : UInt8.ofNat 1 ≠ m (n - 2) := by
      have haddr : n - 1 - ((1 : ℕ) : ℤ) = n - 2 := by omega
      rwa [haddr] at hbefore
    have hfind : (List.range 16).find? (fun i => (UInt8.ofNat 1).toNat = i) = some 1 := rfl
    have haddr : n - ((1 : ℕ) : ℤ) = n - 1 := by omega
    rw [if_pos hdiff, hfind, haddr]
  · -- the scan stops at the first byte that is not padding, the last one of the text
    have hsame : ¬ UInt8.ofNat k ≠ m (n - 2) := by
      rw [hrun 2 (by omega) (by omega)]
      simp
    have hfind : (List.range' 2 ((16 : ℤ) - 1).toNat).find? (fun i =>
        decide (UInt8.ofNat k ≠ m (n - 1 - (i : ℕ)))) = some k := by
      rw [List.find?_range'_eq_some]
      refine ⟨by simpa using hbefore, ?_, fun j hj hjk => ?_⟩
      · rw [List.mem_range'_1]
        omega
      · have haddr : n - 1 - (j : ℤ) = n - (j + 1 : ℤ) := by omega
        rw [haddr, hrun (j + 1) (by omega) (by omega)]
        simp
    rw [if_neg hsame, hfind]

/-- `ClearPadding` cuts a padded text where the padding begins, if the last byte of the text
cannot be mistaken for padding. -/
lemma clearPadding_eq (hload : load m 0 (padTo 16 s).length = padTo 16 s) (hs : s ≠ [])
    (hlast : 0x20 ≤ s.getLast hs) :
    clearPadding m (padTo 16 s).length = store m s.length [0] := by
  have hlen := length_padTo (n := 16) (by omega) s
  have hpos := List.length_pos_iff.mpr hs
  obtain ⟨k, hk⟩ : ∃ k, k = 16 - s.length % 16 := ⟨_, rfl⟩
  have hrun : ∀ i : ℤ, 1 ≤ i → i ≤ k → m ((padTo 16 s).length - i) = UInt8.ofNat k := by
    intro i hi hik
    rw [hk]
    exact apply_padding hload (by omega) (by omega)
  have hbefore : UInt8.ofNat k ≠ m ((padTo 16 s).length - 1 - k) := by
    have haddr : ((padTo 16 s).length : ℤ) - 1 - k = s.length - 1 := by omega
    have hnat : (UInt8.ofNat k).toNat = k := UInt8.toNat_ofNat_of_lt' (show k < 256 by omega)
    have hspace : UInt8.toNat 0x20 = 32 := rfl
    rw [haddr, apply_last hload hs]
    intro heq
    rw [← heq, UInt8.le_iff_toNat_le, hnat] at hlast
    omega
  have haddr : ((padTo 16 s).length : ℤ) - k = s.length := by omega
  rw [clearPadding_of_run (by omega) (by omega) (by omega) (by omega) hrun hbefore, haddr]

end ClearPadding

/-- Decrypting gives back the text that was padded and encrypted. -/
lemma aesEcbDecrypt_eq {lib : Library} (hlib : lib.Documented) (heap stack : Memory) {s key : Bytes}
    {ctx : AesKey} (hs : s ≠ []) (hprint : Printable s) (hmax : s.length < 2 ^ 31 - 16)
    (hctx : decryptKey key = some ctx) (hbits : ctx.bits = 128) :
    aesEcbDecrypt lib heap stack (lib.base64Encode
      (mapBlocks (lib.aes.encrypt ctx) 16 (s.length / 16 + 1) (padTo 16 s))) key = s := by
  have hpadded := length_padTo (n := 16) (by omega) s
  obtain ⟨c, hc⟩ : ∃ c, c =
    mapBlocks (lib.aes.encrypt ctx) 16 (s.length / 16 + 1) (padTo 16 s) := ⟨_, rfl⟩
  have hclen : c.length = 16 * (s.length / 16 + 1) := by
    rw [hc]
    exact length_mapBlocks (lib.aes.length_encrypt _) hpadded.ge
  have hcne : c.isEmpty = false := by
    rw [List.isEmpty_eq_false_iff, ← List.length_pos_iff]
    omega
  have hsrc : load (store heap 0 c) ((0 : ℕ) : ℤ) c.length = c := load_store heap 0 c
  have hplain : mapBlocks (lib.aes.decrypt ctx) 16 (s.length / 16 + 1) c = padTo 16 s := by
    rw [hc]
    exact mapBlocks_mapBlocks (lib.aes.length_encrypt _) (hlib.aes ctx hbits) hpadded
  -- the loop leaves the padded text in the buffer
  obtain ⟨len, dst, hD⟩ : ∃ len dst, decryptLoop (lib.aes.decrypt ctx) (store heap 0 c)
    c.length 0 (store stack 0 (List.replicate c.length 0)) = (len, dst) := ⟨_, _, rfl⟩
  have hloop := decryptLoop_eq (lib.aes.length_decrypt ctx) (store heap 0 c)
    (s.length / 16 + 1) 0 (store stack 0 (List.replicate c.length 0))
  rw [Nat.zero_add, ← hclen, hD, hsrc, hplain] at hloop
  obtain ⟨rfl, hload⟩ : len = c.length ∧ load dst 0 c.length = padTo 16 s := hloop
  rw [hclen, ← hpadded] at hload
  have hclear : clearPadding dst (cint c.length) = store dst s.length [0] := by
    rw [hclen, ← hpadded, cint_of_range (by omega) (by omega)]
    exact clearPadding_eq hload hs (hprint _ (List.getLast_mem hs)).1
  -- the text is what stands before the byte that was cleared
  have htext : cString (store (store dst s.length [0]) c.length [0]) c.length = s := by
    have hlt : s.length < c.length := by omega
    refine cString_eq hprint.noNul ?_ ?_ hlt
    · rw [load_congr fun i _ hi => ?_]
      · exact load_front hload
      · rw [store_of_lt (by omega), store_of_lt (by omega)]
    · rw [store_of_lt (by omega), store_singleton_self]
  have hregex : lib.regexMatch s = true := hlib.regex s hs hprint
  rw [← hc, aesEcbDecrypt, hlib.base64]
  rw [decryptKey] at hctx
  simp only [hcne, hctx, hD, hclear, htext, hregex]
  rfl

/-- Decrypting gives at most what was decoded, up to a whole block. -/
lemma length_aesEcbDecrypt_lt (lib : Library) (heap stack : Memory) (data key : Bytes) :
    (aesEcbDecrypt lib heap stack data key).length < (lib.base64Decode data).length + 16 := by
  have hnil : ([] : Bytes).length < (lib.base64Decode data).length + 16 := by
    rw [List.length_nil]
    omega
  rw [aesEcbDecrypt]
  split
  · exact hnil
  · split
    · exact hnil
    · rename_i ctx hctx
      obtain ⟨len, dst, hD⟩ : ∃ len dst, decryptLoop (lib.aes.decrypt ctx)
        (store heap 0 (lib.base64Decode data)) (lib.base64Decode data).length 0
        (store stack 0 (List.replicate (lib.base64Decode data).length 0)) = (len, dst) :=
        ⟨_, _, rfl⟩
      have hlen : len < (lib.base64Decode data).length + 16 := by
        have h : (decryptLoop (lib.aes.decrypt ctx) (store heap 0 (lib.base64Decode data))
            (lib.base64Decode data).length 0
            (store stack 0 (List.replicate (lib.base64Decode data).length 0))).1 <
            (lib.base64Decode data).length + 16 := decryptLoop_fst_lt (by omega)
        rw [hD] at h
        exact h
      simp only [hD]
      split
      · exact lt_of_le_of_lt (length_cString_le _ _) hlen
      · exact hnil

end Decrypt

/-- **When decryption gives back the text.**  For a nonempty text of printable bytes and a key
of 16 bytes the round trip succeeds exactly if the padded length is an `int`. -/
theorem aes_roundtrip_iff_length_lt (lib : Library) (hlib : lib.Documented) (heap stack : Memory)
    (d key : Bytes) (hd : d ≠ []) (hprint : Printable d)
    (hkey : key.length = 16) (hkey' : NoNul key) :
    (aesEcbEncrypt lib d key).map (fun e => aesEcbDecrypt lib heap stack e key) = some d ↔
      d.length < 2 ^ 31 - 16 := by
  constructor
  · intro h
    by_contra hge
    obtain ⟨e, he, hdec⟩ := Option.map_eq_some_iff.mp h
    obtain ⟨pDest, rfl, hlen⟩ := exists_of_aesEcbEncrypt (encryptKey_of_key hkey hkey') he
    have hlt := length_aesEcbDecrypt_lt lib heap stack (lib.base64Encode pDest) key
    rw [hdec, hlib.base64] at hlt
    have hle := destLen_of_ge (n := d.length) (by omega) (by omega)
    omega
  · intro hlt
    rw [aesEcbEncrypt_eq lib hprint.noNul hlt (encryptKey_of_key hkey hkey'), Option.map_some,
      aesEcbDecrypt_eq hlib heap stack hd hprint hlt (decryptKey_of_key hkey) rfl]

/-- A key and a block for which the ciphertext is known, with its Base64 text. -/
def sampleLibrary : Library where
  aes := BlockCipher.ofSample ⟨ascii "0123456789abcdef", 128⟩
    (ascii "hello world" ++ [5, 5, 5, 5, 5])
    [0x81, 0x69, 0xBE, 0xD4, 0xEF, 0x49, 0xA8, 0x87, 0x45, 0x59, 0xC5, 0xB2, 0x00, 0xDA, 0xAD, 0xE7]
    rfl rfl
  base64Encode := exchanging
    [0x81, 0x69, 0xBE, 0xD4, 0xEF, 0x49, 0xA8, 0x87, 0x45, 0x59, 0xC5, 0xB2, 0x00, 0xDA, 0xAD, 0xE7]
    (ascii "gWm+1O9JqIdFWcWyANqt5w==")
  base64Decode := exchanging
    [0x81, 0x69, 0xBE, 0xD4, 0xEF, 0x49, 0xA8, 0x87, 0x45, 0x59, 0xC5, 0xB2, 0x00, 0xDA, 0xAD, 0xE7]
    (ascii "gWm+1O9JqIdFWcWyANqt5w==")
  regexMatch s := !s.isEmpty && s.all fun b => 0x20 ≤ b && b ≤ 0x7E

lemma sampleLibrary_documented : sampleLibrary.Documented where
  aes key _ := BlockCipher.ofSample_inverts _ key _ _ (by rfl) (by rfl)
  base64 s := exchanging_exchanging _ _ s
  regex s hs hprint := by
    simp only [sampleLibrary, Bool.and_eq_true, List.all_eq_true, Bool.not_eq_true',
      List.isEmpty_eq_false_iff, decide_eq_true_eq]
    exact ⟨hs, hprint⟩

/-- The sample is encrypted and decrypted again. -/
theorem aes_roundtrip_hello_world :
    (aesEcbEncrypt sampleLibrary (ascii "hello world") (ascii "0123456789abcdef")).map
        (fun e => aesEcbDecrypt sampleLibrary (fun _ => 0) (fun _ => 0) e
          (ascii "0123456789abcdef")) = some (ascii "hello world") :=
  (aes_roundtrip_iff_length_lt sampleLibrary sampleLibrary_documented _ _ (ascii "hello world")
    (ascii "0123456789abcdef") (by simp [ascii]) (by decide) rfl (by decide)).mpr (by decide)

/-- With a text of `2 ^ 31 - 16` bytes the length of the buffer overflows, and nothing is
encrypted. -/
lemma aesEcbEncrypt_eq_none (lib : Library) {d key : Bytes} (hd : d.length = 2 ^ 31 - 16)
    (hkey : key.length = 16) (hkey' : NoNul key) : aesEcbEncrypt lib d key = none := by
  have hneg : cint (cint ((cint ((2 ^ 31 - 16 : ℕ) : ℤ)).tdiv 16 * 16) + 16) < 0 := by decide
  rw [aesEcbEncrypt_of_ctx lib d (encryptKey_of_key hkey hkey'), hd, newBytes, if_pos hneg, Option.bind_none]

/-- A text of letters that is printable and too long. -/
theorem aes_roundtrip_overflow :
    sampleLibrary.Documented ∧
      Printable (List.replicate (2 ^ 31 - 16) 0x41) ∧
      aesEcbEncrypt sampleLibrary (List.replicate (2 ^ 31 - 16) 0x41) (ascii "0123456789abcdef") =
        none ∧
      (aesEcbEncrypt sampleLibrary (List.replicate (2 ^ 31 - 16) 0x41)
          (ascii "0123456789abcdef")).map
        (fun e => aesEcbDecrypt sampleLibrary (fun _ => 0) (fun _ => 0) e
          (ascii "0123456789abcdef")) ≠ some (List.replicate (2 ^ 31 - 16) 0x41) := by
  have hprint : Printable (List.replicate (2 ^ 31 - 16) 0x41) := by
    intro b hb
    rw [List.eq_of_mem_replicate hb]
    decide
  have hnone : aesEcbEncrypt sampleLibrary (List.replicate (2 ^ 31 - 16) 0x41)
      (ascii "0123456789abcdef") = none :=
    aesEcbEncrypt_eq_none sampleLibrary List.length_replicate rfl (by decide)
  refine ⟨sampleLibrary_documented, hprint, hnone, fun h => ?_⟩
  rw [hnone, Option.map_none] at h
  exact Option.some_ne_none _ h.symm

end CppServer.Crypto
