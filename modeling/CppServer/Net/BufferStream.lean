/-
# A buffer that protobuf writes to

`muduo::net::BufferOutputStream` lets protobuf serialise a message into a buffer without a copy.
`Next` hands out all free bytes of the buffer, at least 4096, and counts them as written; the
caller fills them from the front, and `BackUp` gives back what it has not used.

A caller that keeps to this protocol takes block after block.  Whatever the sizes of the blocks,
the bytes that it filled are what the buffer has behind its old contents, and `ByteCount` counts
them.  The next block is there as long as the vector stays below the largest `int`.
-/
import CppServer.Lib.Run
import CppServer.Net.Buffer

namespace CppServer.Net

/-- `BufferOutputStream`: the buffer and the readable bytes that it had at the start. -/
structure BufferOutputStream where
  buffer_ : Buffer
  originalSize_ : ℕ
deriving DecidableEq

namespace BufferOutputStream

/-- The constructor. -/
def make (buf : Buffer) : BufferOutputStream := ⟨buf, buf.readableBytes⟩

/-- `Next`: the stream, the offset that `*data` points to and `*size`. -/
def next (s : BufferOutputStream) : Except Stop (BufferOutputStream × ℕ × ℤ) := do
  let b ← s.buffer_.ensureWritableBytes 4096
  let size := cint b.writableBytes
  let b' ← b.hasWritten (csize size).toNat
  return ({ s with buffer_ := b' }, b.writerIndex_, size)

/-- `BackUp(count)`. -/
def backUp (s : BufferOutputStream) (count : ℤ) : Except Stop BufferOutputStream := do
  let b ← s.buffer_.unwrite (csize count).toNat
  return { s with buffer_ := b }

/-- `ByteCount()`. -/
def byteCount (s : BufferOutputStream) : ℤ :=
  cssize (sizeSub s.buffer_.readableBytes s.originalSize_)

/-- The caller writes `fill` to `data`. -/
def fillBlock (s : BufferOutputStream) (data : ℕ) (fill : Bytes) : Except Stop BufferOutputStream := do
  let v ← copyTo s.buffer_.buffer_ data fill
  return { s with buffer_.buffer_ := v }

/-- The caller takes a block, fills the front of it with bytes that fit, and gives the rest
back. -/
def block (s : BufferOutputStream) (fill : Bytes) : Option BufferOutputStream :=
  match s.next with
  | .ok (s₁, data, size) =>
    if fill.length ≤ size then
      match s₁.fillBlock data fill >>= fun s₂ => s₂.backUp (size - fill.length) with
      | .ok s₃ => some s₃
      | .error _ => none
    else none
  | .error _ => none

/-! ## One block -/

section Block

variable {s s' : BufferOutputStream} {b : Buffer} {fill : Bytes}

/-- The size of a block as a `size_t`. -/
lemma toNat_csize {n : ℤ} (hl : 0 ≤ n) (hu : n < 2 ^ 63) : (csize n).toNat = n.toNat := by
  rw [csize]
  omega

/-- A block in which the bytes fit does what an `append` of these bytes would do. -/
lemma block_of_fits (hens : s.buffer_.ensureWritableBytes 4096 = .ok b) (hvalid : b.Valid)
    (hfits : (fill.length : ℤ) ≤ cint b.writableBytes) :
    ∃ b', s.block fill = some ⟨b', s.originalSize_⟩ ∧
      b'.Result (b.contents ++ fill) b.readerIndex_ b.buffer_.length := by
  have hwritable := Buffer.writableBytes_eq hvalid
  have hcount := Buffer.reader_add_length hvalid
  have hwriter := hvalid.writer_le
  have hsize := Nat.lt_of_le_of_lt hvalid.size_le Buffer.maxSize_lt
  have hcint : cint b.writableBytes ≤ b.writableBytes := cint_le_of_nonneg (by omega)
  obtain ⟨k, hk⟩ : ∃ k : ℕ, cint b.writableBytes = k := Int.eq_ofNat_of_zero_le (by omega)
  rw [hk] at hfits hcint
  have hroom : b.writerIndex_ + fill.length ≤ b.buffer_.length := by omega
  obtain ⟨b', hb', hres, -⟩ := Buffer.writeTo_hasWritten hvalid hroom
  refine ⟨b', ?_, hres⟩
  -- the vector behind the write of the caller
  obtain ⟨b₁, hwrite, hwritten⟩ := except_bind_eq_ok.mp hb'
  rw [Buffer.writeTo, except_bind_eq_ok] at hwrite
  obtain ⟨v, hv, hok⟩ := hwrite
  obtain rfl := Except.ok.inj hok
  rw [Buffer.hasWritten, asserts_bind_eq_ok] at hwritten
  obtain rfl := Except.ok.inj hwritten.2
  have hnext : s.next = .ok (⟨⟨b.buffer_, b.readerIndex_, b.writerIndex_ + k⟩, s.originalSize_⟩,
      b.writerIndex_, (k : ℤ)) := by
    rw [next, hens, ok_bind, hk]
    show b.hasWritten (csize k).toNat >>= _ = _
    rw [toNat_csize (by omega) (by omega), Int.toNat_natCast, Buffer.hasWritten,
      asserts_bind_of (by omega), sizeAdd_of_lt (by omega)]
    rfl
  have hfill : fillBlock ⟨⟨b.buffer_, b.readerIndex_, b.writerIndex_ + k⟩, s.originalSize_⟩
      b.writerIndex_ fill =
        .ok ⟨⟨v, b.readerIndex_, b.writerIndex_ + k⟩, s.originalSize_⟩ := by
    rw [fillBlock]
    show copyTo b.buffer_ b.writerIndex_ fill >>= _ = _
    rw [hv]
    rfl
  have hback : backUp ⟨⟨v, b.readerIndex_, b.writerIndex_ + k⟩, s.originalSize_⟩
      (k - fill.length : ℤ) =
        .ok ⟨⟨v, b.readerIndex_, sizeAdd b.writerIndex_ fill.length⟩, s.originalSize_⟩ := by
    have hcast : (csize (k - fill.length)).toNat = k - fill.length := by
      rw [toNat_csize (by omega) (by omega)]
      omega
    have hle : k - fill.length ≤
        (⟨v, b.readerIndex_, b.writerIndex_ + k⟩ : Buffer).readableBytes := by
      rw [Buffer.readableBytes, sizeSub_of_le (by simp only; omega) (by simp only; omega)]
      simp only
      omega
    have hsub : sizeSub (b.writerIndex_ + k) (k - fill.length) =
        sizeAdd b.writerIndex_ fill.length := by
      rw [sizeSub_of_le (by omega) (by omega), sizeAdd_of_lt (by omega)]
      omega
    rw [backUp, hcast, Buffer.unwrite, asserts_bind_of hle, hsub]
    rfl
  rw [block, hnext]
  show (if (fill.length : ℤ) ≤ (k : ℤ) then _ else none) = _
  rw [if_pos hfits, hfill, ok_bind, hback]

/-- A block that was taken had room, and the bytes fitted in. -/
lemma fits_of_block (hvalid : s.buffer_.Valid) (h : s.block fill = some s') :
    ∃ b, s.buffer_.ensureWritableBytes 4096 = .ok b ∧ s.buffer_.Prepared b 4096 ∧
      (fill.length : ℤ) ≤ cint b.writableBytes := by
  rw [block] at h
  split at h
  case h_1 s₁ data size hnext =>
    rw [next, except_bind_eq_ok] at hnext
    obtain ⟨b, hens, hrest⟩ := hnext
    obtain ⟨b', -, hok⟩ := except_bind_eq_ok.mp hrest
    obtain ⟨-, hdata⟩ := Prod.mk.inj (Except.ok.inj hok)
    obtain ⟨-, rfl⟩ := Prod.mk.inj hdata
    have hprepared : s.buffer_.Prepared b 4096 := by
      by_cases hroom : s.buffer_.Room 4096
      · exact of_eq_ok (P := fun b => s.buffer_.Prepared b 4096)
          (Buffer.ensureWritableBytes_ok hvalid (by decide) hroom) hens
      · obtain ⟨hbranch, hsum⟩ := Buffer.enlarges_of_not_room hvalid (by decide) hroom
        rw [Buffer.ensureWritableBytes_lengthError hvalid hroom hbranch hsum] at hens
        exact absurd hens (by simp)
    refine ⟨b, hens, hprepared, ?_⟩
    by_contra hlt
    rw [if_neg hlt] at h
    exact absurd h (by simp)
  case h_2 => exact absurd h (by simp)

/-- A block appends what was filled. -/
lemma block_appends (hvalid : s.buffer_.Valid) (h : s.block fill = some s') :
    s'.buffer_.Valid ∧ s'.buffer_.contents = s.buffer_.contents ++ fill ∧
      s'.originalSize_ = s.originalSize_ := by
  obtain ⟨b, hens, hprepared, hfits⟩ := fits_of_block hvalid h
  obtain ⟨b', hblock, hres⟩ := block_of_fits hens hprepared.valid hfits
  obtain rfl := Option.some.inj (h.symm.trans hblock)
  exact ⟨hres.valid, by rw [hres.contents_eq, hprepared.contents_eq], rfl⟩

/-- A block has room for 4096 bytes. -/
lemma block_ok (hvalid : s.buffer_.Valid) (hfill : fill.length ≤ 4096)
    (hmax : s.buffer_.buffer_.length + 4096 < 2 ^ 31) : ∃ s', s.block fill = some s' := by
  have hwriter := hvalid.writer_le
  have hmaxSize : maxSize = 2 ^ 63 - 1 := rfl
  obtain ⟨b, hens, hprepared⟩ := Buffer.ensureWritableBytes_ok hvalid (by decide : 4096 < 2 ^ 63)
    (.inl (by omega))
  have hsize := hprepared.size_le
  have hroom := hprepared.room
  have hfits : (fill.length : ℤ) ≤ cint b.writableBytes := by
    rw [Buffer.writableBytes_eq hprepared.valid, cint_of_range (by omega) (by omega)]
    omega
  obtain ⟨b', hblock, -⟩ := block_of_fits hens hprepared.valid hfits
  exact ⟨_, hblock⟩

end Block

/-! ## Runs -/

/-- The buffer behind any run of blocks. -/
lemma appends_of_run {buf : Buffer} (hvalid : buf.Valid) {fills : List Bytes}
    {s : BufferOutputStream} (hrun : run block (make buf) fills = some s) :
    s.buffer_.Valid ∧ s.buffer_.contents = buf.contents ++ fills.flatten ∧
      s.originalSize_ = buf.readableBytes := by
  refine run_history (P := fun fills s => s.buffer_.Valid ∧
    s.buffer_.contents = buf.contents ++ fills.flatten ∧
    s.originalSize_ = buf.readableBytes) ⟨hvalid, (List.append_nil _).symm, rfl⟩ ?_ hrun
  rintro fills s₁ fill s₂ - ⟨hvalid₁, hcontents₁, horiginal₁⟩ hblock
  obtain ⟨hvalid₂, hcontents₂, horiginal₂⟩ := block_appends hvalid₁ hblock
  refine ⟨hvalid₂, ?_, horiginal₂.trans horiginal₁⟩
  rw [hcontents₂, hcontents₁, List.flatten_append, List.flatten_singleton, List.append_assoc]

/-- **The stream appends what its caller filled in.**  In every run of blocks the buffer keeps its
old contents, behind which are the bytes that were filled in, block by block, and `ByteCount`
counts them, also when the vector was enlarged or moved between two blocks.  Behind every run a
block of at most 4096 bytes is taken, however many blocks there were, if the vector and 4096 bytes
more are still shorter than `2 ^ 31`. -/
theorem blocks_append {buf : Buffer} (hvalid : buf.Valid) {fills : List Bytes}
    {s : BufferOutputStream} (hrun : run block (make buf) fills = some s) :
    s.buffer_.Valid ∧ s.buffer_.contents = buf.contents ++ fills.flatten ∧
    s.byteCount = fills.flatten.length ∧
    ∀ fill : Bytes, fill.length ≤ 4096 → s.buffer_.buffer_.length + 4096 < 2 ^ 31 →
      ∃ s', s.block fill = some s' := by
  obtain ⟨hvalid', hcontents, horiginal⟩ := appends_of_run hvalid hrun
  refine ⟨hvalid', hcontents, ?_, fun fill hfill hmax => block_ok hvalid' hfill hmax⟩
  have hcount := Buffer.reader_add_length hvalid'
  have hwriter := hvalid'.writer_le
  have hsize := Nat.lt_of_le_of_lt hvalid'.size_le Buffer.maxSize_lt
  have hlen := congrArg List.length hcontents
  rw [List.length_append] at hlen
  rw [byteCount, horiginal, Buffer.readableBytes_eq hvalid', Buffer.readableBytes_eq hvalid,
    sizeSub_of_le (by omega) (by omega), cssize_of_range (by omega) (by omega)]
  omega

/-- Two blocks behind two bytes, and a third one that is granted. -/
theorem blocks_append_two : ∃ s,
    run block (make ⟨List.replicate 12 0, 8, 10⟩) [[1, 2], [3]] = some s ∧
      s.buffer_.contents = [0, 0, 1, 2, 3] ∧ s.byteCount = 3 ∧ ∃ s', s.block [4, 5] = some s' := by
  have hvalid : Buffer.Valid ⟨List.replicate 12 0, 8, 10⟩ :=
    ⟨by decide, by decide, by decide, by decide⟩
  have hsize : (run block (make ⟨List.replicate 12 0, 8, 10⟩) [[1, 2], [3]]).map
      (fun s => s.buffer_.buffer_.length) = some 4108 := by
    decide +kernel
  obtain ⟨s, hrun, hlen⟩ := Option.map_eq_some_iff.mp hsize
  obtain ⟨-, hcontents, hcount, hgranted⟩ := blocks_append hvalid hrun
  exact ⟨s, hrun, hcontents, hcount, hgranted [4, 5] (by decide) (by rw [hlen]; decide)⟩

end BufferOutputStream

end CppServer.Net
