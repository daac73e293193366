/-
# The buffer of a connection

`muduo::net::Buffer` keeps the bytes that were received and not yet consumed in the middle of
a vector:

    0  <=  readerIndex_  <=  writerIndex_  <=  size

The bytes in front of `readerIndex_` are there to prepend a header, those behind
`writerIndex_` to append.  `makeSpace` enlarges the vector or moves the contents to the front.

The model has the three members as they are, with the sums and differences of `size_t`, and
every assertion.  `layout` is the picture above: a buffer that is built of three parts.  Each
operation has one lemma that says what it does to the three parts, and a queue of bytes says
what the buffer is for.  The operations keep the picture, take and give the bytes of the
queue, and stop exactly where the queue says so, in every sequence of calls whose sizes fit into a
vector.
-/
import CppServer.Lib.Run
import CppServer.Lib.Words

namespace CppServer.Net

/-- Why a call does not return: an assertion fails, the vector throws `length_error`, or
`std::copy` leaves the vector. -/
inductive Stop where
  | assertion
  | lengthError
  | outOfBounds
deriving DecidableEq

/-- `assert(p)`. -/
def asserts (p : Prop) [Decidable p] : Except Stop Unit :=
  if p then .ok () else .error .assertion

@[simp] lemma asserts_bind_eq_ok {α : Type} {p : Prop} [Decidable p] {f : Unit → Except Stop α}
    {a : α} : asserts p >>= f = .ok a ↔ p ∧ f () = .ok a := by
  by_cases h : p
  · simp [asserts, h, bind, Except.bind]
  · simp [asserts, h, bind, Except.bind]

@[simp] lemma ok_bind {α β : Type} (a : α) (f : α → Except Stop β) : Except.ok a >>= f = f a := rfl

/-- What a call is known to return when it returns. -/
lemma of_eq_ok {α : Type} {x : Except Stop α} {a : α} {P : α → Prop}
    (hex : ∃ a', x = .ok a' ∧ P a') (h : x = .ok a) : P a := by
  obtain ⟨a', ha', hP⟩ := hex
  obtain rfl : a = a' := Except.ok.inj (h.symm.trans ha')
  exact hP

lemma asserts_bind_of {α : Type} {p : Prop} [Decidable p] (h : p) (f : Unit → Except Stop α) :
    asserts p >>= f = f () := by
  rw [asserts, if_pos h]
  rfl

lemma asserts_bind_of_not {α : Type} {p : Prop} [Decidable p] (h : ¬ p)
    (f : Unit → Except Stop α) : asserts p >>= f = .error .assertion := by
  rw [asserts, if_neg h]
  rfl

/-- `vector<char>::max_size`. -/
def maxSize : ℕ := 2 ^ 63 - 1

/-- `vector<char>::resize`. -/
def vectorResize (v : Bytes) (n : ℕ) : Except Stop Bytes :=
  if maxSize < n then .error .lengthError
  else .ok (v.take n ++ List.replicate (n - v.length) 0)

/-- `std::copy` to the offset `off` of the vector. -/
def copyTo (v : Bytes) (off : ℕ) (data : Bytes) : Except Stop Bytes :=
  match writeAt v off data with
  | some v' => .ok v'
  | none => .error .outOfBounds

/-- The `len` bytes at the offset `off` of the vector. -/
def copyFrom (v : Bytes) (off len : ℕ) : Except Stop Bytes :=
  if off + len ≤ v.length then .ok ((v.drop off).take len) else .error .outOfBounds

/-- `Buffer`: the vector and the two indices. -/
structure Buffer where
  buffer_ : Bytes
  readerIndex_ : ℕ
  writerIndex_ : ℕ
deriving DecidableEq

namespace Buffer

/-- The bytes that a new buffer has in front of its contents. -/
def kCheapPrepend : ℕ := 8

/-- The size of a buffer for which none is given. -/
def kInitialSize : ℕ := 1024

/-- `readableBytes()`, the difference of the indices in `size_t`. -/
def readableBytes (b : Buffer) : ℕ := sizeSub b.writerIndex_ b.readerIndex_

/-- `writableBytes()`, what the vector has behind the contents. -/
def writableBytes (b : Buffer) : ℕ := sizeSub b.buffer_.length b.writerIndex_

/-- `prependableBytes()`, what it has in front of them. -/
def prependableBytes (b : Buffer) : ℕ := b.readerIndex_

/-- The constructor `Buffer(initialSize)`. -/
def init (initialSize : ℕ) : Except Stop Buffer := do
  let v ← vectorResize [] (sizeAdd kCheapPrepend initialSize)
  let b : Buffer := ⟨v, kCheapPrepend, kCheapPrepend⟩
  asserts (b.readableBytes = 0)
  asserts (b.writableBytes = initialSize)
  asserts (b.prependableBytes = kCheapPrepend)
  return b

/-- `len` bytes from `peek()` on. -/
def peek (b : Buffer) (len : ℕ) : Except Stop Bytes := copyFrom b.buffer_ b.readerIndex_ len

/-- `retrieveAll()`: both indices go back to where a new buffer has them. -/
def retrieveAll (b : Buffer) : Buffer :=
  { b with readerIndex_ := kCheapPrepend, writerIndex_ := kCheapPrepend }

/-- `retrieve(len)`: `len` bytes are consumed, with the last of them everything. -/
def retrieve (b : Buffer) (len : ℕ) : Except Stop Buffer := do
  asserts (len ≤ b.readableBytes)
  if len < b.readableBytes then
    return { b with readerIndex_ := sizeAdd b.readerIndex_ len }
  else
    return b.retrieveAll

/-- `retrieveAsString(len)`: the string and the buffer behind it. -/
def retrieveAsString (b : Buffer) (len : ℕ) : Except Stop (Bytes × Buffer) := do
  asserts (len ≤ b.readableBytes)
  let result ← b.peek len
  let b' ← b.retrieve len
  return (result, b')

/-- `retrieveAllAsString()`. -/
def retrieveAllAsString (b : Buffer) : Except Stop (Bytes × Buffer) :=
  b.retrieveAsString b.readableBytes

/-- `makeSpace(len)`: the vector grows where its free bytes, less the cheap ones, do not suffice;
otherwise the contents move to the front. -/
def makeSpace (b : Buffer) (len : ℕ) : Except Stop Buffer := do
  if sizeAdd b.writableBytes b.prependableBytes < sizeAdd len kCheapPrepend then
    let v ← vectorResize b.buffer_ (sizeAdd b.writerIndex_ len)
    return { b with buffer_ := v }
  else
    asserts (kCheapPrepend < b.readerIndex_)
    let readable := b.readableBytes
    let data ← copyFrom b.buffer_ b.readerIndex_ (b.writerIndex_ - b.readerIndex_)
    let v ← copyTo b.buffer_ kCheapPrepend data
    let b' : Buffer := ⟨v, kCheapPrepend, sizeAdd kCheapPrepend readable⟩
    asserts (readable = b'.readableBytes)
    return b'

/-- `ensureWritableBytes(len)`. -/
def ensureWritableBytes (b : Buffer) (len : ℕ) : Except Stop Buffer := do
  let b' ← if b.writableBytes < len then b.makeSpace len else .ok b
  asserts (len ≤ b'.writableBytes)
  return b'

/-- `hasWritten(len)`: `len` bytes at `beginWrite()` become readable. -/
def hasWritten (b : Buffer) (len : ℕ) : Except Stop Buffer := do
  asserts (len ≤ b.writableBytes)
  return { b with writerIndex_ := sizeAdd b.writerIndex_ len }

/-- `unwrite(len)`: the last `len` readable bytes are given up. -/
def unwrite (b : Buffer) (len : ℕ) : Except Stop Buffer := do
  asserts (len ≤ b.readableBytes)
  return { b with writerIndex_ := sizeSub b.writerIndex_ len }

/-- The caller copies `data` to `beginWrite()`. -/
def writeTo (b : Buffer) (data : Bytes) : Except Stop Buffer := do
  let v ← copyTo b.buffer_ b.writerIndex_ data
  return { b with buffer_ := v }

/-- `append(data, len)`, where `data` has `len` bytes. -/
def append (b : Buffer) (data : Bytes) : Except Stop Buffer := do
  let b₁ ← b.ensureWritableBytes data.length
  let b₂ ← b₁.writeTo data
  b₂.hasWritten data.length

/-- `prepend(data, len)`: the bytes are put in front of the contents. -/
def prepend (b : Buffer) (data : Bytes) : Except Stop Buffer := do
  asserts (data.length ≤ b.prependableBytes)
  let reader := sizeSub b.readerIndex_ data.length
  let v ← copyTo b.buffer_ reader data
  return { b with buffer_ := v, readerIndex_ := reader }

/-- `size()` of `toStringPiece()`, which is an `int`, as the `size_t` parameter of `append`. -/
def pieceSize (b : Buffer) : ℕ := (csize (cint b.readableBytes)).toNat

/-- `shrink(reserve)`: the contents are copied to a new buffer, which is then swapped with this
one. -/
def shrink (b : Buffer) (reserve : ℕ) : Except Stop Buffer := do
  let other ← init kInitialSize
  let other ← other.ensureWritableBytes (sizeAdd b.readableBytes reserve)
  let other ← other.ensureWritableBytes b.pieceSize
  let data ← b.peek b.pieceSize
  let other ← other.writeTo data
  other.hasWritten b.pieceSize

/-! ## Integers -/

section Ints

variable {k : ℕ}

/-- `append(&x, sizeof x)`. -/
def appendObject (b : Buffer) (x : BitVec (8 * k)) : Except Stop Buffer := b.append (objBytes x)

/-- `prepend(&x, sizeof x)`. -/
def prependObject (b : Buffer) (x : BitVec (8 * k)) : Except Stop Buffer := b.prepend (objBytes x)

/-- `appendInt16`, `appendInt32` and `appendInt64`.  The label `case true` has no `break`, so
the label `default` is performed as well. -/
def appendInt (b : Buffer) (x : BitVec (8 * k)) (v : Bool) : Except Stop Buffer := do
  let b' ← if v then b.appendObject x else .ok b
  b'.appendObject (byteSwap x)

/-- `prependInt16`, `prependInt32` and `prependInt64`, without `break` either. -/
def prependInt (b : Buffer) (x : BitVec (8 * k)) (v : Bool) : Except Stop Buffer := do
  let b' ← if v then b.prependObject x else .ok b
  b'.prependObject (byteSwap x)

/-- `peekInt16`, `peekInt32` and `peekInt64`.  Here each label returns. -/
def peekInt (k : ℕ) (b : Buffer) (v : Bool) : Except Stop (BitVec (8 * k)) := do
  asserts (k ≤ b.readableBytes)
  let data ← b.peek k
  return if v then ofObjBytes k data else byteSwap (ofObjBytes k data)

/-- `readInt16`, `readInt32` and `readInt64`. -/
def readInt (k : ℕ) (b : Buffer) (v : Bool) : Except Stop (BitVec (8 * k) × Buffer) := do
  let result ← b.peekInt k v
  let b' ← b.retrieve k
  return (result, b')

/-- `appendInt64(x, v)`. -/
def appendInt64 (b : Buffer) (x : BitVec 64) (v : Bool) : Except Stop Buffer :=
  appendInt (k := 8) b x v

/-- `appendInt32(x, v)`. -/
def appendInt32 (b : Buffer) (x : BitVec 32) (v : Bool) : Except Stop Buffer :=
  appendInt (k := 4) b x v

/-- `appendInt16(x, v)`. -/
def appendInt16 (b : Buffer) (x : BitVec 16) (v : Bool) : Except Stop Buffer :=
  appendInt (k := 2) b x v

/-- `appendInt8(x)`, which has no flag. -/
def appendInt8 (b : Buffer) (x : BitVec 8) : Except Stop Buffer := appendObject (k := 1) b x

/-- `readInt64(v)`. -/
def readInt64 (b : Buffer) (v : Bool) : Except Stop (BitVec 64 × Buffer) := readInt 8 b v

/-- `readInt32(v)`. -/
def readInt32 (b : Buffer) (v : Bool) : Except Stop (BitVec 32 × Buffer) := readInt 4 b v

/-- `readInt16(v)`. -/
def readInt16 (b : Buffer) (v : Bool) : Except Stop (BitVec 16 × Buffer) := readInt 2 b v

/-- `readInt8`: a byte has no order. -/
def readInt8 (b : Buffer) : Except Stop (BitVec 8 × Buffer) := readInt 1 b true

/-- `prependInt64(x, v)`. -/
def prependInt64 (b : Buffer) (x : BitVec 64) (v : Bool) : Except Stop Buffer :=
  prependInt (k := 8) b x v

/-- `prependInt32(x, v)`. -/
def prependInt32 (b : Buffer) (x : BitVec 32) (v : Bool) : Except Stop Buffer :=
  prependInt (k := 4) b x v

/-- `prependInt16(x, v)`. -/
def prependInt16 (b : Buffer) (x : BitVec 16) (v : Bool) : Except Stop Buffer :=
  prependInt (k := 2) b x v

/-- `prependInt8(x)`, which has no flag. -/
def prependInt8 (b : Buffer) (x : BitVec 8) : Except Stop Buffer := prependObject (k := 1) b x

end Ints

/-! ## The three parts -/

/-- The picture in the class comment. -/
structure Valid (b : Buffer) : Prop where
  reader_le : b.readerIndex_ ≤ b.writerIndex_
  writer_le : b.writerIndex_ ≤ b.buffer_.length
  cheap_le : kCheapPrepend ≤ b.buffer_.length
  size_le : b.buffer_.length ≤ maxSize

/-- The readable bytes. -/
def contents (b : Buffer) : Bytes := (b.buffer_.take b.writerIndex_).drop b.readerIndex_

/-- The buffer with the prependable bytes `pre`, the contents `mid` and the writable bytes
`post`. -/
def layout (pre mid post : Bytes) : Buffer :=
  ⟨pre ++ mid ++ post, pre.length, pre.length + mid.length⟩

section Layout

variable {b b' : Buffer} {pre mid post data : Bytes} {len : ℕ}

lemma Valid.exists_layout (h : Valid b) : ∃ pre post, b = layout pre b.contents post := by
  refine ⟨b.buffer_.take b.readerIndex_, b.buffer_.drop b.writerIndex_, ?_⟩
  have hr := h.reader_le
  have hw := h.writer_le
  have hpre : (b.buffer_.take b.writerIndex_).take b.readerIndex_ = b.buffer_.take b.readerIndex_ := by
    rw [List.take_take, Nat.min_eq_left hr]
  have hfront : b.buffer_.take b.readerIndex_ ++ b.contents = b.buffer_.take b.writerIndex_ := by
    rw [contents, ← hpre, List.take_append_drop]
  have hlen : b.contents.length = b.writerIndex_ - b.readerIndex_ := by
    rw [contents, List.length_drop, List.length_take, Nat.min_eq_left hw]
  rw [layout, hfront, List.take_append_drop, List.length_take, hlen,
    Nat.min_eq_left (Nat.le_trans hr hw), Nat.add_sub_cancel' hr]

@[simp] lemma contents_layout (pre mid post : Bytes) : (layout pre mid post).contents = mid := by
  rw [contents, layout, ← List.length_append, List.take_left, List.drop_left]

lemma valid_layout : Valid (layout pre mid post) ↔
    kCheapPrepend ≤ pre.length + mid.length + post.length ∧
      pre.length + mid.length + post.length ≤ maxSize := by
  have hlen : (layout pre mid post).buffer_.length = pre.length + mid.length + post.length := by
    simp only [layout, List.length_append]
  constructor
  · intro h
    rw [← hlen]
    exact ⟨h.cheap_le, h.size_le⟩
  · rintro ⟨h, h'⟩
    refine ⟨Nat.le_add_right _ _, ?_, by rwa [hlen], by rwa [hlen]⟩
    rw [hlen]
    exact Nat.le_add_right _ _

lemma maxSize_lt : maxSize < 2 ^ 63 := by decide

lemma readableBytes_eq (h : Valid b) : b.readableBytes = b.contents.length := by
  have hr := h.reader_le
  have hw := h.writer_le
  have hs := Nat.lt_of_le_of_lt h.size_le maxSize_lt
  rw [readableBytes, sizeSub_of_le hr (by omega), contents, List.length_drop, List.length_take,
    Nat.min_eq_left hw]

lemma writableBytes_eq (h : Valid b) : b.writableBytes = b.buffer_.length - b.writerIndex_ :=
  sizeSub_of_le h.writer_le (Nat.lt_of_le_of_lt h.size_le (by decide))

/-- The indices count the contents. -/
lemma reader_add_length (h : Valid b) : b.readerIndex_ + b.contents.length = b.writerIndex_ := by
  have hr := h.reader_le
  have hw := h.writer_le
  rw [contents, List.length_drop, List.length_take]
  omega

lemma copyTo_append (h : data.length ≤ post.length) :
    copyTo (pre ++ post) pre.length data = .ok (pre ++ data ++ post.drop data.length) := by
  rw [copyTo, writeAt_append h]

/-- A write at an offset that is not known to be the length of a part. -/
lemma copyTo_of_le {v : Bytes} {off : ℕ} (h : off + data.length ≤ v.length) :
    copyTo v off data = .ok (v.take off ++ data ++ v.drop (off + data.length)) := by
  rw [copyTo, writeAt, if_pos h]

lemma copyFrom_layout (pre mid post : Bytes) :
    copyFrom (layout pre mid post).buffer_ pre.length mid.length = .ok mid := by
  have hle : pre.length + mid.length ≤ (pre ++ mid ++ post).length := by
    simp only [List.length_append]
    omega
  rw [copyFrom, layout, if_pos hle, List.append_assoc, List.drop_left, List.take_left]

/-! ## Room for more bytes -/

/-- The vector can be enlarged behind the contents, or the free bytes on both sides suffice. -/
def Room (b : Buffer) (len : ℕ) : Prop :=
  b.writerIndex_ + len ≤ maxSize ∨ b.contents.length + len + kCheapPrepend ≤ b.buffer_.length

instance (b : Buffer) (len : ℕ) : Decidable (Room b len) := inferInstanceAs (Decidable (_ ∨ _))

/-- What `ensureWritableBytes(len)` promises. -/
structure Prepared (b b' : Buffer) (len : ℕ) : Prop where
  valid : Valid b'
  contents_eq : b'.contents = b.contents
  room : b'.writerIndex_ + len ≤ b'.buffer_.length
  reader_eq : b'.readerIndex_ = b.readerIndex_ ∨
    (b'.readerIndex_ = kCheapPrepend ∧ kCheapPrepend < b.readerIndex_)
  le_size : b.buffer_.length ≤ b'.buffer_.length
  size_le : b'.buffer_.length ≤ max b.buffer_.length (b.writerIndex_ + len)

lemma Prepared.cheap_eq (h : Prepared b b' len) :
    min b'.readerIndex_ kCheapPrepend = min b.readerIndex_ kCheapPrepend := by
  rcases h.reader_eq with heq | ⟨heq, hlt⟩
  · rw [heq]
  · omega

/-- The vector is enlarged. -/
lemma prepared_resize (h : Valid b) (hlen : b.buffer_.length - b.writerIndex_ < len)
    (hmax : b.writerIndex_ + len ≤ maxSize) :
    ∃ v, vectorResize b.buffer_ (b.writerIndex_ + len) = .ok v ∧
      Prepared b { b with buffer_ := v } len := by
  have hw := h.writer_le
  have hc := h.cheap_le
  have hle : b.buffer_.length ≤ b.writerIndex_ + len := by omega
  rw [vectorResize, if_neg (Nat.not_lt.mpr hmax), List.take_of_length_le hle]
  refine ⟨_, rfl, ⟨⟨h.reader_le, ?_, ?_, ?_⟩, ?_, ?_, .inl rfl, ?_, ?_⟩⟩
  · simp only [List.length_append, List.length_replicate]
    omega
  · simp only [List.length_append, List.length_replicate]
    omega
  · simp only [List.length_append, List.length_replicate]
    omega
  · simp only [contents]
    rw [List.take_append_of_le_length hw]
  · simp only [List.length_append, List.length_replicate]
    omega
  · simp only [List.length_append, List.length_replicate]
    omega
  · simp only [List.length_append, List.length_replicate]
    omega

/-- The buffer behind the second branch of `makeSpace`. -/
def moved (b : Buffer) : Buffer :=
  layout (b.buffer_.take kCheapPrepend) b.contents
    (b.buffer_.drop (kCheapPrepend + b.contents.length))

lemma valid_moved (h : Valid b) (hfit : kCheapPrepend + b.contents.length ≤ b.buffer_.length) :
    Valid b.moved ∧ b.moved.buffer_.length = b.buffer_.length := by
  have hmax := h.size_le
  constructor
  · rw [moved, valid_layout, List.length_take, List.length_drop]
    exact ⟨by omega, by omega⟩
  · simp only [moved, layout, List.length_append, List.length_take, List.length_drop]
    omega

/-- `makeSpace` takes the branch that enlarges the vector. -/
def Enlarges (b : Buffer) (len : ℕ) : Prop :=
  b.buffer_.length - b.contents.length < (len + kCheapPrepend) % 2 ^ 64

instance (b : Buffer) (len : ℕ) : Decidable (Enlarges b len) := Nat.decLt _ _

lemma enlarges_iff (h : Valid b) : Enlarges b len ↔
    sizeAdd b.writableBytes b.prependableBytes < sizeAdd len kCheapPrepend := by
  have hcount := reader_add_length h
  have hsize := Nat.lt_of_le_of_lt h.size_le maxSize_lt
  have hw := h.writer_le
  have hsum : b.buffer_.length - b.writerIndex_ + b.readerIndex_ =
      b.buffer_.length - b.contents.length := by omega
  rw [Enlarges, prependableBytes, writableBytes_eq h, sizeAdd_of_lt (by omega), hsum, sizeAdd]

/-- The contents move to the front. -/
lemma makeSpace_move (h : Valid b) (hbranch : ¬ Enlarges b len)
    (hreader : kCheapPrepend < b.readerIndex_) : b.makeSpace len = .ok b.moved := by
  have hread := readableBytes_eq h
  have hcount := reader_add_length h
  have hsize := Nat.lt_of_le_of_lt h.size_le maxSize_lt
  have hw := h.writer_le
  have hfit : kCheapPrepend + b.contents.length ≤ b.buffer_.length := by omega
  obtain ⟨pre, post, hb⟩ := h.exists_layout
  have hpre : b.readerIndex_ = pre.length := by rw [hb, layout]
  have hfrom : copyFrom b.buffer_ b.readerIndex_ (b.writerIndex_ - b.readerIndex_) = .ok b.contents := by
    have hdiff : b.writerIndex_ - b.readerIndex_ = b.contents.length := by omega
    have hbuf : b.buffer_ = (layout pre b.contents post).buffer_ := congrArg buffer_ hb
    rw [hdiff, hpre, hbuf]
    exact copyFrom_layout pre b.contents post
  have hto : copyTo b.buffer_ kCheapPrepend b.contents = .ok (b.buffer_.take kCheapPrepend ++
      b.contents ++ b.buffer_.drop (kCheapPrepend + b.contents.length)) := copyTo_of_le hfit
  have hnew : (⟨b.buffer_.take kCheapPrepend ++ b.contents ++
      b.buffer_.drop (kCheapPrepend + b.contents.length), kCheapPrepend,
        sizeAdd kCheapPrepend b.readableBytes⟩ : Buffer) = b.moved := by
    have hmin : (b.buffer_.take kCheapPrepend).length = kCheapPrepend := by
      rw [List.length_take]
      omega
    rw [moved, layout, hmin, hread, sizeAdd_of_lt (by omega)]
  have hreadable : b.readableBytes = b.moved.readableBytes := by
    rw [readableBytes_eq (valid_moved h hfit).1, moved, contents_layout, hread]
  rw [makeSpace, if_neg ((enlarges_iff h).not.mp hbranch), asserts_bind_of hreader, hfrom]
  show copyTo b.buffer_ kCheapPrepend b.contents >>= _ = _
  rw [hto]
  show asserts _ >>= _ = _
  rw [hnew, asserts_bind_of hreadable]
  rfl

/-- The free bytes on both sides suffice. -/
lemma prepared_moved (h : Valid b) (hlen : b.buffer_.length - b.writerIndex_ < len)
    (hfree : b.contents.length + len + kCheapPrepend ≤ b.buffer_.length) :
    Prepared b b.moved len := by
  have hcount := reader_add_length h
  have hfit : kCheapPrepend + b.contents.length ≤ b.buffer_.length := by omega
  obtain ⟨hvalid, hsame⟩ := valid_moved h hfit
  refine ⟨hvalid, contents_layout _ _ _, ?_, .inr ⟨?_, ?_⟩, Nat.le_of_eq hsame.symm, ?_⟩
  · rw [hsame]
    simp only [moved, layout, List.length_take]
    omega
  · simp only [moved, layout, List.length_take]
    omega
  · omega
  · rw [hsame]
    exact Nat.le_max_left _ _

/-- `ensureWritableBytes` keeps the contents and makes the room it promises. -/
lemma ensureWritableBytes_ok (h : Valid b) (hlen : len < 2 ^ 63) (hroom : Room b len) :
    ∃ b', b.ensureWritableBytes len = .ok b' ∧ Prepared b b' len := by
  have hwrite := writableBytes_eq h
  have hcount := reader_add_length h
  have hsize := Nat.lt_of_le_of_lt h.size_le maxSize_lt
  have hw := h.writer_le
  have hcheap : kCheapPrepend = 8 := rfl
  -- the assertion behind the call holds for every buffer with enough room
  have hassert : ∀ b' : Buffer, Prepared b b' len → len ≤ b'.writableBytes := by
    intro b' hp
    have hroom' := hp.room
    rw [writableBytes_eq hp.valid]
    omega
  by_cases hlt : b.writableBytes < len
  · have hmake : ∃ b', b.makeSpace len = .ok b' ∧ Prepared b b' len := by
      by_cases hfree : b.contents.length + len + kCheapPrepend ≤ b.buffer_.length
      · have hmod : (len + kCheapPrepend) % 2 ^ 64 = len + kCheapPrepend :=
          Nat.mod_eq_of_lt (by omega)
        have hbranch : ¬ Enlarges b len := by
          rw [Enlarges, hmod]
          omega
        exact ⟨_, makeSpace_move h hbranch (by omega), prepared_moved h (by omega) hfree⟩
      · have hmax : b.writerIndex_ + len ≤ maxSize := hroom.resolve_right hfree
        obtain ⟨v, hv, hp⟩ := prepared_resize h (by omega) hmax
        refine ⟨_, ?_, hp⟩
        have hcond : sizeAdd b.writableBytes b.prependableBytes < sizeAdd len kCheapPrepend := by
          rw [prependableBytes, hwrite, sizeAdd_of_lt (by omega), sizeAdd_of_lt (by omega)]
          omega
        have hadd : sizeAdd b.writerIndex_ len = b.writerIndex_ + len := sizeAdd_of_lt (by omega)
        rw [makeSpace, if_pos hcond, hadd, hv]
        rfl
    obtain ⟨b', hb', hp⟩ := hmake
    refine ⟨b', ?_, hp⟩
    rw [ensureWritableBytes, if_pos hlt, hb']
    exact asserts_bind_of (hassert b' hp) _
  · have hp : Prepared b b len := ⟨h, rfl, by omega, .inl rfl, Nat.le_refl _, Nat.le_max_left _ _⟩
    refine ⟨b, ?_, hp⟩
    rw [ensureWritableBytes, if_neg hlt]
    exact asserts_bind_of (hassert b hp) _

/-- Without room the vector would have to become too large. -/
lemma ensureWritableBytes_lengthError (h : Valid b) (hroom : ¬ Room b len)
    (hbranch : Enlarges b len) (hsum : b.writerIndex_ + len < 2 ^ 64) :
    b.ensureWritableBytes len = .error .lengthError := by
  have hw := h.writer_le
  have hsize := h.size_le
  have hwrite := writableBytes_eq h
  rw [Room, not_or] at hroom
  have hlt : b.writableBytes < len := by omega
  rw [ensureWritableBytes, if_pos hlt, makeSpace, if_pos ((enlarges_iff h).mp hbranch),
    sizeAdd_of_lt hsum, vectorResize, if_pos (Nat.lt_of_not_le hroom.1)]
  rfl

/-- Without room for a length that an object can have, the vector would be enlarged. -/
lemma enlarges_of_not_room (h : Valid b) (hlen : len < 2 ^ 63) (hroom : ¬ Room b len) :
    Enlarges b len ∧ b.writerIndex_ + len < 2 ^ 64 := by
  have hw := h.writer_le
  have hsize := Nat.lt_of_le_of_lt h.size_le maxSize_lt
  have hcheap : kCheapPrepend = 8 := rfl
  rw [Room, not_or] at hroom
  rw [Enlarges, Nat.mod_eq_of_lt (by omega)]
  omega

/-- The free bytes seem to suffice without room only for a length whose sum with
`kCheapPrepend` wraps around. -/
lemma ensureWritableBytes_assertion (h : Valid b) (hroom : ¬ Room b len)
    (hbranch : ¬ Enlarges b len) : b.ensureWritableBytes len = .error .assertion := by
  have hsize := Nat.lt_of_le_of_lt h.size_le maxSize_lt
  have hcount := reader_add_length h
  have hw := h.writer_le
  have hwrite := writableBytes_eq h
  have hcheap : kCheapPrepend = 8 := rfl
  rw [Room, not_or] at hroom
  have hlt : b.writableBytes < len := by
    have hmax := h.size_le
    omega
  have hhuge : 2 ^ 64 ≤ len + kCheapPrepend := by
    rw [Enlarges] at hbranch
    omega
  rw [ensureWritableBytes, if_pos hlt]
  by_cases hreader : kCheapPrepend < b.readerIndex_
  · have hfit : kCheapPrepend + b.contents.length ≤ b.buffer_.length := by omega
    obtain ⟨hvalid, hsame⟩ := valid_moved h hfit
    have hshort : ¬ len ≤ b.moved.writableBytes := by
      rw [writableBytes_eq hvalid, hsame]
      omega
    rw [makeSpace_move h hbranch hreader]
    exact asserts_bind_of_not hshort _
  · rw [makeSpace, if_neg ((enlarges_iff h).not.mp hbranch), asserts_bind_of_not hreader]
    rfl

/-- The sum of the indices wraps around: the vector is cut off in front of the write index, and
the assertion, which wraps around as well, does not notice it. -/
lemma ensureWritableBytes_wraps (h : Valid b) (hlen : len < 2 ^ 64) (hwrap : 2 ^ 64 ≤ b.writerIndex_ + len)
    (hbranch : Enlarges b len) :
    ∃ b', b.ensureWritableBytes len = .ok b' ∧ b'.buffer_.length < b'.writerIndex_ := by
  have hsize := Nat.lt_of_le_of_lt h.size_le maxSize_lt
  have hw := h.writer_le
  have hmax : maxSize = 2 ^ 63 - 1 := rfl
  have hlt : b.writableBytes < len := by
    rw [writableBytes_eq h]
    omega
  have hadd : sizeAdd b.writerIndex_ len = b.writerIndex_ + len - 2 ^ 64 := by
    rw [sizeAdd]
    omega
  have hresize : vectorResize b.buffer_ (b.writerIndex_ + len - 2 ^ 64) =
      .ok (b.buffer_.take (b.writerIndex_ + len - 2 ^ 64)) := by
    have hpad : b.writerIndex_ + len - 2 ^ 64 - b.buffer_.length = 0 := by omega
    rw [vectorResize, if_neg (by omega), hpad, List.replicate_zero, List.append_nil]
  have hcut : (b.buffer_.take (b.writerIndex_ + len - 2 ^ 64)).length =
      b.writerIndex_ + len - 2 ^ 64 := by
    rw [List.length_take]
    omega
  have hassert : len ≤ (⟨b.buffer_.take (b.writerIndex_ + len - 2 ^ 64), b.readerIndex_,
      b.writerIndex_⟩ : Buffer).writableBytes := by
    simp only [writableBytes, hcut, sizeSub]
    omega
  refine ⟨⟨b.buffer_.take (b.writerIndex_ + len - 2 ^ 64), b.readerIndex_, b.writerIndex_⟩, ?_, ?_⟩
  · rw [ensureWritableBytes, if_pos hlt, makeSpace, if_pos ((enlarges_iff h).mp hbranch), hadd,
      hresize]
    exact asserts_bind_of hassert _
  · simp only [hcut]
    omega

/-- **What `ensureWritableBytes` does for every length.**  With room it keeps its promise.
Without room it throws when the vector would have to become too large, it stops at an assertion
when the free bytes only seem to suffice because the sum wraps around, and it returns with a
buffer that is broken when the new size of the vector wraps around. -/
theorem ensureWritableBytes_outcome (h : Valid b) (hlen : len < 2 ^ 64) :
    (Room b len → ∃ b', b.ensureWritableBytes len = .ok b' ∧ Prepared b b' len) ∧
    (¬ Room b len → Enlarges b len → b.writerIndex_ + len < 2 ^ 64 →
      b.ensureWritableBytes len = .error .lengthError) ∧
    (¬ Room b len → Enlarges b len → 2 ^ 64 ≤ b.writerIndex_ + len →
      ∃ b', b.ensureWritableBytes len = .ok b' ∧ b'.buffer_.length < b'.writerIndex_) ∧
    (¬ Room b len → ¬ Enlarges b len → b.ensureWritableBytes len = .error .assertion) := by
  have hsize := Nat.lt_of_le_of_lt h.size_le maxSize_lt
  have hmax : maxSize = 2 ^ 63 - 1 := rfl
  refine ⟨fun hroom => ?_, fun hroom hbranch hsum => ?_, fun _ hbranch hwrap => ?_,
    fun hroom hbranch => ?_⟩
  · refine ensureWritableBytes_ok h ?_ hroom
    rw [Room] at hroom
    omega
  · exact ensureWritableBytes_lengthError h hroom hbranch hsum
  · exact ensureWritableBytes_wraps h hlen hwrap hbranch
  · exact ensureWritableBytes_assertion h hroom hbranch

/-- A length that wraps around cuts a buffer of twelve bytes to one byte. -/
theorem ensureWritableBytes_outcome_wraps :
    ∃ b', Buffer.ensureWritableBytes ⟨List.replicate 12 0, 8, 10⟩ (2 ^ 64 - 9) = .ok b' ∧
      b'.buffer_.length < b'.writerIndex_ := by
  have hvalid : Valid ⟨List.replicate 12 0, 8, 10⟩ := ⟨by decide, by decide, by decide, by decide⟩
  exact (ensureWritableBytes_outcome hvalid (by decide)).2.2.1 (by decide) (by decide) (by decide)

/-! ## What each operation does to the contents -/

/-- A buffer with the contents `q`, with room for a header of `cheap` bytes, in a vector of at
most `m` bytes. -/
structure Result (b : Buffer) (q : Bytes) (cheap m : ℕ) : Prop where
  valid : Valid b
  contents_eq : b.contents = q
  cheap_le : cheap ≤ b.readerIndex_
  size_le : b.buffer_.length ≤ m

/-- Three parts that together are as long as a valid buffer are a valid buffer. -/
lemma result_layout {m : ℕ} (hlen : pre.length + mid.length + post.length = m)
    (hcheap : kCheapPrepend ≤ m) (hmax : m ≤ maxSize) :
    Result (layout pre mid post) mid pre.length m := by
  refine ⟨valid_layout.mpr (by omega), contents_layout _ _ _, Nat.le_refl _, ?_⟩
  simp only [layout, List.length_append]
  omega

/-- The lengths of the three parts of a valid buffer. -/
lemma Valid.length_eq (h : Valid b) (hb : b = layout pre b.contents post) :
    b.readerIndex_ = pre.length ∧ b.writerIndex_ = pre.length + b.contents.length ∧
      b.buffer_.length = pre.length + b.contents.length + post.length := by
  have hr : b.readerIndex_ = pre.length := by rw [hb, layout]
  refine ⟨hr, ?_, ?_⟩
  · rw [← reader_add_length h, hr]
  · conv_lhs => rw [hb]
    simp only [layout, List.length_append]

/-- Bytes that the caller writes behind the contents become contents by `hasWritten`. -/
lemma writeTo_hasWritten (h : Valid b) (hroom : b.writerIndex_ + data.length ≤ b.buffer_.length) :
    ∃ b', (b.writeTo data >>= fun b₁ => b₁.hasWritten data.length) = .ok b' ∧
      Result b' (b.contents ++ data) b.readerIndex_ b.buffer_.length ∧
      b'.readerIndex_ = b.readerIndex_ ∧ b'.buffer_.length = b.buffer_.length := by
  obtain ⟨pre, post, hb⟩ := h.exists_layout
  obtain ⟨hr, hw, hs⟩ := h.length_eq hb
  have hmax := h.size_le
  have hmaxLt := maxSize_lt
  have hdata : data.length ≤ post.length := by omega
  have hcopy : b.writeTo data = .ok ⟨pre ++ b.contents ++ data ++ post.drop data.length,
      b.readerIndex_, b.writerIndex_⟩ := by
    have hlen : b.writerIndex_ = (pre ++ b.contents).length := by
      rw [List.length_append, hw]
    have hbuf : b.buffer_ = pre ++ b.contents ++ post := by
      conv_lhs => rw [hb]
      rfl
    rw [writeTo, hbuf, hlen, copyTo_append hdata]
    rfl
  have hwritable : data.length ≤ (⟨pre ++ b.contents ++ data ++ post.drop data.length,
      b.readerIndex_, b.writerIndex_⟩ : Buffer).writableBytes := by
    rw [writableBytes, sizeSub_of_le]
    · simp only [List.length_append, List.length_drop]
      omega
    · simp only [List.length_append, List.length_drop]
      omega
    · simp only [List.length_append, List.length_drop]
      omega
  have hres : Result (layout pre (b.contents ++ data) (post.drop data.length))
      (b.contents ++ data) pre.length b.buffer_.length := by
    refine result_layout ?_ h.cheap_le hmax
    simp only [List.length_append, List.length_drop]
    omega
  have hsame : (layout pre (b.contents ++ data) (post.drop data.length)).buffer_.length =
      b.buffer_.length := by
    simp only [layout, List.length_append, List.length_drop]
    omega
  refine ⟨layout pre (b.contents ++ data) (post.drop data.length), ?_, hr ▸ hres, hr.symm, hsame⟩
  rw [hcopy]
  show hasWritten _ _ = _
  rw [hasWritten, asserts_bind_of hwritable]
  have hadd : sizeAdd b.writerIndex_ data.length = pre.length + (b.contents ++ data).length := by
    rw [sizeAdd_of_lt (by omega), List.length_append]
    omega
  rw [hadd, hr, layout, ← List.append_assoc pre]
  rfl

lemma append_ok (h : Valid b) (hlen : data.length < 2 ^ 63) (hroom : Room b data.length) :
    ∃ b', b.append data = .ok b' ∧ Result b' (b.contents ++ data)
      (min b.readerIndex_ kCheapPrepend) (max b.buffer_.length (b.writerIndex_ + data.length)) := by
  obtain ⟨b₁, hb₁, hp⟩ := ensureWritableBytes_ok h hlen hroom
  obtain ⟨b₂, hb₂, hr, -⟩ := writeTo_hasWritten hp.valid hp.room
  refine ⟨b₂, ?_, hr.valid, ?_, ?_, Nat.le_trans hr.size_le hp.size_le⟩
  · rw [append, hb₁]
    exact hb₂
  · rw [hr.contents_eq, hp.contents_eq]
  · rw [← hp.cheap_eq]
    exact Nat.le_trans (Nat.min_le_left _ _) hr.cheap_le

lemma append_lengthError (h : Valid b) (hlen : data.length < 2 ^ 63)
    (hroom : ¬ Room b data.length) : b.append data = .error .lengthError := by
  obtain ⟨hbranch, hsum⟩ := enlarges_of_not_room h hlen hroom
  rw [append, ensureWritableBytes_lengthError h hroom hbranch hsum]
  rfl

lemma prepend_ok (h : Valid b) (hle : data.length ≤ b.readerIndex_) :
    ∃ b', b.prepend data = .ok b' ∧ Result b' (data ++ b.contents)
      (b.readerIndex_ - data.length) b.buffer_.length := by
  obtain ⟨pre, post, hb⟩ := h.exists_layout
  obtain ⟨hr, hw, hs⟩ := h.length_eq hb
  have hmax := h.size_le
  have hmaxLt := maxSize_lt
  obtain ⟨pre', gap, rfl, hgap⟩ : ∃ pre' gap, pre = pre' ++ gap ∧ gap.length = data.length := by
    refine ⟨pre.take (pre.length - data.length), pre.drop (pre.length - data.length), ?_, ?_⟩
    · rw [List.take_append_drop]
    · rw [List.length_drop]
      omega
  rw [List.length_append] at hr hw hs
  have hpre : b.readerIndex_ - data.length = pre'.length := by omega
  have hreader : sizeSub b.readerIndex_ data.length = pre'.length := by
    rw [sizeSub_of_le hle (by omega), hpre]
  have hbuf : b.buffer_ = pre' ++ (gap ++ b.contents ++ post) := by
    conv_lhs => rw [hb]
    simp only [layout, List.append_assoc]
  have hcopy : copyTo b.buffer_ pre'.length data =
      .ok (pre' ++ (data ++ b.contents) ++ post) := by
    rw [hbuf, copyTo_append (by simp only [List.length_append]; omega)]
    simp only [← hgap, List.append_assoc, List.drop_left]
  refine ⟨layout pre' (data ++ b.contents) post, ?_, ?_⟩
  · rw [prepend, prependableBytes, asserts_bind_of hle, hreader]
    show copyTo b.buffer_ pre'.length data >>= _ = _
    rw [hcopy]
    show Except.ok (⟨_, _, b.writerIndex_⟩ : Buffer) = _
    rw [layout, List.length_append, hw]
    congr 2
    omega
  · rw [hpre]
    refine result_layout ?_ h.cheap_le hmax
    rw [List.length_append]
    omega

lemma prepend_assertion (hle : ¬ data.length ≤ b.readerIndex_) :
    b.prepend data = .error .assertion := by
  rw [prepend]
  exact asserts_bind_of_not hle _

/-- What is prepended takes exactly its length from the room in front. -/
lemma prepend_readerIndex (h : Valid b) (hb : b.prepend data = .ok b') :
    b'.readerIndex_ = b.readerIndex_ - data.length := by
  have hr := h.reader_le
  have hw := h.writer_le
  have hsize := Nat.lt_of_le_of_lt h.size_le maxSize_lt
  rw [prepend, asserts_bind_eq_ok, except_bind_eq_ok] at hb
  obtain ⟨hle, v, -, hok⟩ := hb
  obtain rfl := Except.ok.inj hok
  exact sizeSub_of_le hle (by omega)

/-- An empty buffer has its room for a header again. -/
lemma retrieveAll_result (h : Valid b) :
    Result b.retrieveAll [] kCheapPrepend b.buffer_.length := by
  refine ⟨⟨Nat.le_refl _, h.cheap_le, h.cheap_le, h.size_le⟩, ?_, Nat.le_refl _, Nat.le_refl _⟩
  rw [contents, retrieveAll, List.drop_eq_nil_iff, List.length_take]
  exact Nat.min_le_left _ _

lemma retrieve_ok (h : Valid b) (hle : len ≤ b.contents.length) :
    ∃ b', b.retrieve len = .ok b' ∧ Result b' (b.contents.drop len)
      (if len < b.contents.length then b.readerIndex_ + len else kCheapPrepend)
      b.buffer_.length := by
  have hread := readableBytes_eq h
  by_cases hlt : len < b.contents.length
  · obtain ⟨pre, post, hb⟩ := h.exists_layout
    obtain ⟨hr, hw, hs⟩ := h.length_eq hb
    have hmax := h.size_le
    have hmaxLt := maxSize_lt
    have htake : (b.contents.take len).length = len := by
      rw [List.length_take, Nat.min_eq_left hle]
    have hadd : sizeAdd b.readerIndex_ len = (pre ++ b.contents.take len).length := by
      rw [List.length_append, htake, sizeAdd_of_lt (by omega), hr]
    have hbuf : b.buffer_ = pre ++ b.contents.take len ++ b.contents.drop len ++ post := by
      rw [List.append_assoc pre, List.take_append_drop]
      conv_lhs => rw [hb]
      rfl
    refine ⟨layout (pre ++ b.contents.take len) (b.contents.drop len) post, ?_, ?_⟩
    · rw [retrieve, hread, asserts_bind_of hle, if_pos hlt, hadd, layout, ← hbuf]
      show Except.ok (⟨_, _, b.writerIndex_⟩ : Buffer) = _
      congr 2
      rw [List.length_append, htake, List.length_drop]
      omega
    · have hcheap : b.readerIndex_ + len = (pre ++ b.contents.take len).length := by
        rw [List.length_append, htake, hr]
      rw [if_pos hlt, hcheap]
      refine result_layout ?_ h.cheap_le hmax
      rw [List.length_append, htake, List.length_drop]
      omega
  · have hnil : b.contents.drop len = [] := List.drop_eq_nil_iff.mpr (Nat.le_of_not_lt hlt)
    refine ⟨b.retrieveAll, ?_, ?_⟩
    · rw [retrieve, hread, asserts_bind_of hle, if_neg hlt]
      rfl
    · rw [if_neg hlt, hnil]
      exact retrieveAll_result h

lemma retrieve_assertion (h : Valid b) (hle : ¬ len ≤ b.contents.length) :
    b.retrieve len = .error .assertion := by
  rw [retrieve, readableBytes_eq h]
  exact asserts_bind_of_not hle _

lemma peek_ok (h : Valid b) (hle : len ≤ b.contents.length) :
    b.peek len = .ok (b.contents.take len) := by
  obtain ⟨pre, post, hb⟩ := h.exists_layout
  obtain ⟨hr, hw, hs⟩ := h.length_eq hb
  have hbuf : b.buffer_ = pre ++ (b.contents ++ post) := by
    conv_lhs => rw [hb]
    rw [layout, List.append_assoc]
  have hin : b.readerIndex_ + len ≤ b.buffer_.length := by omega
  rw [peek, copyFrom, if_pos hin, hr, hbuf, List.drop_left, List.take_append_of_le_length hle]

lemma retrieveAsString_ok (h : Valid b) (hle : len ≤ b.contents.length) :
    ∃ b', b.retrieveAsString len = .ok (b.contents.take len, b') ∧ b.retrieve len = .ok b' := by
  obtain ⟨b', hb', -⟩ := retrieve_ok h hle
  refine ⟨b', ?_, hb'⟩
  rw [retrieveAsString, readableBytes_eq h, asserts_bind_of hle, peek_ok h hle, hb']
  rfl

lemma retrieveAsString_assertion (h : Valid b) (hle : ¬ len ≤ b.contents.length) :
    b.retrieveAsString len = .error .assertion := by
  rw [retrieveAsString, readableBytes_eq h]
  exact asserts_bind_of_not hle _

lemma unwrite_ok (h : Valid b) (hle : len ≤ b.contents.length) :
    ∃ b', b.unwrite len = .ok b' ∧
      Result b' (b.contents.take (b.contents.length - len)) b.readerIndex_ b.buffer_.length := by
  obtain ⟨pre, post, hb⟩ := h.exists_layout
  obtain ⟨hr, hw, hs⟩ := h.length_eq hb
  have hmax := h.size_le
  have hmaxLt := maxSize_lt
  have htake : (b.contents.take (b.contents.length - len)).length = b.contents.length - len := by
    rw [List.length_take]
    omega
  have hsub : sizeSub b.writerIndex_ len = b.writerIndex_ - len := sizeSub_of_le (by omega) (by omega)
  have hbuf : b.buffer_ = pre ++ b.contents.take (b.contents.length - len) ++
      (b.contents.drop (b.contents.length - len) ++ post) := by
    rw [List.append_assoc, ← List.append_assoc (b.contents.take _), List.take_append_drop]
    conv_lhs => rw [hb]
    rw [layout, List.append_assoc]
  refine ⟨layout pre (b.contents.take (b.contents.length - len))
    (b.contents.drop (b.contents.length - len) ++ post), ?_, ?_⟩
  · rw [unwrite, readableBytes_eq h, asserts_bind_of hle, layout, ← hbuf, hsub, htake, ← hr]
    show Except.ok (⟨_, _, _⟩ : Buffer) = _
    congr 2
    omega
  · rw [hr]
    refine result_layout ?_ h.cheap_le hmax
    rw [htake, List.length_append, List.length_drop]
    omega

lemma unwrite_assertion (h : Valid b) (hle : ¬ len ≤ b.contents.length) :
    b.unwrite len = .error .assertion := by
  rw [unwrite, readableBytes_eq h]
  exact asserts_bind_of_not hle _

/-! ## A new buffer, and `shrink` -/

/-- A vector of zeros, and nothing in it yet. -/
def fresh (initialSize : ℕ) : Buffer :=
  ⟨List.replicate (kCheapPrepend + initialSize) 0, kCheapPrepend, kCheapPrepend⟩

lemma result_fresh {initialSize : ℕ} (h : kCheapPrepend + initialSize ≤ maxSize) :
    Result (fresh initialSize) [] kCheapPrepend (kCheapPrepend + initialSize) := by
  have hlen : (fresh initialSize).buffer_.length = kCheapPrepend + initialSize :=
    List.length_replicate
  refine ⟨⟨Nat.le_refl _, ?_, ?_, ?_⟩, ?_, Nat.le_refl _, Nat.le_of_eq hlen⟩
  · rw [hlen]
    exact Nat.le_add_right _ _
  · rw [hlen]
    exact Nat.le_add_right _ _
  · rwa [hlen]
  · rw [contents, List.drop_eq_nil_iff, List.length_take]
    exact Nat.min_le_left _ _

lemma init_ok {initialSize : ℕ} (h : kCheapPrepend + initialSize ≤ maxSize) :
    init initialSize = .ok (fresh initialSize) := by
  have hmaxLt := maxSize_lt
  have hres := result_fresh h
  have hadd : sizeAdd kCheapPrepend initialSize = kCheapPrepend + initialSize :=
    sizeAdd_of_lt (by omega)
  have hvec : vectorResize [] (kCheapPrepend + initialSize) =
      .ok (List.replicate (kCheapPrepend + initialSize) 0) := by
    rw [vectorResize, if_neg (by omega), List.take_nil, List.nil_append, List.length_nil,
      Nat.sub_zero]
  have hread : (fresh initialSize).readableBytes = 0 := by
    rw [readableBytes_eq hres.valid, hres.contents_eq, List.length_nil]
  have hwrite : (fresh initialSize).writableBytes = initialSize := by
    rw [writableBytes_eq hres.valid]
    simp only [fresh, List.length_replicate]
    omega
  rw [init, hadd, hvec, ok_bind, ← fresh]
  rw [asserts_bind_of hread, asserts_bind_of hwrite]
  exact asserts_bind_of rfl _

/-- A length that the detour through `int` keeps non-negative loses its high bits, and a negative
one becomes almost `2 ^ 64`. -/
lemma pieceSize_of_nonneg (h : Valid b) (hpos : b.contents.length % 2 ^ 32 < 2 ^ 31) :
    b.pieceSize = b.contents.length % 2 ^ 32 := by
  rw [pieceSize, readableBytes_eq h, csize, cint, Int.bmod_eq_emod]
  split <;> omega

lemma pieceSize_of_neg (h : Valid b) (hneg : ¬ b.contents.length % 2 ^ 32 < 2 ^ 31) :
    b.pieceSize = 2 ^ 64 - 2 ^ 32 + b.contents.length % 2 ^ 32 := by
  rw [pieceSize, readableBytes_eq h, csize, cint, Int.bmod_eq_emod]
  split <;> omega

/-- The new buffer of `shrink` with its room reserved. -/
lemma shrink_other {reserve : ℕ} (h : Valid b)
    (hmax : kCheapPrepend + (b.contents.length + reserve) ≤ maxSize) :
    ∃ other, (fresh kInitialSize).ensureWritableBytes (sizeAdd b.readableBytes reserve) = .ok other ∧
      Valid other ∧ other.contents = [] ∧ other.readerIndex_ = kCheapPrepend ∧
      other.buffer_.length = kCheapPrepend + max kInitialSize (b.contents.length + reserve) := by
  have hmaxLt := maxSize_lt
  have hres : Result (fresh kInitialSize) [] kCheapPrepend (kCheapPrepend + kInitialSize) :=
    result_fresh (by decide)
  have hsize : (fresh kInitialSize).buffer_.length = kCheapPrepend + kInitialSize :=
    List.length_replicate
  have hadd : sizeAdd b.readableBytes reserve = b.contents.length + reserve := by
    rw [readableBytes_eq h, sizeAdd_of_lt (by omega)]
  have hwriter : (fresh kInitialSize).writerIndex_ = kCheapPrepend := rfl
  have hreader : (fresh kInitialSize).readerIndex_ = kCheapPrepend := rfl
  rw [hadd]
  have hfit : Room (fresh kInitialSize) (b.contents.length + reserve) := .inl (by omega)
  obtain ⟨other, hother, hp⟩ := ensureWritableBytes_ok hres.valid (by omega) hfit
  have hempty : other.contents = [] := hp.contents_eq.trans hres.contents_eq
  have hreader' : other.readerIndex_ = kCheapPrepend := by
    rcases hp.reader_eq with heq | ⟨heq, -⟩
    · exact heq
    · exact heq
  refine ⟨other, hother, hp.valid, hempty, hreader', ?_⟩
  have hcount := reader_add_length hp.valid
  have hroom := hp.room
  have hle := hp.le_size
  have hge := hp.size_le
  rw [hempty, List.length_nil] at hcount
  omega

lemma shrink_ok {reserve : ℕ} (h : Valid b)
    (hmax : kCheapPrepend + (b.contents.length + reserve) ≤ maxSize)
    (hpos : b.contents.length % 2 ^ 32 < 2 ^ 31) :
    ∃ b', b.shrink reserve = .ok b' ∧ Result b' (b.contents.take (b.contents.length % 2 ^ 32))
      kCheapPrepend (kCheapPrepend + max kInitialSize (b.contents.length + reserve)) ∧
      b'.readerIndex_ = kCheapPrepend ∧
      b'.buffer_.length = kCheapPrepend + max kInitialSize (b.contents.length + reserve) := by
  obtain ⟨other, hother, hvalid, hempty, hreader, hsize⟩ := shrink_other h hmax
  have hle : b.contents.length % 2 ^ 32 ≤ b.contents.length := Nat.mod_le _ _
  have hdata : (b.contents.take (b.contents.length % 2 ^ 32)).length = b.contents.length % 2 ^ 32 := by
    rw [List.length_take, Nat.min_eq_left hle]
  have hcount := reader_add_length hvalid
  rw [hempty, List.length_nil] at hcount
  have hroom : other.writerIndex_ + b.contents.length % 2 ^ 32 ≤ other.buffer_.length := by omega
  -- the room was reserved, so the second call returns at once
  have hagain : other.ensureWritableBytes (b.contents.length % 2 ^ 32) = .ok other := by
    have hwrite : ¬ other.writableBytes < b.contents.length % 2 ^ 32 := by
      rw [writableBytes_eq hvalid]
      omega
    rw [ensureWritableBytes, if_neg hwrite]
    exact asserts_bind_of (Nat.le_of_not_lt hwrite) _
  rw [← hdata] at hroom
  obtain ⟨b', hb', hres, hreader', hsize'⟩ := writeTo_hasWritten hvalid hroom
  refine ⟨b', ?_, ⟨hres.valid, ?_, ?_, ?_⟩, hreader'.trans hreader, hsize'.trans hsize⟩
  · rw [shrink, init_ok (by decide), ok_bind, hother, ok_bind, pieceSize_of_nonneg h hpos, hagain,
      ok_bind, peek_ok h hle, ok_bind]
    rwa [hdata] at hb'
  · rw [hres.contents_eq, hempty, List.nil_append]
  · rw [← hreader]
    exact hres.cheap_le
  · rw [← hsize]
    exact hres.size_le

/-- A negative `int` becomes a length for which there is no room. -/
lemma shrink_error {reserve : ℕ} (h : Valid b)
    (hmax : kCheapPrepend + (b.contents.length + reserve) ≤ maxSize)
    (hneg : ¬ b.contents.length % 2 ^ 32 < 2 ^ 31) : ∃ e, b.shrink reserve = .error e := by
  obtain ⟨other, hother, hvalid, hempty, hreader, hsize⟩ := shrink_other h hmax
  have hmaxEq : maxSize = 2 ^ 63 - 1 := rfl
  have hcheap : kCheapPrepend = 8 := rfl
  have hinit : kInitialSize = 1024 := rfl
  have hmod := Nat.mod_lt b.contents.length (show 0 < 2 ^ 32 by decide)
  have hcount := reader_add_length hvalid
  rw [hempty, List.length_nil] at hcount
  have hpiece := pieceSize_of_neg h hneg
  have hroom : ¬ Room other b.pieceSize := by
    rw [Room, hempty, List.length_nil]
    omega
  have hfail : ∃ e, other.ensureWritableBytes b.pieceSize = .error e := by
    by_cases hbranch : Enlarges other b.pieceSize
    · refine ⟨_, ensureWritableBytes_lengthError hvalid hroom hbranch ?_⟩
      rw [Enlarges, hempty, List.length_nil] at hbranch
      omega
    · exact ⟨_, ensureWritableBytes_assertion hvalid hroom hbranch⟩
  obtain ⟨e, he⟩ := hfail
  refine ⟨e, ?_⟩
  rw [shrink, init_ok (by decide), ok_bind, hother, ok_bind, he]
  rfl

/-- The new buffer of `shrink` would have to become too large. -/
lemma shrink_lengthError {reserve : ℕ} (h : Valid b) (hreserve : kCheapPrepend + reserve ≤ maxSize)
    (hmax : ¬ kCheapPrepend + (b.contents.length + reserve) ≤ maxSize) :
    b.shrink reserve = .error .lengthError := by
  have hmaxEq : maxSize = 2 ^ 63 - 1 := rfl
  have hcheap : kCheapPrepend = 8 := rfl
  have hinit : kInitialSize = 1024 := rfl
  have hcount := reader_add_length h
  have hw := h.writer_le
  have hs := h.size_le
  have hres : Result (fresh kInitialSize) [] kCheapPrepend (kCheapPrepend + kInitialSize) :=
    result_fresh (by decide)
  have hsize : (fresh kInitialSize).buffer_.length = kCheapPrepend + kInitialSize :=
    List.length_replicate
  have hwriter : (fresh kInitialSize).writerIndex_ = kCheapPrepend := rfl
  have hadd : sizeAdd b.readableBytes reserve = b.contents.length + reserve := by
    rw [readableBytes_eq h, sizeAdd_of_lt (by omega)]
  have hroom : ¬ Room (fresh kInitialSize) (b.contents.length + reserve) := by
    rw [Room, hres.contents_eq, List.length_nil]
    omega
  have hbranch : Enlarges (fresh kInitialSize) (b.contents.length + reserve) := by
    rw [Enlarges, hres.contents_eq, List.length_nil, Nat.mod_eq_of_lt (by omega)]
    omega
  rw [shrink, init_ok (by decide), ok_bind, hadd,
    ensureWritableBytes_lengthError hres.valid hroom hbranch (by omega)]
  rfl

/-- **What `shrink` leaves.**  As long as the contents and the reserve fit into a vector, the length
of the contents passes through an `int`: contents of `2 ^ 31` bytes and more are cut to the length
modulo `2 ^ 32` or, where that is negative as an `int`, stop the call.  The new vector has exactly
the reserved size, behind the room for a header. -/
theorem shrink_outcome {reserve : ℕ} (h : Valid b)
    (hmax : kCheapPrepend + (b.contents.length + reserve) ≤ maxSize) :
    ((∃ b', b.shrink reserve = .ok b') ↔ b.contents.length % 2 ^ 32 < 2 ^ 31) ∧
    (∀ b', b.shrink reserve = .ok b' →
      Valid b' ∧ b'.contents = b.contents.take (b.contents.length % 2 ^ 32) ∧
      b'.readerIndex_ = kCheapPrepend ∧
      b'.buffer_.length = kCheapPrepend + max kInitialSize (b.contents.length + reserve)) ∧
    ((∃ b', b.shrink reserve = .ok b' ∧ b'.contents = b.contents) ↔
      b.contents.length < 2 ^ 31) := by
  have hpos_of_ok : ∀ b', b.shrink reserve = .ok b' → b.contents.length % 2 ^ 32 < 2 ^ 31 := by
    intro b' hb'
    by_contra hneg
    obtain ⟨e, he⟩ := shrink_error h hmax hneg
    exact absurd (hb'.symm.trans he) (by simp)
  refine ⟨⟨fun ⟨b', hb'⟩ => hpos_of_ok b' hb', fun hpos => ?_⟩, fun b' hb' => ?_, ?_, fun hlt => ?_⟩
  · obtain ⟨b', hb', -⟩ := shrink_ok h hmax hpos
    exact ⟨b', hb'⟩
  · obtain ⟨hres, hreader, hsize⟩ := of_eq_ok (shrink_ok h hmax (hpos_of_ok b' hb')) hb'
    exact ⟨hres.valid, hres.contents_eq, hreader, hsize⟩
  · rintro ⟨b', hb', hsame⟩
    have hpos := hpos_of_ok b' hb'
    obtain ⟨hres, -⟩ := of_eq_ok (shrink_ok h hmax hpos) hb'
    have hlen := congrArg List.length (hres.contents_eq.symm.trans hsame)
    rw [List.length_take] at hlen
    omega
  · have hmod : b.contents.length % 2 ^ 32 = b.contents.length := Nat.mod_eq_of_lt (by omega)
    obtain ⟨b', hb', hres, -⟩ := shrink_ok h hmax (by rwa [hmod])
    refine ⟨b', hb', ?_⟩
    rw [hres.contents_eq, hmod, List.take_length]

/-- Two bytes in a vector of twelve, with a reserve of two thousand. -/
theorem shrink_outcome_kept :
    ∃ b', Buffer.shrink ⟨List.replicate 12 7, 8, 10⟩ 2000 = .ok b' ∧ b'.contents = [7, 7] ∧
      b'.buffer_.length = 2010 := by
  have hvalid : Valid ⟨List.replicate 12 7, 8, 10⟩ := ⟨by decide, by decide, by decide, by decide⟩
  obtain ⟨-, hleft, hkept⟩ := shrink_outcome hvalid (show _ + (_ + 2000) ≤ maxSize by decide)
  obtain ⟨b', hb', hcontents⟩ := hkept.mpr (by decide)
  exact ⟨b', hb', hcontents, (hleft b' hb').2.2.2⟩

end Layout

end Buffer

end CppServer.Net
