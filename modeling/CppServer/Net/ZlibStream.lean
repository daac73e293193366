/-
# Compressing into a buffer

`muduo::net::ZlibOutputStream` compresses what is written to it and appends it to a buffer.  It
offers `deflate` the free bytes of the buffer, takes over what it has put there, and offers twice
as much the next time when it has used all of it.

zlib itself is not in the repository, so `Lib.Deflate` has what its manual promises.  The result
is about whole runs: whatever is written, in pieces or from a buffer, and however `deflate` cuts
its output, what was appended is inflated to what was written, as long as what is given in all is
shorter than `2 ^ 31` and what is put for it leaves the vector shorter than `2 ^ 32`.  One order of
calls does not work: `write(Buffer*)` leaves `next_in` where it is, and `write(StringPiece)` asserts
that it is null.
-/
import Mathlib.Data.List.Basic
import Mathlib.Tactic.IntervalCases
import Mathlib.Tactic.Ring
import CppServer.Lib.Deflate
import CppServer.Net.Buffer
import CppServer.Lib.Run

namespace CppServer.Net

/-- The conversion of an `int` to `uInt`. -/
def uInt (n : ℤ) : ℕ := (n % 2 ^ 32).toNat

/-- `next_in` is null or the bytes from there on to the end of what was offered. -/
structure ZlibOutputStream (σ : Type) where
  output_ : Buffer
  next_in : Option Bytes
  avail_in : ℕ
  state : σ
  zerror_ : ZError
  bufferSize_ : ℕ

namespace ZlibOutputStream

variable {σ : Type} (z : Zlib σ)

/-- The constructor. -/
def make (output : Buffer) : ZlibOutputStream σ :=
  ⟨output, none, 0, z.deflateInit.1, z.deflateInit.2, 1024⟩

/-- The bytes that are offered to `deflate`. -/
def offered (s : ZlibOutputStream σ) : Bytes := (s.next_in.getD []).take s.avail_in

/-- `compress(flush)`: room is made, `deflate` is called, and what it put there is taken over. -/
def compress (s : ZlibOutputStream σ) (flush : Flush) :
    Except Stop (ZlibOutputStream σ × ZError) := do
  let out ← s.output_.ensureWritableBytes s.bufferSize_
  let avail_out := uInt (cint out.writableBytes)
  let d := z.deflate s.state s.offered avail_out flush
  let out ← out.writeTo d.produced
  let out ← out.hasWritten (sizeSub out.writableBytes (avail_out - d.produced.length))
  let bufferSize_ :=
    if out.writableBytes = 0 ∧ s.bufferSize_ < 65536 then s.bufferSize_ * 2 else s.bufferSize_
  return ({ s with
    output_ := out
    next_in := s.next_in.map fun data => data.drop d.consumed
    avail_in := s.avail_in - d.consumed
    state := d.state
    bufferSize_ := bufferSize_ }, d.error)

/-- `while (more) zerror_ = compress(flush)`, with at most `fuel` tests. -/
def compressWhile (more : ZlibOutputStream σ → Bool) (flush : Flush) :
    ℕ → ZlibOutputStream σ → Option (Except Stop (ZlibOutputStream σ))
  | 0, _ => none
  | fuel + 1, s =>
    if more s then
      match s.compress z flush with
      | .ok (s', error) => compressWhile more flush fuel { s' with zerror_ := error }
      | .error e => some (.error e)
    else some (.ok s)

/-- `write(StringPiece)`, where `buf` are the bytes of the piece. -/
def writePiece (fuel : ℕ) (s : ZlibOutputStream σ) (buf : Bytes) :
    Option (Except Stop (Bool × ZlibOutputStream σ)) :=
  if s.zerror_ ≠ .ok then some (.ok (false, s))
  else if s.next_in = none ∧ s.avail_in = 0 then
    match compressWhile z (fun s => 0 < s.avail_in ∧ s.zerror_ = .ok) .noFlush fuel
        { s with next_in := some buf, avail_in := uInt buf.length } with
    | none => none
    | some (.error e) => some (.error e)
    | some (.ok s) =>
      if s.avail_in = 0 then
        if s.next_in = some [] then some (.ok (s.zerror_ = .ok, { s with next_in := none }))
        else some (.error .assertion)
      else some (.ok (s.zerror_ = .ok, s))
  else some (.error .assertion)

/-- The statement `if (avail_in > 0 && zerror_ == Z_OK)` of `write(Buffer*)`. -/
def compressSome (s : ZlibOutputStream σ) : Except Stop (ZlibOutputStream σ) := do
  if 0 < s.avail_in ∧ s.zerror_ = .ok then
    let (s', error) ← s.compress z .noFlush
    return { s' with zerror_ := error }
  else return s

/-- `write(Buffer*)`: the stream and the buffer that was read. -/
def writeBuffer (s : ZlibOutputStream σ) (input : Buffer) :
    Except Stop (Bool × ZlibOutputStream σ × Buffer) := do
  if s.zerror_ ≠ .ok then return (false, s, input)
  else
    let data ← input.peek input.readableBytes
    let s ← compressSome z
      { s with next_in := some data, avail_in := uInt (cint input.readableBytes) }
    let input ← input.retrieve (sizeSub input.readableBytes s.avail_in)
    return (s.zerror_ = .ok, s, input)

/-- `finish()`: `deflate` is called with `Z_FINISH` until it does not return `Z_OK`. -/
def finish (fuel : ℕ) (s : ZlibOutputStream σ) : Option (Except Stop (Bool × ZlibOutputStream σ)) :=
  if s.zerror_ ≠ .ok then some (.ok (false, s))
  else
    match compressWhile z (fun s => s.zerror_ = .ok) .finish fuel s with
    | none => none
    | some (.error e) => some (.error e)
    | some (.ok s) =>
      some (.ok (z.deflateEnd s.state = .ok, { s with zerror_ := .streamEnd }))

/-! ## One call of `deflate` -/

lemma uInt_cint {n : ℕ} (h : n < 2 ^ 32) : uInt (cint n) = n := by
  have hrange : (2 : ℤ) ^ 32 = ((2 ^ 32 : ℕ) : ℤ) := rfl
  rw [uInt, cint, hrange, Int.bmod_emod]
  omega

lemma uInt_natCast {n : ℕ} (h : n < 2 ^ 32) : uInt n = n := by
  rw [uInt]
  omega

/-- The stream has appended `out` to the contents of `base`, in a vector whose size stays below a
bound as long as `out` has at most `limit` bytes. -/
structure Appended (base : Buffer) (limit : ℕ) (s : ZlibOutputStream σ) (out : Bytes) : Prop where
  valid : s.output_.Valid
  base_le : base.contents.length ≤ base.buffer_.length
  contents_eq : s.output_.contents = base.contents ++ out
  reader_le : s.output_.readerIndex_ + base.contents.length ≤
    base.buffer_.length + Buffer.kCheapPrepend
  size_le : s.output_.buffer_.length ≤
    base.buffer_.length + Buffer.kCheapPrepend + limit + 65536
  bufferSize_eq : ∃ k ≤ 6, s.bufferSize_ = 1024 * 2 ^ k

section Calls

variable {z} {bound : ℕ → ℕ} {inflate : Bytes → Option Bytes} {base : Buffer} {limit fuel : ℕ}
  {s : ZlibOutputStream σ} {inp out : Bytes}

lemma bufferSize_le (h : Appended base limit s out) :
    1024 ≤ s.bufferSize_ ∧ s.bufferSize_ ≤ 65536 := by
  obtain ⟨k, hk, hsize⟩ := h.bufferSize_eq
  rw [hsize]
  interval_cases k <;> decide

/-- The size that is asked for is doubled at most six times. -/
lemma bufferSize_double (h : Appended base limit s out) (p : Prop) [Decidable p] :
    ∃ k ≤ 6, (if p ∧ s.bufferSize_ < 65536 then s.bufferSize_ * 2 else s.bufferSize_) =
      1024 * 2 ^ k := by
  obtain ⟨k, hk, hsize⟩ := h.bufferSize_eq
  split
  case isTrue hlt =>
    have hk6 : k ≠ 6 := by
      rintro rfl
      omega
    exact ⟨k + 1, by omega, by rw [hsize]; ring⟩
  case isFalse => exact ⟨k, hk, hsize⟩

lemma offered_drop (s : ZlibOutputStream σ) (consumed : ℕ) :
    ((s.next_in.map fun data => data.drop consumed).getD []).take (s.avail_in - consumed) =
      s.offered.drop consumed := by
  cases hnext : s.next_in with
  | none => simp [offered, hnext]
  | some data => simp [offered, hnext, List.drop_take]

/-- The stream behind a call of `deflate`. -/
structure Called (z : Zlib σ) (s : ZlibOutputStream σ) (flush : Flush) (avail_out : ℕ)
    (s' : ZlibOutputStream σ) : Prop where
  state_eq : s'.state = (z.deflate s.state s.offered avail_out flush).state
  next_in_eq : s'.next_in = s.next_in.map fun data =>
    data.drop (z.deflate s.state s.offered avail_out flush).consumed
  avail_in_eq : s'.avail_in = s.avail_in - (z.deflate s.state s.offered avail_out flush).consumed

lemma Called.offered_eq {s' : ZlibOutputStream σ} {flush : Flush} {avail_out : ℕ}
    (h : Called z s flush avail_out s') :
    s'.offered = s.offered.drop (z.deflate s.state s.offered avail_out flush).consumed := by
  rw [← offered_drop, offered, h.next_in_eq, h.avail_in_eq]

/-- A write to the free bytes does not change how many there are. -/
lemma writeTo_frame {b b' : Buffer} {data : Bytes} (h : b.writeTo data = .ok b') :
    b'.writableBytes = b.writableBytes ∧ b'.readerIndex_ = b.readerIndex_ := by
  rw [Buffer.writeTo, except_bind_eq_ok] at h
  obtain ⟨v, hv, hok⟩ := h
  obtain rfl := Except.ok.inj hok
  have hlen : v.length = b.buffer_.length := by
    rw [copyTo] at hv
    split at hv
    case h_1 v' hwrite =>
      obtain rfl := Except.ok.inj hv
      exact length_writeAt hwrite
    case h_2 => exact absurd hv (by simp)
  exact ⟨by simp only [Buffer.writableBytes, hlen], rfl⟩

lemma readerIndex_hasWritten {b b' : Buffer} {len : ℕ} (h : b.hasWritten len = .ok b') :
    b'.readerIndex_ = b.readerIndex_ := by
  rw [Buffer.hasWritten, asserts_bind_eq_ok] at h
  obtain rfl := Except.ok.inj h.2
  rfl

/-- `deflate` gets room, and what it puts there is appended. -/
lemma compress_ok (hz : z.Documented bound inflate) (h : Appended base limit s out)
    (hout : out.length ≤ limit)
    (hmax : base.buffer_.length + Buffer.kCheapPrepend + limit + 65536 < 2 ^ 32) (flush : Flush) :
    ∃ avail_out s', 0 < avail_out ∧
      s.compress z flush = .ok (s', (z.deflate s.state s.offered avail_out flush).error) ∧
      Called z s flush avail_out s' ∧
      Appended base limit s'
        (out ++ (z.deflate s.state s.offered avail_out flush).produced) := by
  obtain ⟨hlow, hhigh⟩ := bufferSize_le h
  have hcount := Buffer.reader_add_length h.valid
  have hreader := h.reader_le
  have hlen : s.output_.contents.length = base.contents.length + out.length := by
    rw [h.contents_eq, List.length_append]
  have hmaxSize : maxSize = 2 ^ 63 - 1 := rfl
  have hroom : s.output_.Room s.bufferSize_ := .inl (by omega)
  obtain ⟨b, hb, hp⟩ := Buffer.ensureWritableBytes_ok h.valid (by omega) hroom
  have hbsize : b.buffer_.length ≤ base.buffer_.length + Buffer.kCheapPrepend + limit + 65536 := by
    have hle := hp.size_le
    have hsize := h.size_le
    omega
  have hfree := hp.room
  have hwritable := Buffer.writableBytes_eq hp.valid
  have havail : uInt (cint b.writableBytes) = b.writableBytes := uInt_cint (by omega)
  have hproduced := hz.produced_le s.state s.offered b.writableBytes flush
  have hfits : b.writerIndex_ +
      (z.deflate s.state s.offered b.writableBytes flush).produced.length ≤ b.buffer_.length := by
    have hle := hp.valid.writer_le
    omega
  obtain ⟨b', hb', hres, -⟩ := Buffer.writeTo_hasWritten hp.valid hfits
  obtain ⟨b₁, hwrite, hwritten⟩ := except_bind_eq_ok.mp hb'
  have hsub : sizeSub b₁.writableBytes (b.writableBytes -
      (z.deflate s.state s.offered b.writableBytes flush).produced.length) =
        (z.deflate s.state s.offered b.writableBytes flush).produced.length := by
    rw [(writeTo_frame hwrite).1, sizeSub_of_le (by omega) (by omega)]
    omega
  refine ⟨b.writableBytes, { s with
    output_ := b'
    next_in := s.next_in.map fun data =>
      data.drop (z.deflate s.state s.offered b.writableBytes flush).consumed
    avail_in := s.avail_in - (z.deflate s.state s.offered b.writableBytes flush).consumed
    state := (z.deflate s.state s.offered b.writableBytes flush).state
    bufferSize_ :=
      if b'.writableBytes = 0 ∧ s.bufferSize_ < 65536 then s.bufferSize_ * 2 else s.bufferSize_ },
    by omega, ?_, ⟨rfl, rfl, rfl⟩, ?_⟩
  · rw [compress, hb, ok_bind, havail]
    show b.writeTo (z.deflate s.state s.offered b.writableBytes flush).produced >>= _ = _
    rw [hwrite, ok_bind]
    show b₁.hasWritten (sizeSub b₁.writableBytes (b.writableBytes -
      (z.deflate s.state s.offered b.writableBytes flush).produced.length)) >>= _ = _
    rw [hsub, hwritten]
    rfl
  · refine ⟨hres.valid, h.base_le, ?_, ?_, Nat.le_trans hres.size_le hbsize,
      bufferSize_double h _⟩
    · rw [hres.contents_eq, hp.contents_eq, h.contents_eq, List.append_assoc]
    · rw [readerIndex_hasWritten hwritten, (writeTo_frame hwrite).2]
      rcases hp.reader_eq with heq | ⟨heq, -⟩
      · rw [heq]
        exact hreader
      · have hle := h.base_le
        rw [heq]
        omega

lemma Appended.with_zerror (h : Appended base limit s out) (error : ZError) :
    Appended base limit { s with zerror_ := error } out :=
  ⟨h.valid, h.base_le, h.contents_eq, h.reader_le, h.size_le, h.bufferSize_eq⟩

/-- What was put for some input is within the bound for more input. -/
lemma length_out_le {n : ℕ} (hz : z.Documented bound inflate) {st : σ} (h : z.Fed inp out st)
    (hle : inp.length ≤ n) : out.length ≤ bound n := by
  have hout := hz.length_le (.start h [])
  rw [List.append_nil] at hout
  exact Nat.le_trans hout (hz.bound_mono hle)

/-- The stream with `pending` at `next_in`. -/
structure Pending (s : ZlibOutputStream σ) (pending : Bytes) : Prop where
  next_in_eq : s.next_in = some pending
  avail_in_eq : s.avail_in = pending.length
  zerror_eq : s.zerror_ = .ok

lemma Pending.offered_eq {pending : Bytes} (h : Pending s pending) : s.offered = pending := by
  rw [offered, h.next_in_eq, h.avail_in_eq, Option.getD_some, List.take_length]

/-- One turn of a loop with `Z_NO_FLUSH`: input is taken, all of it or for output. -/
lemma compress_pending {n : ℕ} {pending : Bytes} (hz : z.Documented bound inflate)
    (hmax : base.buffer_.length + Buffer.kCheapPrepend + bound n + 65536 < 2 ^ 32)
    (hfed : z.Fed inp out s.state) (happ : Appended base (bound n) s out)
    (hpend : Pending s pending) (hn : (inp ++ pending).length ≤ n) (hne : pending ≠ []) :
    ∃ s' inp' out' pending', s.compress z .noFlush = .ok (s', .ok) ∧
      z.Fed inp' out' s'.state ∧ Appended base (bound n) s' out' ∧
      Pending { s' with zerror_ := .ok } pending' ∧ inp' ++ pending' = inp ++ pending ∧
      pending.drop (pending.length - pending'.length) = pending' ∧
      (pending' = [] ∨ out.length < out'.length) := by
  rw [List.length_append] at hn
  have hout := length_out_le hz hfed (by omega : inp.length ≤ n)
  obtain ⟨avail_out, s', hpos, hcompress, hcalled, happ'⟩ := compress_ok hz happ hout hmax .noFlush
  rw [hpend.offered_eq] at hcompress happ'
  obtain ⟨herror, hstops⟩ := hz.noFlush_stops hfed hne hpos
  have hstate := hcalled.state_eq
  have hnext := hcalled.next_in_eq
  have havail := hcalled.avail_in_eq
  rw [hpend.offered_eq] at hstate hnext havail
  rw [hpend.next_in_eq] at hnext
  rw [hpend.avail_in_eq] at havail
  refine ⟨s', _, _, pending.drop (z.deflate s.state pending avail_out .noFlush).consumed,
    herror ▸ hcompress, hstate ▸ hfed.call pending avail_out, happ', ⟨hnext, ?_, rfl⟩, ?_, ?_, ?_⟩
  · rw [havail, List.length_drop]
  · rw [List.append_assoc, List.take_append_drop]
  · have hle := hz.consumed_le s.state pending avail_out .noFlush
    congr 1
    rw [List.length_drop]
    omega
  · rcases hstops with hall | hfull
    · exact .inl (by rw [hall, List.drop_length])
    · refine .inr ?_
      rw [List.length_append]
      omega

/-- The loop of `write(StringPiece)` takes all of the piece. -/
lemma compressWhile_write {n : ℕ} {pending : Bytes} (hz : z.Documented bound inflate)
    (hmax : base.buffer_.length + Buffer.kCheapPrepend + bound n + 65536 < 2 ^ 32)
    (hfed : z.Fed inp out s.state) (happ : Appended base (bound n) s out)
    (hpend : Pending s pending) (hn : (inp ++ pending).length ≤ n)
    (hfuel : pending = [] ∧ 1 ≤ fuel ∨ bound n + 2 ≤ fuel + out.length) :
    ∃ s' out', compressWhile z (fun s => 0 < s.avail_in ∧ s.zerror_ = .ok) .noFlush fuel s =
        some (.ok s') ∧
      z.Fed (inp ++ pending) out' s'.state ∧ Appended base (bound n) s' out' ∧ Pending s' [] := by
  induction fuel generalizing s inp out pending with
  | zero =>
    have hout := length_out_le hz hfed (Nat.le_trans (by simp) hn)
    omega
  | succ fuel ih =>
    have hout := length_out_le hz hfed (Nat.le_trans (by simp) hn)
    by_cases hne : pending = []
    · subst hne
      refine ⟨s, out, ?_, by rwa [List.append_nil], happ, hpend⟩
      simp [compressWhile, hpend.avail_in_eq]
    · obtain ⟨s', inp', out', pending', hcompress, hfed', happ', hpend', htotal, -, hstops⟩ :=
        compress_pending hz hmax hfed happ hpend hn hne
      have hmore : 0 < s.avail_in ∧ s.zerror_ = .ok := by
        refine ⟨?_, hpend.zerror_eq⟩
        rw [hpend.avail_in_eq]
        exact List.length_pos_iff.mpr hne
      have hfuel' : pending' = [] ∧ 1 ≤ fuel ∨ bound n + 2 ≤ fuel + out'.length := by
        have hleft := hfuel.resolve_left fun h => hne h.1
        rcases hstops with hnil | hlt
        · exact .inl ⟨hnil, by omega⟩
        · exact .inr (by omega)
      obtain ⟨s'', out'', hloop, hfed'', happ'', hpend''⟩ :=
        ih (s := { s' with zerror_ := .ok }) hfed' (happ'.with_zerror .ok) hpend' (htotal ▸ hn) hfuel'
      refine ⟨s'', out'', ?_, htotal ▸ hfed'', happ'', hpend''⟩
      rw [compressWhile, if_pos (by simpa using hmore), hcompress]
      exact hloop

/-- The loop of `finish` ends the stream. -/
lemma compressWhile_finish {total rest : Bytes} {n : ℕ} (hz : z.Documented bound inflate)
    (hmax : base.buffer_.length + Buffer.kCheapPrepend + bound n + 65536 < 2 ^ 32)
    (hfin : z.Finishing total rest out s.state) (happ : Appended base (bound n) s out)
    (hrest : s.offered = rest) (hn : total.length ≤ n) (herror : s.zerror_ = .ok)
    (hfuel : bound n + 2 ≤ fuel + out.length) :
    ∃ s' data, compressWhile z (fun s => s.zerror_ = .ok) .finish fuel s = some (.ok s') ∧
      s'.output_.contents = base.contents ++ data ∧ inflate data = some total ∧
      z.deflateEnd s'.state = .ok := by
  induction fuel generalizing s rest out with
  | zero =>
    have hout := Nat.le_trans (hz.length_le hfin) (hz.bound_mono hn)
    omega
  | succ fuel ih =>
    have hout := Nat.le_trans (hz.length_le hfin) (hz.bound_mono hn)
    obtain ⟨avail_out, s', hpos, hcompress, hcalled, happ'⟩ := compress_ok hz happ hout hmax .finish
    have hoffered := hcalled.offered_eq
    have hstate := hcalled.state_eq
    rw [hrest] at hcompress happ' hoffered hstate
    have hmore : decide (s.zerror_ = .ok) = true := decide_eq_true herror
    rcases hz.finish_stops hfin hpos with ⟨hok, hfull⟩ | hend
    · have hfin' := hfin.call avail_out hok
      rw [← hstate] at hfin'
      rw [hok] at hcompress
      have hlen : bound n + 2 ≤ fuel +
          (out ++ (z.deflate s.state rest avail_out .finish).produced).length := by
        rw [List.length_append]
        omega
      obtain ⟨s'', data, hloop, hdata⟩ := ih (s := { s' with zerror_ := .ok }) hfin'
        (happ'.with_zerror .ok) hoffered rfl hlen
      refine ⟨s'', data, ?_, hdata⟩
      rw [compressWhile, if_pos hmore, hcompress]
      exact hloop
    · obtain ⟨hinflate, hclosed⟩ := hz.inflates hfin hend
      rw [hend] at hcompress
      refine ⟨{ s' with zerror_ := .streamEnd }, _, ?_, happ'.contents_eq, hinflate, ?_⟩
      · -- the loop tests once more
        obtain ⟨left, rfl⟩ : ∃ left, fuel = left + 1 := Nat.exists_eq_succ_of_ne_zero (by omega)
        rw [compressWhile, if_pos hmore, hcompress]
        show compressWhile z _ _ (left + 1) _ = _
        rw [compressWhile, if_neg (by simp)]
      · show z.deflateEnd s'.state = .ok
        rw [hstate]
        exact hclosed

/-- A piece is taken whole. -/
lemma writePiece_ok {n : ℕ} {buf : Bytes} (hz : z.Documented bound inflate)
    (hmax : base.buffer_.length + Buffer.kCheapPrepend + bound n + 65536 < 2 ^ 32)
    (hfed : z.Fed inp out s.state) (happ : Appended base (bound n) s out) (herror : s.zerror_ = .ok)
    (hnull : s.next_in = none ∧ s.avail_in = 0) (hn : (inp ++ buf).length ≤ n) (hlen : n < 2 ^ 31)
    (hfuel : bound n + 2 ≤ fuel) :
    ∃ s' out', s.writePiece z fuel buf = some (.ok (true, s')) ∧ z.Fed (inp ++ buf) out' s'.state ∧
      Appended base (bound n) s' out' ∧ s'.zerror_ = .ok ∧ s'.next_in = none ∧ s'.avail_in = 0 := by
  have hbuf : buf.length ≤ n := by
    rw [List.length_append] at hn
    omega
  have henough : buf = [] ∧ 1 ≤ fuel ∨ bound n + 2 ≤ fuel + out.length := .inr (by omega)
  obtain ⟨s', out', hloop, hfed', happ', hpend'⟩ := compressWhile_write
    (s := { s with next_in := some buf, avail_in := uInt buf.length }) hz hmax hfed
    ⟨happ.valid, happ.base_le, happ.contents_eq, happ.reader_le, happ.size_le, happ.bufferSize_eq⟩
    ⟨rfl, uInt_natCast (by omega), herror⟩ hn henough
  have hdone : s'.avail_in = 0 := hpend'.avail_in_eq
  refine ⟨{ s' with next_in := none }, out', ?_, hfed',
    ⟨happ'.valid, happ'.base_le, happ'.contents_eq, happ'.reader_le, happ'.size_le,
      happ'.bufferSize_eq⟩, hpend'.zerror_eq, rfl, hdone⟩
  rw [writePiece, if_neg (not_not_intro herror), if_pos hnull, hloop]
  show (if s'.avail_in = 0 then _ else _) = _
  rw [if_pos hdone, if_pos hpend'.next_in_eq, decide_eq_true hpend'.zerror_eq]

/-- `deflate` is called at most once. -/
lemma compressSome_ok {n : ℕ} {pending : Bytes} (hz : z.Documented bound inflate)
    (hmax : base.buffer_.length + Buffer.kCheapPrepend + bound n + 65536 < 2 ^ 32)
    (hfed : z.Fed inp out s.state) (happ : Appended base (bound n) s out)
    (hpend : Pending s pending) (hn : (inp ++ pending).length ≤ n) :
    ∃ s' inp' out' pending', s.compressSome z = .ok s' ∧ z.Fed inp' out' s'.state ∧
      Appended base (bound n) s' out' ∧ Pending s' pending' ∧ inp' ++ pending' = inp ++ pending ∧
      pending.drop (pending.length - pending'.length) = pending' := by
  by_cases hne : pending = []
  · refine ⟨s, inp, out, pending, ?_, hfed, happ, hpend, rfl, by simp⟩
    rw [compressSome, if_neg]
    · rfl
    · simp [hpend.avail_in_eq, hne]
  · obtain ⟨s', inp', out', pending', hcompress, hfed', happ', hpend', htotal, hdrop, -⟩ :=
      compress_pending hz hmax hfed happ hpend hn hne
    have hmore : 0 < s.avail_in ∧ s.zerror_ = .ok := by
      refine ⟨?_, hpend.zerror_eq⟩
      rw [hpend.avail_in_eq]
      exact List.length_pos_iff.mpr hne
    refine ⟨{ s' with zerror_ := .ok }, inp', out', pending', ?_, hfed', happ'.with_zerror .ok,
      hpend', htotal, hdrop⟩
    rw [compressSome, if_pos hmore, hcompress]
    rfl

/-- What is taken of a buffer leaves it, and the rest stays at `next_in`. -/
lemma writeBuffer_ok {n : ℕ} {input : Buffer} (hz : z.Documented bound inflate)
    (hmax : base.buffer_.length + Buffer.kCheapPrepend + bound n + 65536 < 2 ^ 32)
    (hfed : z.Fed inp out s.state) (happ : Appended base (bound n) s out) (herror : s.zerror_ = .ok)
    (hinput : input.Valid) (hn : (inp ++ input.contents).length ≤ n) (hlen : n < 2 ^ 31) :
    ∃ s' inp' out' input', s.writeBuffer z input = .ok (true, s', input') ∧
      z.Fed inp' out' s'.state ∧ Appended base (bound n) s' out' ∧ Pending s' input'.contents ∧
      inp' ++ input'.contents = inp ++ input.contents ∧ input'.Valid ∧
      input'.buffer_.length ≤ input.buffer_.length := by
  have hcontents : input.contents.length ≤ n := by
    rw [List.length_append] at hn
    omega
  have hread := Buffer.readableBytes_eq hinput
  have hpeek : input.peek input.contents.length = .ok input.contents := by
    rw [Buffer.peek_ok hinput le_rfl, List.take_length]
  have hcast : uInt (cint input.contents.length) = input.contents.length := uInt_cint (by omega)
  obtain ⟨s', inp', out', pending', hsome, hfed', happ', hpend', htotal, hdrop⟩ := compressSome_ok
    (s := { s with next_in := some input.contents, avail_in := input.contents.length }) hz hmax hfed
    ⟨happ.valid, happ.base_le, happ.contents_eq, happ.reader_le, happ.size_le, happ.bufferSize_eq⟩
    ⟨rfl, rfl, herror⟩ hn
  have htaken : sizeSub input.contents.length s'.avail_in =
      input.contents.length - pending'.length := by
    have hle := congrArg List.length hdrop
    rw [List.length_drop] at hle
    rw [hpend'.avail_in_eq, sizeSub_of_le (by omega) (by omega)]
  obtain ⟨input', hretrieve, hres⟩ := Buffer.retrieve_ok hinput
    (Nat.sub_le input.contents.length pending'.length)
  have hrest : input'.contents = pending' := by
    rw [hres.contents_eq, hdrop]
  refine ⟨s', inp', out', input', ?_, hfed', happ', hrest ▸ hpend', hrest ▸ htotal, hres.valid,
    hres.size_le⟩
  rw [writeBuffer, if_neg (not_not_intro herror), hread, hpeek, ok_bind, hcast, hsome, ok_bind,
    htaken, hretrieve, ok_bind, decide_eq_true hpend'.zerror_eq]
  rfl

end Calls

/-! ## Runs -/

/-- A call of `write`: with a piece, or with a buffer to which the caller has appended `more`. -/
inductive Write where
  | piece (buf : Bytes)
  | buffer (more : Bytes)
deriving DecidableEq

/-- The bytes that the caller hands over. -/
def Write.data : Write → Bytes
  | .piece buf => buf
  | .buffer more => more

/-- The call is `write(Buffer*)`. -/
def Write.isBuffer : Write → Bool
  | .piece _ => false
  | .buffer _ => true

/-- The stream and the buffer of the caller. -/
structure Writer (σ : Type) where
  stream : ZlibOutputStream σ
  input : Buffer

/-- A call of `write` that returns `true`. -/
def step (fuel : ℕ) (w : Writer σ) : Write → Option (Writer σ)
  | .piece buf =>
    match w.stream.writePiece z fuel buf with
    | some (.ok (true, s)) => some ⟨s, w.input⟩
    | _ => none
  | .buffer more =>
    match w.input.append more >>= w.stream.writeBuffer z with
    | .ok (true, s, input) => some ⟨s, input⟩
    | _ => none

/-- No piece is written behind a buffer. -/
def PiecesFirst (writes : List Write) : Prop :=
  writes.Pairwise fun a b => a.isBuffer = true → b.isBuffer = true

instance (writes : List Write) : Decidable (PiecesFirst writes) :=
  inferInstanceAs (Decidable (writes.Pairwise _))

/-- All bytes of the writes. -/
def given (writes : List Write) : Bytes := writes.flatMap Write.data

/-- The state between the writes: what is left in the buffer of the caller is what `deflate` has
not taken, and `next_in` still points to it if a buffer was written. -/
structure Between (base : Buffer) (limit : ℕ) (w : Writer σ) (writes : List Write) : Prop where
  fed : ∃ inp out, z.Fed inp out w.stream.state ∧ Appended base limit w.stream out ∧
    inp ++ w.input.contents = given writes
  zerror_eq : w.stream.zerror_ = .ok
  next_in_eq : w.stream.next_in =
    if writes.any Write.isBuffer then some w.input.contents else none
  avail_in_eq : w.stream.avail_in = w.input.contents.length
  input_valid : w.input.Valid
  input_le : w.input.buffer_.length ≤
    Buffer.kCheapPrepend + Buffer.kInitialSize + (given writes).length
  input_empty : writes.any Write.isBuffer = false → w.input.contents = []

section Runs

variable {z} {bound : ℕ → ℕ} {inflate : Bytes → Option Bytes} {base : Buffer} {fuel n : ℕ}
  {w : Writer σ} {writes : List Write}

lemma given_snoc (writes : List Write) (op : Write) :
    given (writes ++ [op]) = given writes ++ op.data := by
  simp [given]

/-- A piece is written while no buffer was. -/
lemma step_piece (hz : z.Documented bound inflate)
    (hmax : base.buffer_.length + Buffer.kCheapPrepend + bound n + 65536 < 2 ^ 32)
    (h : Between z base (bound n) w writes) (hpieces : writes.any Write.isBuffer = false)
    {buf : Bytes} (hn : (given (writes ++ [.piece buf])).length ≤ n) (hlen : n < 2 ^ 31)
    (hfuel : bound n + 2 ≤ fuel) :
    ∃ w', step z fuel w (.piece buf) = some w' ∧
      Between z base (bound n) w' (writes ++ [.piece buf]) := by
  obtain ⟨inp, out, hfed, happ, hgiven⟩ := h.fed
  have hempty := h.input_empty hpieces
  rw [hempty, List.append_nil] at hgiven
  have hnull : w.stream.next_in = none ∧ w.stream.avail_in = 0 := by
    rw [h.next_in_eq, h.avail_in_eq, hpieces, hempty]
    exact ⟨rfl, rfl⟩
  have hany : (writes ++ [Write.piece buf]).any Write.isBuffer = false := by
    rw [List.any_append, hpieces]
    rfl
  have htotal : given (writes ++ [.piece buf]) = inp ++ buf := by
    rw [given_snoc, hgiven]
    rfl
  obtain ⟨s', out', hwrite, hfed', happ', herror', hnext', havail'⟩ := writePiece_ok hz hmax hfed
    happ h.zerror_eq hnull (htotal ▸ hn) hlen hfuel
  refine ⟨⟨s', w.input⟩, by rw [step, hwrite], ⟨⟨_, _, hfed', happ', ?_⟩, herror', ?_, ?_,
    h.input_valid, ?_, fun _ => hempty⟩⟩
  · rw [hempty, List.append_nil, htotal]
  · rw [hnext', hany]
    rfl
  · rw [havail', hempty]
    rfl
  · refine Nat.le_trans h.input_le ?_
    rw [given_snoc, List.length_append]
    omega

/-- A buffer is written. -/
lemma step_buffer (hz : z.Documented bound inflate)
    (hmax : base.buffer_.length + Buffer.kCheapPrepend + bound n + 65536 < 2 ^ 32)
    (h : Between z base (bound n) w writes) {more : Bytes}
    (hn : (given (writes ++ [.buffer more])).length ≤ n) (hlen : n < 2 ^ 31) :
    ∃ w', step z fuel w (.buffer more) = some w' ∧
      Between z base (bound n) w' (writes ++ [.buffer more]) := by
  obtain ⟨inp, out, hfed, happ, hgiven⟩ := h.fed
  have htotal : given (writes ++ [.buffer more]) = inp ++ (w.input.contents ++ more) := by
    rw [given_snoc, ← hgiven, List.append_assoc]
    rfl
  have hany : (writes ++ [Write.buffer more]).any Write.isBuffer = true := by
    rw [List.any_append, Bool.or_eq_true]
    exact .inr rfl
  have hsize := h.input_le
  have hwriter := h.input_valid.writer_le
  have hsum : (given writes).length + more.length ≤ n := by
    rwa [given_snoc, List.length_append] at hn
  have hmaxSize : maxSize = 2 ^ 63 - 1 := rfl
  have hcheap : Buffer.kCheapPrepend = 8 := rfl
  have hinit : Buffer.kInitialSize = 1024 := rfl
  have hroom : w.input.Room more.length := .inl (by omega)
  obtain ⟨input, happend, hres⟩ := Buffer.append_ok h.input_valid (by omega) hroom
  obtain ⟨s', inp', out', input', hwrite, hfed', happ', hpend', hrest, hvalid', hle'⟩ :=
    writeBuffer_ok hz hmax hfed happ h.zerror_eq hres.valid
      (by rwa [hres.contents_eq, ← htotal]) hlen
  refine ⟨⟨s', input'⟩, by rw [step, happend, ok_bind, hwrite], ⟨⟨_, _, hfed', happ', ?_⟩,
    hpend'.zerror_eq, ?_, hpend'.avail_in_eq, hvalid', ?_, fun hfalse => ?_⟩⟩
  · rw [hrest, hres.contents_eq, htotal]
  · rw [hpend'.next_in_eq, hany]
    rfl
  · have hres_le := hres.size_le
    refine Nat.le_trans hle' (Nat.le_trans hres_le ?_)
    have hgiven_len : (given (writes ++ [.buffer more])).length =
        (given writes).length + more.length := by
      rw [given_snoc, List.length_append]
      rfl
    omega
  · rw [hany] at hfalse
    exact absurd hfalse (by decide)

/-- The start of a stream. -/
def start (z : Zlib σ) (output : Buffer) : Writer σ := ⟨make z output, .fresh Buffer.kInitialSize⟩

lemma between_start (hz : z.Documented bound inflate) (hbase : base.Valid) (limit : ℕ) :
    Between z base limit (start z base) [] := by
  have hfresh : Buffer.Result (.fresh Buffer.kInitialSize) [] Buffer.kCheapPrepend
      (Buffer.kCheapPrepend + Buffer.kInitialSize) := Buffer.result_fresh (by decide)
  have hcount := Buffer.reader_add_length hbase
  have hw := hbase.writer_le
  refine ⟨⟨[], [], .start, ⟨hbase, by omega, by rw [List.append_nil]; rfl, ?_, ?_, 0, by decide, rfl⟩,
    ?_⟩, hz.init_ok, rfl, ?_, hfresh.valid, hfresh.size_le, fun _ => hfresh.contents_eq⟩
  · show base.readerIndex_ + _ ≤ _
    omega
  · show base.buffer_.length ≤ _
    omega
  · exact hfresh.contents_eq
  · show 0 = (Buffer.fresh Buffer.kInitialSize).contents.length
    rw [hfresh.contents_eq]
    rfl

/-- All writes return `true` as long as no piece is written behind a buffer. -/
lemma run_between (hz : z.Documented bound inflate) (hbase : base.Valid)
    (hmax : base.buffer_.length + Buffer.kCheapPrepend + bound n + 65536 < 2 ^ 32)
    (hlen : n < 2 ^ 31) (hfuel : bound n + 2 ≤ fuel) (hfirst : PiecesFirst writes)
    (hn : (given writes).length ≤ n) :
    ∃ w, run (step z fuel) (start z base) writes = some w ∧
      Between z base (bound n) w writes := by
  induction writes using List.reverseRecOn with
  | nil => exact ⟨_, rfl, between_start hz hbase _⟩
  | append_singleton writes op ih =>
    obtain ⟨hbefore, -, hlast⟩ := List.pairwise_append.mp hfirst
    have hle : (given writes).length ≤ n := by
      rw [given_snoc, List.length_append] at hn
      omega
    obtain ⟨w, hrun, hbetween⟩ := ih hbefore hle
    have hstep : ∃ w', step z fuel w op = some w' ∧
        Between z base (bound n) w' (writes ++ [op]) := by
      cases op with
      | piece buf =>
        have hpieces : writes.any Write.isBuffer = false := by
          rw [List.any_eq_false]
          intro a ha hbuffer
          exact absurd (hlast a ha (.piece buf) (by simp) hbuffer) Bool.false_ne_true
        exact step_piece hz hmax hbetween hpieces hn hlen hfuel
      | buffer more => exact step_buffer hz hmax hbetween hn hlen
    obtain ⟨w', hw', hbetween'⟩ := hstep
    exact ⟨w', run_snoc_eq_some.mpr ⟨w, hrun, hw'⟩, hbetween'⟩

/-- **What was written is what the output is inflated to.**  Pieces and then buffers are written,
in any number, fewer than `2 ^ 31` bytes in all, so that the lengths that pass through an `int` are
what they were, and the output with all that zlib may add to it is shorter than `2 ^ 32`, so that
`avail_out` is.  Then the stream is finished: every call returns `true`, the contents that the
buffer had are still in front, and what was appended to them is inflated to all bytes that were
written, also to those that the last `write(Buffer*)` left in the buffer of the caller. -/
theorem inflates_to_given (hz : z.Documented bound inflate) (hbase : base.Valid)
    (hfirst : PiecesFirst writes) (hlen : (given writes).length < 2 ^ 31)
    (hmax : base.buffer_.length + Buffer.kCheapPrepend + bound (given writes).length + 65536 < 2 ^ 32)
    (hfuel : bound (given writes).length + 2 ≤ fuel) :
    ∃ w s data, run (step z fuel) (start z base) writes = some w ∧
      w.stream.finish z fuel = some (.ok (true, s)) ∧
      s.output_.contents = base.contents ++ data ∧ inflate data = some (given writes) := by
  obtain ⟨w, hrun, hbetween⟩ := run_between hz hbase hmax hlen hfuel hfirst le_rfl
  obtain ⟨inp, out, hfed, happ, hgiven⟩ := hbetween.fed
  have hrest : w.stream.offered = w.input.contents := by
    rw [offered, hbetween.avail_in_eq, hbetween.next_in_eq]
    split
    case isTrue => rw [Option.getD_some, List.take_length]
    case isFalse hpieces =>
      rw [hbetween.input_empty (Bool.eq_false_of_not_eq_true hpieces)]
      rfl
  have hfin := Zlib.Finishing.start hfed w.input.contents
  rw [hgiven] at hfin
  have henough : bound (given writes).length + 2 ≤ fuel + out.length := by omega
  obtain ⟨s, data, hloop, hdata, hinflate, hclosed⟩ := compressWhile_finish hz hmax hfin happ hrest
    le_rfl hbetween.zerror_eq henough
  refine ⟨w, { s with zerror_ := .streamEnd }, data, hrun, ?_, hdata, hinflate⟩
  rw [finish, if_neg (not_not_intro hbetween.zerror_eq), hloop]
  show some (Except.ok (decide _, _)) = _
  rw [decide_eq_true hclosed]

end Runs

/-! ### A sample of zlib -/

/-- What the sample has taken, what it has still to put, and whether `Z_FINISH` was given. -/
structure SampleState where
  taken : Bytes
  pending : Bytes
  finishing : Bool

/-- What zlib puts for `abc` behind its header. -/
def abcBody : Bytes := [0x4b, 0x4c, 0x4a, 0x06, 0x00, 0x02, 0x4d, 0x01, 0x27]

/-- The bytes behind the header: those of zlib for `abc`, else the input behind a mark. -/
def sampleBody (total : Bytes) : Bytes := if total = [97, 98, 99] then abcBody else 1 :: total

/-- What inflates the header and such a body. -/
def sampleInflate : Bytes → Option Bytes
  | 0x78 :: 0x9c :: rest =>
    if rest = abcBody then some [97, 98, 99]
    else if rest.head? = some 1 then some rest.tail
    else none
  | _ => none

/-- What is put in a call with `Z_FINISH`, or kept for the next one. -/
def SampleState.ending (st : SampleState) (input : Bytes) : Bytes :=
  if st.finishing then st.pending else st.pending ++ sampleBody (st.taken ++ input)

/-- A zlib that keeps its input until `Z_FINISH` and its output until there is room. -/
def sampleZlib : Zlib SampleState where
  deflateInit := (⟨[], [0x78, 0x9c], false⟩, .ok)
  deflate st input avail_out flush :=
    match flush with
    | .noFlush =>
      ⟨⟨st.taken ++ input, st.pending.drop avail_out, st.finishing⟩, input.length,
        st.pending.take avail_out, .ok⟩
    | .finish =>
      ⟨⟨st.taken ++ input, (st.ending input).drop avail_out, true⟩, input.length,
        (st.ending input).take avail_out,
        if (st.ending input).length ≤ avail_out then .streamEnd else .ok⟩
  deflateEnd _ := .ok

lemma sampleInflate_body (total : Bytes) :
    sampleInflate (0x78 :: 0x9c :: sampleBody total) = some total := by
  unfold sampleBody
  split
  case isTrue h =>
    rw [h]
    decide
  case isFalse h =>
    have hne : ¬ (1 :: total = abcBody) := by
      simp [abcBody]
    simp [sampleInflate, hne]

lemma length_sampleBody_le (total : Bytes) : (sampleBody total).length ≤ total.length + 9 := by
  unfold sampleBody
  split
  · rw [abcBody]
    simp
  · simp

lemma sample_fed {inp out : Bytes} {st : SampleState} (h : sampleZlib.Fed inp out st) :
    st.finishing = false ∧ st.taken = inp ∧ out ++ st.pending = [0x78, 0x9c] := by
  induction h with
  | start => exact ⟨rfl, rfl, rfl⟩
  | call h input avail_out ih =>
    obtain ⟨hfin, htaken, hpending⟩ := ih
    refine ⟨hfin, ?_, ?_⟩
    · simp [sampleZlib, htaken]
    · simp [sampleZlib, hpending]

/-- Before `Z_FINISH` the header is put, and behind it the body for all input. -/
def SampleState.Puts (st : SampleState) (total rest out : Bytes) : Prop :=
  st.finishing = false ∧ st.taken ++ rest = total ∧ out ++ st.pending = [0x78, 0x9c] ∨
    st.finishing = true ∧ out ++ st.pending = 0x78 :: 0x9c :: sampleBody total

lemma SampleState.Puts.ending_eq {total rest out : Bytes} {st : SampleState}
    (h : st.Puts total rest out) : out ++ st.ending rest = 0x78 :: 0x9c :: sampleBody total := by
  rcases h with ⟨hfin, htotal, hpending⟩ | ⟨hfin, hpending⟩
  · simp [ending, hfin, htotal, ← List.append_assoc, hpending]
  · simp [ending, hfin, hpending]

lemma sample_puts {total rest out : Bytes} {st : SampleState}
    (h : sampleZlib.Finishing total rest out st) : st.Puts total rest out := by
  induction h with
  | start h rest =>
    obtain ⟨hfin, htaken, hpending⟩ := sample_fed h
    exact .inl ⟨hfin, by rw [htaken], hpending⟩
  | call h avail_out hok ih =>
    refine .inr ⟨rfl, ?_⟩
    rw [← ih.ending_eq]
    simp [sampleZlib]

lemma sampleZlib_documented : sampleZlib.Documented (fun n => n + 11) sampleInflate where
  init_ok := rfl
  consumed_le st input avail_out flush := by
    cases flush <;> exact le_rfl
  produced_le st input avail_out flush := by
    cases flush <;> exact List.length_take_le _ _
  noFlush_stops _ _ _ := ⟨rfl, .inl rfl⟩
  finish_stops {total rest out st avail_out} h hpos := by
    by_cases hle : (st.ending rest).length ≤ avail_out
    · exact .inr (if_pos hle)
    · refine .inl ⟨if_neg hle, ?_⟩
      show ((st.ending rest).take avail_out).length = avail_out
      rw [List.length_take]
      omega
  bound_mono h := Nat.add_le_add_right h 11
  length_le {total rest out st} h := by
    have hlen := congrArg List.length (sample_puts h).ending_eq
    have hbody := length_sampleBody_le total
    rw [List.length_append, List.length_cons, List.length_cons] at hlen
    omega
  inflates {total rest out st avail_out} h hend := by
    have hle : (st.ending rest).length ≤ avail_out := by
      by_contra hlt
      exact absurd ((if_neg hlt).symm.trans hend) (by decide)
    refine ⟨?_, rfl⟩
    show sampleInflate (out ++ (st.ending rest).take avail_out) = some total
    rw [List.take_of_length_le hle, (sample_puts h).ending_eq, sampleInflate_body]

/-- The bounds of a run of the sample. -/
lemma sample_bounds : (Buffer.fresh Buffer.kInitialSize).Valid ∧
    (Buffer.fresh Buffer.kInitialSize).contents = [] ∧
    (Buffer.fresh Buffer.kInitialSize).buffer_.length + Buffer.kCheapPrepend +
      ((given [.piece [97, 98], .buffer [99]]).length + 11) + 65536 < 2 ^ 32 := by
  have hbase : Buffer.Result (.fresh Buffer.kInitialSize) [] Buffer.kCheapPrepend
      (Buffer.kCheapPrepend + Buffer.kInitialSize) := Buffer.result_fresh (by decide)
  have hgiven : (given [.piece [97, 98], .buffer [99]]).length = 3 := rfl
  have hsize := hbase.size_le
  have hcheap : Buffer.kCheapPrepend = 8 := rfl
  have hinit : Buffer.kInitialSize = 1024 := rfl
  exact ⟨hbase.valid, hbase.contents_eq, by omega⟩

/-- `ab` is written as a piece and `c` from a buffer. -/
theorem inflates_to_abc : ∃ w s data,
    run (step sampleZlib 16) (start sampleZlib (.fresh Buffer.kInitialSize))
        [.piece [97, 98], .buffer [99]] = some w ∧
      w.stream.finish sampleZlib 16 = some (.ok (true, s)) ∧
      s.output_.contents = data ∧ sampleInflate data = some [97, 98, 99] := by
  obtain ⟨hvalid, hempty, hmax⟩ := sample_bounds
  have hfirst : PiecesFirst [.piece [97, 98], .buffer [99]] := by decide
  obtain ⟨w, s, data, hrun, hfinish, hdata, hinflate⟩ :=
    inflates_to_given sampleZlib_documented hvalid hfirst (by decide) hmax (by decide : _ ≤ 16)
  rw [hempty, List.nil_append] at hdata
  exact ⟨w, s, data, hrun, hfinish, hdata, hinflate⟩

section Order

variable {z} {fuel : ℕ} {w : Writer σ} {writes : List Write}

/-- The stream behind a call of `deflate` still has a null `next_in` only if it had one. -/
lemma isSome_next_in_compress {s s' : ZlibOutputStream σ} {flush : Flush} {error : ZError}
    (h : s.compress z flush = .ok (s', error)) (hnext : s.next_in.isSome = true) :
    s'.next_in.isSome = true := by
  simp only [compress, except_bind_eq_ok] at h
  obtain ⟨b, -, b₁, -, b₂, -, hok⟩ := h
  obtain ⟨rfl, -⟩ := Prod.mk.inj (Except.ok.inj hok)
  simpa using hnext

lemma isSome_next_in_compressSome {s s' : ZlibOutputStream σ} (h : s.compressSome z = .ok s')
    (hnext : s.next_in.isSome = true) : s'.next_in.isSome = true := by
  rw [compressSome] at h
  split at h
  case isTrue =>
    obtain ⟨⟨s₁, error⟩, hcompress, hok⟩ := except_bind_eq_ok.mp h
    obtain rfl := Except.ok.inj hok
    have hnext' := isSome_next_in_compress hcompress hnext
    exact hnext'
  case isFalse =>
    obtain rfl := Except.ok.inj h
    exact hnext

/-- A buffer that was written is left at `next_in`. -/
lemma next_in_of_writeBuffer {s s' : ZlibOutputStream σ} {input input' : Buffer}
    (h : s.writeBuffer z input = .ok (true, s', input')) :
    s'.zerror_ = .ok ∧ s'.next_in.isSome = true := by
  rw [writeBuffer] at h
  split at h
  case isTrue => exact absurd (Prod.mk.inj (Except.ok.inj h)).1 (by decide)
  case isFalse =>
    simp only [except_bind_eq_ok] at h
    obtain ⟨data, -, s₁, hsome, input₁, -, hok⟩ := h
    obtain ⟨htrue, hrest⟩ := Prod.mk.inj (Except.ok.inj hok)
    obtain ⟨rfl, rfl⟩ := Prod.mk.inj hrest
    exact ⟨of_decide_eq_true htrue, isSome_next_in_compressSome hsome rfl⟩

/-- A piece is written only to a stream whose `next_in` is null. -/
lemma next_in_of_writePiece {s s' : ZlibOutputStream σ} {buf : Bytes}
    (h : s.writePiece z fuel buf = some (.ok (true, s'))) :
    s.next_in = none ∧ s'.zerror_ = .ok := by
  rw [writePiece] at h
  split_ifs at h with herror hnull
  · simp at h
  · refine ⟨hnull.1, ?_⟩
    split at h
    · simp at h
    · simp at h
    · split_ifs at h
      · simp only [Option.some.injEq, Except.ok.injEq, Prod.mk.injEq, decide_eq_true_eq] at h
        obtain ⟨hok, rfl⟩ := h
        exact hok
      · simp at h
      · simp only [Option.some.injEq, Except.ok.injEq, Prod.mk.injEq, decide_eq_true_eq] at h
        obtain ⟨hok, rfl⟩ := h
        exact hok
  · simp at h

/-- **A piece behind a buffer always stops at the assertion**, whatever zlib does: in every run
of writes that return `true`, of which one was of a buffer, the next piece fails, since
`write(Buffer*)` does not set `next_in` back even if `deflate` has taken all. -/
theorem piece_after_buffer_fails (z : Zlib σ) (output input : Buffer)
    (hrun : run (step z fuel) ⟨make z output, input⟩ writes = some w)
    (hbuffer : writes.any Write.isBuffer = true) (more : ℕ) (buf : Bytes) :
    w.stream.writePiece z more buf = some (.error .assertion) := by
  have hleft : writes.any Write.isBuffer = true →
      w.stream.zerror_ = .ok ∧ w.stream.next_in.isSome = true := by
    refine run_history (P := fun writes w => writes.any Write.isBuffer = true →
      w.stream.zerror_ = .ok ∧ w.stream.next_in.isSome = true) (by simp) ?_ hrun
    intro writes w₁ op w₂ _ ih hstep hany
    cases op with
    | piece buf =>
      -- the buffer was written before, so that the piece could not be
      have hbefore : writes.any Write.isBuffer = true := by
        rw [List.any_append, Bool.or_eq_true] at hany
        exact hany.resolve_right Bool.false_ne_true
      have hsome := (ih hbefore).2
      rw [step] at hstep
      split at hstep
      case h_1 s hwrite =>
        rw [(next_in_of_writePiece hwrite).1] at hsome
        exact absurd hsome (by decide)
      case h_2 => exact absurd hstep (by simp)
    | buffer data =>
      rw [step] at hstep
      split at hstep
      case h_1 s input' hwrite =>
        obtain ⟨input₁, -, hwrite⟩ := except_bind_eq_ok.mp hwrite
        obtain rfl := Option.some.inj hstep
        exact next_in_of_writeBuffer hwrite
      case h_2 => exact absurd hstep (by simp)
  obtain ⟨herror, hsome⟩ := hleft hbuffer
  have hnext : ¬ (w.stream.next_in = none ∧ w.stream.avail_in = 0) := by
    rintro ⟨hnone, -⟩
    rw [hnone] at hsome
    exact absurd hsome (by decide)
  rw [writePiece, if_neg (not_not_intro herror), if_neg hnext]

/-- A piece behind the buffer of the run above. -/
theorem piece_after_buffer_fails_sample : ∃ w,
    run (step sampleZlib 16) (start sampleZlib (.fresh Buffer.kInitialSize))
        [.piece [97, 98], .buffer [99]] = some w ∧
      w.stream.writePiece sampleZlib 16 [100] = some (.error .assertion) := by
  obtain ⟨hvalid, -, hmax⟩ := sample_bounds
  have hfirst : PiecesFirst [.piece [97, 98], .buffer [99]] := by decide
  obtain ⟨w, hrun, -⟩ := run_between sampleZlib_documented hvalid hmax (by decide)
    (by decide : _ ≤ 16) hfirst le_rfl
  exact ⟨w, hrun, piece_after_buffer_fails sampleZlib _ _ hrun rfl 16 [100]⟩

end Order

end ZlibOutputStream

end CppServer.Net
