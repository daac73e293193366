/-
# Messages with a length in front

`LengthHeaderCodec` of `muduo-vip/examples/asio/chat/codec.h` sends a message as its length in
network order followed by its bytes, and takes the messages out of the buffer of a connection
again, each time bytes have arrived.  A length above 65536 or below zero shuts the connection
down; the bytes stay in the buffer, and no message behind them is ever delivered.

What the codec takes out of the buffer is the decoding of the stream of bytes, however the stream
was cut into pieces on its way.
-/
import CppServer.Lib.Framing
import CppServer.Net.BufferInts

namespace CppServer.Net.LengthHeaderCodec

open Buffer

/-- `sizeof(int32_t)`. -/
def kHeaderLen : ℕ := 4

/-- The length that stands in network order in front. -/
def headerOf (data : Bytes) : ℤ := (byteSwap (ofObjBytes kHeaderLen data)).toInt

/-- What one round of the loop of `onMessage` does. -/
inductive Round where
  /-- The loop ends without a message. -/
  | leave
  /-- The connection is shut down, and the loop ends. -/
  | shutdown
  /-- The message is passed to the callback. -/
  | message (message : Bytes) (buf : Buffer)

/-- One round of the loop of `onMessage`, with its condition. -/
def round (buf : Buffer) : Except Stop Round := do
  if kHeaderLen ≤ buf.readableBytes then
    let data ← buf.peek kHeaderLen
    let len := headerOf data
    if 65536 < len ∨ len < 0 then
      return .shutdown
    else if sizeAdd len.toNat kHeaderLen ≤ buf.readableBytes then
      let buf₁ ← buf.retrieve kHeaderLen
      let message ← buf₁.peek len.toNat
      let buf₂ ← buf₁.retrieve len.toNat
      return .message message buf₂
    else
      return .leave
  else
    return .leave

/-- The messages that were passed to the callback, whether the connection was shut down, and the
buffer. -/
structure Delivery where
  messages : List Bytes
  down : Bool
  buf : Buffer

/-- The loop of `onMessage` for at most `fuel` rounds. -/
def loop : ℕ → Buffer → Except Stop (Option Delivery)
  | 0, _ => return none
  | fuel + 1, buf => do
    match ← round buf with
    | .leave => return some ⟨[], false, buf⟩
    | .shutdown => return some ⟨[], true, buf⟩
    | .message message buf' =>
      return (← loop fuel buf').map fun d => { d with messages := message :: d.messages }

/-- `onMessage`.  Each message takes at least the header out of the buffer. -/
def onMessage (buf : Buffer) : Except Stop (Option Delivery) := loop (buf.readableBytes + 1) buf

/-- `send`: the bytes that are given to the connection. -/
def send (message : Bytes) : Except Stop Bytes := do
  let buf ← init kInitialSize
  let buf ← buf.append message
  let len : BitVec (8 * kHeaderLen) := BitVec.ofNat (8 * kHeaderLen) message.length
  let buf ← buf.prependObject (byteSwap len)
  return buf.contents

/-! ## The decoding of a stream -/

/-- What stands at the front of a stream. -/
def next (q : Bytes) : Turn UInt8 Bytes :=
  if q.length < kHeaderLen then .more
  else if 65536 < headerOf (q.take kHeaderLen) ∨ headerOf (q.take kHeaderLen) < 0 then .bad
  else if q.length < kHeaderLen + (headerOf (q.take kHeaderLen)).toNat then .more
  else .item ((q.drop kHeaderLen).take (headerOf (q.take kHeaderLen)).toNat)
    (q.drop (kHeaderLen + (headerOf (q.take kHeaderLen)).toNat))

section Next

variable {q d a rest : Bytes}

lemma next_item (h : next q = .item a rest) :
    ∃ len : ℕ, kHeaderLen + len ≤ q.length ∧ len ≤ 65536 ∧ headerOf (q.take kHeaderLen) = len ∧
      a = (q.drop kHeaderLen).take len ∧ rest = q.drop (kHeaderLen + len) := by
  rw [next] at h
  split at h
  · exact absurd h (by simp)
  · split at h
    · exact absurd h (by simp)
    · rename_i hlen
      split at h
      · exact absurd h (by simp)
      · obtain ⟨rfl, rfl⟩ := Turn.item.inj h
        exact ⟨(headerOf (q.take kHeaderLen)).toNat, by omega, by omega, by omega, rfl, rfl⟩

/-- Where the header and the message are there, the message is found. -/
lemma next_of_header {len : ℕ} (hlen : kHeaderLen + len ≤ q.length) (hmax : len ≤ 65536)
    (hheader : headerOf (q.take kHeaderLen) = len) :
    next q = .item ((q.drop kHeaderLen).take len) (q.drop (kHeaderLen + len)) := by
  rw [next, if_neg (by omega), hheader, if_neg (by omega), Int.toNat_natCast, if_neg (by omega)]

lemma next_bad (h : next q = .bad) : kHeaderLen ≤ q.length ∧
    (65536 < headerOf (q.take kHeaderLen) ∨ headerOf (q.take kHeaderLen) < 0) := by
  rw [next] at h
  split at h
  · exact absurd h (by simp)
  · split at h
    · rename_i hlen hbad
      exact ⟨Nat.le_of_not_lt hlen, hbad⟩
    · split at h <;> exact absurd h (by simp)

lemma next_of_bad (hlen : kHeaderLen ≤ q.length)
    (hbad : 65536 < headerOf (q.take kHeaderLen) ∨ headerOf (q.take kHeaderLen) < 0) :
    next q = .bad := by
  rw [next, if_neg (by omega), if_pos hbad]

/-- More bytes are needed for a header, or for the message behind a valid one. -/
lemma next_more (h : next q = .more) (hlen : kHeaderLen ≤ q.length) :
    ∃ len : ℕ, len ≤ 65536 ∧ headerOf (q.take kHeaderLen) = len ∧ q.length < kHeaderLen + len := by
  rw [next, if_neg (by omega)] at h
  split at h
  · exact absurd h (by simp)
  · split at h
    · exact ⟨(headerOf (q.take kHeaderLen)).toNat, by omega, by omega, by omega⟩
    · exact absurd h (by simp)

end Next

/-- The stream of messages with a length in front. -/
def framing : Framing UInt8 Bytes where
  next := next
  shrinks {q a rest} h := by
    obtain ⟨len, hlen, -, -, -, rfl⟩ := next_item h
    have hpos : 0 < kHeaderLen := by decide
    rw [List.length_drop]
    omega
  item_append {q a rest} d h := by
    obtain ⟨len, hlen, hmax, hheader, rfl, rfl⟩ := next_item h
    have hfront : (q ++ d).take kHeaderLen = q.take kHeaderLen :=
      List.take_append_of_le_length (by omega)
    have hlong : kHeaderLen + len ≤ (q ++ d).length := by
      rw [List.length_append]
      omega
    rw [next_of_header hlong hmax (by rw [hfront, hheader]),
      List.drop_append_of_le_length (by omega), List.drop_append_of_le_length (by omega),
      List.take_append_of_le_length (by rw [List.length_drop]; omega)]
  bad_append {q} d h := by
    obtain ⟨hlen, hbad⟩ := next_bad h
    have hfront : (q ++ d).take kHeaderLen = q.take kHeaderLen :=
      List.take_append_of_le_length hlen
    exact next_of_bad (by rw [List.length_append]; omega) (by rwa [hfront])

lemma framing_next : framing.next = next := rfl

/-! ## The loop decodes the contents of the buffer -/

section Loop

variable {buf : Buffer}

/-- One round finds what stands at the front of the contents. -/
lemma round_of_next (h : Valid buf) :
    (next buf.contents = .more → round buf = .ok .leave) ∧
    (next buf.contents = .bad → round buf = .ok .shutdown) ∧
    ∀ a rest, next buf.contents = .item a rest → ∃ buf', round buf = .ok (.message a buf') ∧
      Valid buf' ∧ buf'.contents = rest ∧ buf'.buffer_.length ≤ buf.buffer_.length := by
  have hread := readableBytes_eq h
  have hpeek : kHeaderLen ≤ buf.contents.length →
      buf.peek kHeaderLen = .ok (buf.contents.take kHeaderLen) := fun hle => peek_ok h hle
  refine ⟨fun hmore => ?_, fun hbad => ?_, fun a rest hitem => ?_⟩
  · by_cases hlen : kHeaderLen ≤ buf.contents.length
    · obtain ⟨len, hmax, hheader, hshort⟩ := next_more hmore hlen
      have hcheap : kHeaderLen = 4 := rfl
      have hadd : sizeAdd len kHeaderLen = len + kHeaderLen := sizeAdd_of_lt (by omega)
      rw [round, hread, if_pos hlen, hpeek hlen]
      show (if _ then _ else _) = _
      rw [hheader, if_neg (by omega), Int.toNat_natCast, hadd, if_neg (by omega)]
      rfl
    · rw [round, hread, if_neg hlen]
      rfl
  · obtain ⟨hlen, hbad⟩ := next_bad hbad
    rw [round, hread, if_pos hlen, hpeek hlen]
    show (if _ then _ else _) = _
    rw [if_pos hbad]
    rfl
  · obtain ⟨len, hlen, hmax, hheader, rfl, rfl⟩ := next_item hitem
    have hcount := reader_add_length h
    have hw := h.writer_le
    have hs := Nat.lt_of_le_of_lt h.size_le maxSize_lt
    have hhead : kHeaderLen ≤ buf.contents.length := by omega
    obtain ⟨buf₁, hbuf₁, hres₁⟩ := retrieve_ok h hhead
    have hlen₁ : len ≤ buf₁.contents.length := by
      rw [hres₁.contents_eq, List.length_drop]
      omega
    obtain ⟨buf₂, hbuf₂, hres₂⟩ := retrieve_ok hres₁.valid hlen₁
    have hmsg := peek_ok hres₁.valid hlen₁
    have hadd : sizeAdd len kHeaderLen = len + kHeaderLen := sizeAdd_of_lt (by omega)
    refine ⟨buf₂, ?_, hres₂.valid, ?_, Nat.le_trans hres₂.size_le hres₁.size_le⟩
    · rw [round, hread, if_pos hhead, hpeek hhead]
      show (if _ then _ else _) = _
      rw [hheader, if_neg (by omega), Int.toNat_natCast, hadd, if_pos (by omega), hbuf₁, ok_bind,
        hmsg, ok_bind, hbuf₂, hres₁.contents_eq]
      rfl
    · rw [hres₂.contents_eq, hres₁.contents_eq, List.drop_drop]

/-- The loop decodes the contents, with a round for each message and one more. -/
lemma loop_eq {fuel : ℕ} (h : Valid buf) (hfuel : buf.contents.length < fuel) :
    ∃ buf', loop fuel buf = .ok (some ⟨(framing.decode buf.contents).items,
        (framing.decode buf.contents).bad, buf'⟩) ∧
      Valid buf' ∧ buf'.contents = (framing.decode buf.contents).rest ∧
      buf'.buffer_.length ≤ buf.buffer_.length := by
  induction fuel generalizing buf with
  | zero => exact absurd hfuel (Nat.not_lt_zero _)
  | succ fuel ih =>
    obtain ⟨hmore, hbad, hitem⟩ := round_of_next h
    cases hnext : next buf.contents with
    | more =>
      rw [Framing.decode_more (F := framing) hnext]
      refine ⟨buf, ?_, h, rfl, Nat.le_refl _⟩
      rw [loop, hmore hnext]
      rfl
    | bad =>
      rw [Framing.decode_bad (F := framing) hnext]
      refine ⟨buf, ?_, h, rfl, Nat.le_refl _⟩
      rw [loop, hbad hnext]
      rfl
    | item a rest =>
      obtain ⟨buf₁, hround, hvalid, hrest, hsize⟩ := hitem a rest hnext
      have hshrinks : rest.length < buf.contents.length := framing.shrinks hnext
      obtain ⟨buf₂, hloop, hvalid₂, hrest₂, hsize₂⟩ := ih hvalid (by rw [hrest]; omega)
      rw [hrest] at hloop hrest₂
      rw [Framing.decode_item (F := framing) hnext]
      refine ⟨buf₂, ?_, hvalid₂, hrest₂, Nat.le_trans hsize₂ hsize⟩
      rw [loop, hround]
      show (loop fuel buf₁ >>= _) = _
      rw [hloop]
      rfl

end Loop

/-! ## Pieces of a stream -/

/-- A piece arrives: it is appended to the buffer of the connection and `onMessage` is called. -/
def receive (s : Delivery) (piece : Bytes) : Option Delivery :=
  match s.buf.append piece with
  | .error _ => none
  | .ok buf =>
    match onMessage buf with
    | .ok (some d) => some ⟨s.messages ++ d.messages, s.down || d.down, d.buf⟩
    | .ok none => none
    | .error _ => none

section Receive

variable {pieces : List Bytes}

/-- What was delivered is the decoding of the stream so far. -/
structure Decodes (s : Delivery) (stream : Bytes) (m : ℕ) : Prop where
  valid : Valid s.buf
  messages_eq : s.messages = (framing.decode stream).items
  down_eq : s.down = (framing.decode stream).bad
  contents_eq : s.buf.contents = (framing.decode stream).rest
  size_le : s.buf.buffer_.length ≤ m

lemma receive_decodes {s : Delivery} {stream piece : Bytes} {m : ℕ} (h : Decodes s stream m)
    (hmax : m + piece.length ≤ maxSize) :
    ∃ s', receive s piece = some s' ∧ Decodes s' (stream ++ piece) (m + piece.length) := by
  have hmaxLt := maxSize_lt
  have hw := h.valid.writer_le
  have hsize := h.size_le
  have hroom : Room s.buf piece.length := .inl (by omega)
  obtain ⟨buf, hbuf, hres⟩ := append_ok h.valid (by omega) hroom
  have hfuel : buf.contents.length < buf.readableBytes + 1 := by
    rw [readableBytes_eq hres.valid]
    exact Nat.lt_succ_self _
  obtain ⟨buf', hloop, hvalid, hrest, hsize'⟩ := loop_eq hres.valid hfuel
  have hcontents : buf.contents = (framing.decode stream).rest ++ piece := by
    rw [hres.contents_eq, h.contents_eq]
  have happend := Framing.decode_append (F := framing) stream piece
  refine ⟨⟨s.messages ++ (framing.decode buf.contents).items,
    s.down || (framing.decode buf.contents).bad, buf'⟩, ?_, hvalid, ?_, ?_, ?_, ?_⟩
  · rw [receive, hbuf]
    simp only [onMessage, hloop]
  · simp only [happend, hcontents, h.messages_eq]
  · -- once the connection is down it stays down
    cases hdown : s.down with
    | false => simp only [happend, hcontents, Bool.false_or]
    | true =>
      have hbad := (Framing.bad_decode_append (h.down_eq.symm.trans hdown) piece).1
      simp only [Bool.true_or, hbad]
  · simp only [happend, hrest, hcontents]
  · have hgrown := hres.size_le
    simp only
    omega

/-- The state of a connection before anything has arrived. -/
def start : Delivery := ⟨[], false, fresh kInitialSize⟩

lemma run_receive (hmax : kCheapPrepend + kInitialSize + pieces.flatten.length ≤ maxSize) :
    ∃ s, run receive start pieces = some s ∧
      Decodes s pieces.flatten (kCheapPrepend + kInitialSize + pieces.flatten.length) := by
  induction pieces using List.reverseRecOn with
  | nil =>
    have hfresh : Result (fresh kInitialSize) [] kCheapPrepend (kCheapPrepend + kInitialSize) :=
      result_fresh (by decide)
    have hnil : framing.decode [] = ⟨[], false, []⟩ := Framing.decode_more rfl
    refine ⟨start, rfl, hfresh.valid, ?_, ?_, ?_, hfresh.size_le⟩
    · rw [List.flatten_nil, hnil]
      rfl
    · rw [List.flatten_nil, hnil]
      rfl
    · rw [List.flatten_nil, hnil]
      exact hfresh.contents_eq
  | append_singleton pieces piece ih =>
    rw [List.flatten_append, List.flatten_singleton, List.length_append, ← Nat.add_assoc] at hmax ⊢
    obtain ⟨s, hrun, hdec⟩ := ih (by omega)
    obtain ⟨s', hs', hdec'⟩ := receive_decodes hdec hmax
    exact ⟨s', run_snoc_eq_some.mpr ⟨s, hrun, hs'⟩, hdec'⟩

end Receive

/-! ## From the sender to the receiver -/

/-- The bytes of a message on the wire. -/
def frame (message : Bytes) : Bytes :=
  objBytes (byteSwap (BitVec.ofNat (8 * kHeaderLen) message.length)) ++ message

/-- The codec delivers messages of this length. -/
def Deliverable (message : Bytes) : Bool := message.length ≤ 65536

section Wire

variable {message : Bytes} {messages : List Bytes}

lemma length_frame (message : Bytes) : (frame message).length = kHeaderLen + message.length := by
  rw [frame, List.length_append, length_objBytes]

/-- `send` writes the length in front of the message. -/
lemma send_eq (hlen : message.length < 2 ^ 31) : send message = .ok (frame message) := by
  have hmax : maxSize = 2 ^ 63 - 1 := rfl
  have hcheap : kCheapPrepend = 8 := rfl
  have hinit : kInitialSize = 1024 := rfl
  have hfresh : Result (fresh kInitialSize) [] kCheapPrepend (kCheapPrepend + kInitialSize) :=
    result_fresh (by decide)
  have hwriter : (fresh kInitialSize).writerIndex_ = kCheapPrepend := rfl
  have hreader : (fresh kInitialSize).readerIndex_ = kCheapPrepend := rfl
  have hroom : Room (fresh kInitialSize) message.length := .inl (by omega)
  obtain ⟨buf, hbuf, hres⟩ := append_ok hfresh.valid (by omega) hroom
  have hfit : (objBytes (byteSwap (BitVec.ofNat (8 * kHeaderLen) message.length))).length ≤
      buf.readerIndex_ := by
    have hcheap' := hres.cheap_le
    rw [length_objBytes, kHeaderLen]
    omega
  obtain ⟨buf', hbuf', hres'⟩ := prepend_ok hres.valid hfit
  rw [send, init_ok (by decide), ok_bind, hbuf, ok_bind]
  show prepend buf _ >>= _ = _
  rw [hbuf', ok_bind, hres'.contents_eq, hres.contents_eq, hfresh.contents_eq]
  rfl

lemma headerOf_frame (hlen : message.length < 2 ^ 31) (rest : Bytes) :
    headerOf ((frame message ++ rest).take kHeaderLen) = message.length := by
  have hfront : (frame message ++ rest).take kHeaderLen =
      objBytes (byteSwap (BitVec.ofNat (8 * kHeaderLen) message.length)) := by
    rw [frame, List.append_assoc, List.take_append_of_le_length (by simp),
      List.take_of_length_le (by simp)]
  have hwidth : 8 * kHeaderLen = 32 := rfl
  have hnat : (BitVec.ofNat (8 * kHeaderLen) message.length).toNat = message.length := by
    rw [BitVec.toNat_ofNat, hwidth]
    omega
  rw [headerOf, hfront, ofObjBytes_objBytes, byteSwap_byteSwap,
    BitVec.toInt_eq_toNat_of_lt (by rw [hnat, hwidth]; omega), hnat]

lemma next_frame (hlen : message.length < 2 ^ 31) (rest : Bytes) :
    framing.next (frame message ++ rest) =
      if Deliverable message then .item message rest else .bad := by
  rw [framing_next]
  have hheader := headerOf_frame hlen rest
  have hlong : kHeaderLen + message.length ≤ (frame message ++ rest).length := by
    rw [List.length_append, length_frame]
    omega
  by_cases hd : message.length ≤ 65536
  · have hdrop : (frame message ++ rest).drop kHeaderLen = message ++ rest := by
      rw [frame, List.append_assoc, List.drop_append_of_le_length (by simp),
        List.drop_of_length_le (by simp), List.nil_append]
    have hdrop' : (frame message ++ rest).drop (kHeaderLen + message.length) = rest := by
      rw [← List.drop_drop, hdrop, List.drop_left]
    rw [next_of_header hlong hd hheader, hdrop, hdrop', List.take_left, if_pos (by simpa [Deliverable])]
  · rw [next_of_bad (by omega) (.inl (by rw [hheader]; omega)), if_neg (by simpa [Deliverable] using hd)]

/-- The decoding of what was sent: the messages up to the first one that is too long. -/
lemma decode_wire (hlen : ∀ message ∈ messages, message.length < 2 ^ 31) :
    (framing.decode (messages.flatMap frame)).items = messages.takeWhile Deliverable ∧
      ((framing.decode (messages.flatMap frame)).bad = true ↔
        ∃ message ∈ messages, 65536 < message.length) := by
  induction messages with
  | nil =>
    have hnil : framing.decode [] = ⟨[], false, []⟩ := Framing.decode_more rfl
    simp [hnil]
  | cons message messages ih =>
    obtain ⟨hitems, hbad⟩ := ih fun message hmem => hlen message (List.mem_cons_of_mem _ hmem)
    have hnext := next_frame (hlen message List.mem_cons_self) (messages.flatMap frame)
    rw [List.flatMap_cons]
    by_cases hd : Deliverable message = true
    · have hle : ¬ 65536 < message.length := by simpa [Deliverable] using hd
      rw [if_pos hd] at hnext
      rw [Framing.decode_item hnext, List.takeWhile_cons_of_pos hd, hitems]
      simp [hbad, hle]
    · have hlt : 65536 < message.length := by simpa [Deliverable] using hd
      rw [if_neg hd] at hnext
      rw [Framing.decode_bad hnext, List.takeWhile_cons_of_neg hd]
      simp [hlt]

lemma mapM_send (hlen : ∀ message ∈ messages, message.length < 2 ^ 31) :
    messages.mapM send = .ok (messages.map frame) := by
  induction messages with
  | nil => rfl
  | cons message messages ih =>
    have hrest := ih fun message hmem => hlen message (List.mem_cons_of_mem _ hmem)
    rw [List.mapM_cons, send_eq (hlen message List.mem_cons_self), hrest]
    rfl

end Wire

/-- **Messages across a connection.**  Messages are sent one after the other, and what was sent
arrives in pieces of any sizes.  At every point the messages that were delivered are the first
ones that were sent.  When everything has arrived, the messages up to the first one of more than
65536 bytes were delivered and no other, and the connection was shut down exactly if there is
such a message. -/
theorem delivered_of_sent (messages : List Bytes)
    (hlen : ∀ message ∈ messages, message.length < 2 ^ 31) :
    ∃ frames, messages.mapM send = .ok frames ∧
      ∀ pieces : List Bytes, pieces.flatten <+: frames.flatten →
        kCheapPrepend + kInitialSize + frames.flatten.length ≤ maxSize →
        ∃ s, run receive start pieces = some s ∧
          s.messages <+: messages.takeWhile Deliverable ∧
          (pieces.flatten = frames.flatten → s.messages = messages.takeWhile Deliverable ∧
            (s.down = true ↔ ∃ message ∈ messages, 65536 < message.length)) := by
  obtain ⟨hitems, hbad⟩ := decode_wire hlen
  rw [List.flatMap_def] at hitems hbad
  refine ⟨messages.map frame, mapM_send hlen, fun pieces hpieces hmax => ?_⟩
  have hshort := hpieces.length_le
  have hfit : kCheapPrepend + kInitialSize + pieces.flatten.length ≤ maxSize := by omega
  obtain ⟨s, hrun, hdec⟩ := run_receive hfit
  refine ⟨s, hrun, ?_, fun hall => ?_⟩
  · obtain ⟨d, hd⟩ := hpieces
    rw [hdec.messages_eq, ← hitems, ← hd, Framing.decode_append]
    exact List.prefix_append _ _
  · rw [hdec.messages_eq, hdec.down_eq, hall]
    exact ⟨hitems, hbad⟩

/-- Two messages arrive in three pieces, one of which ends in the middle of the second header. -/
theorem delivered_of_sent_pieces :
    ∃ s, run receive start [[0, 0, 0, 2, 7, 8, 0, 0], [0], [1, 9]] = some s ∧
      s.messages = [[7, 8], [9]] := by
  obtain ⟨frames, hsend, hall⟩ := delivered_of_sent [[7, 8], [9]] (by decide)
  have hframes : frames = [[0, 0, 0, 2, 7, 8], [0, 0, 0, 1, 9]] := by
    have hsent : [[7, 8], [9]].mapM send = .ok [[0, 0, 0, 2, 7, 8], [0, 0, 0, 1, 9]] := by
      rw [mapM_send (by decide)]
      decide
    exact Except.ok.inj (hsend.symm.trans hsent)
  subst hframes
  obtain ⟨s, hrun, -, hdone⟩ := hall [[0, 0, 0, 2, 7, 8, 0, 0], [0], [1, 9]] (by decide) (by decide)
  exact ⟨s, hrun, (hdone rfl).1⟩

end CppServer.Net.LengthHeaderCodec
