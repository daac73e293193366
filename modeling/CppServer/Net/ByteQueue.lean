/-
# A buffer is a queue of bytes

What a `Buffer` is for can be said without the vector and its two indices: there is a queue of
bytes, calls put bytes at its end or in front of it and take bytes off either side, and the
strings that are taken come out.  In every sequence of calls whose sizes fit into a vector the
buffer gives the bytes that the queue gives, and it stops only where the queue has too few bytes,
where a header does not fit in front, or where the vector would have to become too large.

How much fits in front is not determined by the queue, since it depends on whether `makeSpace`
moved the contents.  Eight bytes less those that were prepended can be relied on: `Call.room`
keeps the account.
-/
import Mathlib.Algebra.BigOperators.Group.List.Basic
import Mathlib.Algebra.Order.Ring.Int
import CppServer.Net.Buffer

namespace CppServer.Net

open Buffer

/-- A call on a buffer. -/
inductive Call where
  | append (data : Bytes)
  | prepend (data : Bytes)
  | retrieve (len : ℕ)
  | retrieveAll
  | retrieveAsString (len : ℕ)
  | retrieveAllAsString
  | unwrite (len : ℕ)
  | ensureWritableBytes (len : ℕ)
  | shrink (reserve : ℕ)
deriving DecidableEq

namespace Call

/-- The string that the call returns, empty for a `void` function, and the buffer behind it. -/
def perform (b : Buffer) : Call → Except Stop (Bytes × Buffer)
  | append data => return ([], ← b.append data)
  | prepend data => return ([], ← b.prepend data)
  | retrieve len => return ([], ← b.retrieve len)
  | retrieveAll => return ([], b.retrieveAll)
  | retrieveAsString len => b.retrieveAsString len
  | retrieveAllAsString => b.retrieveAllAsString
  | unwrite len => return ([], ← b.unwrite len)
  | ensureWritableBytes len => return ([], ← b.ensureWritableBytes len)
  | shrink reserve => return ([], ← b.shrink reserve)

/-- The call on the queue `q` of bytes: what it returns and the new queue. -/
def onQueue (q : Bytes) : Call → Option (Bytes × Bytes)
  | append data => some ([], q ++ data)
  | prepend data => some ([], data ++ q)
  | retrieve len => if len ≤ q.length then some ([], q.drop len) else none
  | retrieveAll => some ([], [])
  | retrieveAsString len => if len ≤ q.length then some (q.take len, q.drop len) else none
  | retrieveAllAsString => some (q, [])
  | unwrite len => if len ≤ q.length then some ([], q.take (q.length - len)) else none
  | ensureWritableBytes _ => some ([], q)
  -- the length passes through an `int`
  | shrink _ =>
    if q.length % 2 ^ 32 < 2 ^ 31 then some ([], q.take (q.length % 2 ^ 32)) else none

/-- The bytes that fit in front of the queue `q` for sure behind the call, when `room` bytes do
before it. -/
def room (q : Bytes) (room : ℕ) : Call → Option ℕ
  | append _ | unwrite _ | ensureWritableBytes _ => some room
  | prepend data => if data.length ≤ room then some (room - data.length) else none
  | retrieve len | retrieveAsString len =>
    some (if len < q.length then min kCheapPrepend (room + len) else kCheapPrepend)
  | retrieveAll | retrieveAllAsString | shrink _ => some kCheapPrepend

/-- The bytes that the call may add to the vector. -/
def size : Call → ℕ
  | append data | prepend data => data.length
  | ensureWritableBytes len => len
  | shrink reserve => reserve
  | retrieve _ | retrieveAll | retrieveAsString _ | retrieveAllAsString | unwrite _ => 0

end Call

/-- A call on a buffer, with the bytes that were taken out of it so far. -/
def step (s : Buffer × Bytes) (c : Call) : Option (Buffer × Bytes) :=
  match c.perform s.1 with
  | .ok (out, b) => some (b, s.2 ++ out)
  | .error _ => none

/-- A call on a queue of bytes, with the bytes that were taken out of it so far. -/
def queueStep (s : Bytes × Bytes) (c : Call) : Option (Bytes × Bytes) :=
  (c.onQueue s.1).map fun r => (r.2, s.2 ++ r.1)

/-- A queue of bytes with the bytes that fit in front of it for sure. -/
structure Account where
  queue : Bytes
  out : Bytes
  room : ℕ
deriving DecidableEq

/-- A call that the queue and the bytes in front of it allow. -/
def accountStep (s : Account) (c : Call) : Option Account := do
  let (out, q) ← c.onQueue s.queue
  let room ← c.room s.queue s.room
  return ⟨q, s.out ++ out, room⟩

section Step

variable {b b' : Buffer} {c : Call} {out : Bytes}

/-- One lemma for the calls that return nothing. -/
lemma perform_void {x : Except Stop Buffer} :
    (do return ([], ← x) : Except Stop (Bytes × Buffer)) = .ok (out, b') ↔
      out = [] ∧ x = .ok b' := by
  cases x with
  | error e => simp [bind, Except.bind]
  | ok b'' => simp [bind, Except.bind, pure, Except.pure, eq_comm]

/-- **A call keeps the buffer well formed and gives the bytes that the queue gives.** -/
lemma perform_onQueue (h : Valid b) (hsize : kCheapPrepend + c.size ≤ maxSize)
    (hc : c.perform b = .ok (out, b')) :
    Valid b' ∧ c.onQueue b.contents = some (out, b'.contents) := by
  have hmaxLt := maxSize_lt
  cases c with
  | append data =>
    obtain ⟨rfl, hb'⟩ := perform_void.mp hc
    have hlen : data.length < 2 ^ 63 := by
      rw [Call.size] at hsize
      omega
    by_cases hroom : Room b data.length
    · have hres := of_eq_ok (append_ok h hlen hroom) hb'
      exact ⟨hres.valid, by rw [Call.onQueue, hres.contents_eq]⟩
    · exact absurd (hb'.symm.trans (append_lengthError h hlen hroom)) (by simp)
  | prepend data =>
    obtain ⟨rfl, hb'⟩ := perform_void.mp hc
    by_cases hle : data.length ≤ b.readerIndex_
    · have hres := of_eq_ok (prepend_ok h hle) hb'
      exact ⟨hres.valid, by rw [Call.onQueue, hres.contents_eq]⟩
    · exact absurd (hb'.symm.trans (prepend_assertion hle)) (by simp)
  | retrieve len =>
    obtain ⟨rfl, hb'⟩ := perform_void.mp hc
    by_cases hle : len ≤ b.contents.length
    · have hres := of_eq_ok (retrieve_ok h hle) hb'
      exact ⟨hres.valid, by rw [Call.onQueue, if_pos hle, hres.contents_eq]⟩
    · exact absurd (hb'.symm.trans (retrieve_assertion h hle)) (by simp)
  | retrieveAll =>
    obtain ⟨rfl, rfl⟩ : [] = out ∧ b.retrieveAll = b' := by simpa using Except.ok.inj hc
    have hres := retrieveAll_result h
    exact ⟨hres.valid, by rw [Call.onQueue, hres.contents_eq]⟩
  | retrieveAsString len =>
    by_cases hle : len ≤ b.contents.length
    · obtain ⟨b'', hb'', hret⟩ := retrieveAsString_ok h hle
      have hres := of_eq_ok (retrieve_ok h hle) hret
      obtain ⟨rfl, rfl⟩ : out = b.contents.take len ∧ b' = b'' := by
        simpa using Except.ok.inj (hc.symm.trans hb'')
      exact ⟨hres.valid, by rw [Call.onQueue, if_pos hle, hres.contents_eq]⟩
    · exact absurd (hc.symm.trans (retrieveAsString_assertion h hle)) (by simp)
  | retrieveAllAsString =>
    obtain ⟨b'', hb'', hret⟩ := retrieveAsString_ok h (Nat.le_refl b.contents.length)
    have hres := of_eq_ok (retrieve_ok h (Nat.le_refl b.contents.length)) hret
    rw [Call.perform, retrieveAllAsString, readableBytes_eq h, hb''] at hc
    obtain ⟨rfl, rfl⟩ : b.contents.take b.contents.length = out ∧ b'' = b' := by
      simpa using Except.ok.inj hc
    refine ⟨hres.valid, ?_⟩
    rw [Call.onQueue, hres.contents_eq, List.take_length, List.drop_length]
  | unwrite len =>
    obtain ⟨rfl, hb'⟩ := perform_void.mp hc
    by_cases hle : len ≤ b.contents.length
    · have hres := of_eq_ok (unwrite_ok h hle) hb'
      exact ⟨hres.valid, by rw [Call.onQueue, if_pos hle, hres.contents_eq]⟩
    · exact absurd (hb'.symm.trans (unwrite_assertion h hle)) (by simp)
  | ensureWritableBytes len =>
    obtain ⟨rfl, hb'⟩ := perform_void.mp hc
    have hlen : len < 2 ^ 63 := by
      rw [Call.size] at hsize
      omega
    by_cases hroom : Room b len
    · have hp := of_eq_ok (ensureWritableBytes_ok h hlen hroom) hb'
      exact ⟨hp.valid, by rw [Call.onQueue, hp.contents_eq]⟩
    · obtain ⟨hbranch, hsum⟩ := enlarges_of_not_room h hlen hroom
      exact absurd (hb'.symm.trans (ensureWritableBytes_lengthError h hroom hbranch hsum)) (by simp)
  | shrink reserve =>
    obtain ⟨rfl, hb'⟩ := perform_void.mp hc
    rw [Call.size] at hsize
    by_cases hmax : kCheapPrepend + (b.contents.length + reserve) ≤ maxSize
    · by_cases hpos : b.contents.length % 2 ^ 32 < 2 ^ 31
      · obtain ⟨hres, -⟩ := of_eq_ok (shrink_ok h hmax hpos) hb'
        exact ⟨hres.valid, by rw [Call.onQueue, if_pos hpos, hres.contents_eq]⟩
      · obtain ⟨e, he⟩ := shrink_error h hmax hpos
        exact absurd (hb'.symm.trans he) (by simp)
    · exact absurd (hb'.symm.trans (shrink_lengthError h hsize hmax)) (by simp)

/-- The account of a buffer: the queue, the room in front and the size of the vector. -/
structure Keeps (b : Buffer) (q : Bytes) (room m : ℕ) : Prop where
  valid : Valid b
  contents_eq : b.contents = q
  room_le : room ≤ min kCheapPrepend b.readerIndex_
  size_le : b.buffer_.length ≤ m
  fits : kCheapPrepend + q.length ≤ m

lemma keeps_of_result {q : Bytes} {cheap size room m : ℕ} (h : Result b q cheap size)
    (hroom : room ≤ min kCheapPrepend cheap) (hsize : size ≤ m)
    (hfits : kCheapPrepend + q.length ≤ m) : Keeps b q room m := by
  have hcheap := h.cheap_le
  exact ⟨h.valid, h.contents_eq, by omega, Nat.le_trans h.size_le hsize, hfits⟩

/-- What `retrieve` leaves. -/
lemma keeps_retrieve {room m len : ℕ} (h : Keeps b b.contents room m)
    (hlen : len ≤ b.contents.length) :
    ∃ b', b.retrieve len = .ok b' ∧ Keeps b' (b.contents.drop len)
      (if len < b.contents.length then min kCheapPrepend (room + len) else kCheapPrepend) m := by
  obtain ⟨b', hb', hres⟩ := retrieve_ok h.valid hlen
  refine ⟨b', hb', keeps_of_result hres ?_ h.size_le ?_⟩
  · have hroom := h.room_le
    split
    · omega
    · exact Nat.le_of_eq (Nat.min_self _).symm
  · have hfits := h.fits
    rw [List.length_drop]
    omega

/-- A call that the account allows returns. -/
lemma perform_keeps {q q' : Bytes} {room room' m : ℕ} (h : Keeps b q room m)
    (hinit : kCheapPrepend + kInitialSize ≤ m) (hmax : m + c.size ≤ maxSize)
    (hq : c.onQueue q = some (out, q')) (hroom : c.room q room = some room') :
    ∃ b', c.perform b = .ok (out, b') ∧ Keeps b' q' room' (m + c.size) := by
  obtain rfl := h.contents_eq
  obtain ⟨hv, -, hle, hsize, hfits⟩ := h
  have hmaxLt := maxSize_lt
  have hw := hv.writer_le
  cases c with
  | append data =>
    simp only [Call.onQueue, Option.some.injEq, Prod.mk.injEq] at hq
    obtain ⟨rfl, rfl⟩ := hq
    obtain rfl : room = room' := Option.some.inj hroom
    simp only [Call.size] at hmax ⊢
    have hroom : Room b data.length := .inl (by omega)
    obtain ⟨b', hb', hres⟩ := append_ok hv (by omega) hroom
    refine ⟨b', perform_void.mpr ⟨rfl, hb'⟩, keeps_of_result hres (by omega) (by omega) ?_⟩
    rw [List.length_append]
    omega
  | prepend data =>
    simp only [Call.onQueue, Option.some.injEq, Prod.mk.injEq] at hq
    obtain ⟨rfl, rfl⟩ := hq
    simp only [Call.room, Option.ite_none_right_eq_some, Option.some.injEq] at hroom
    obtain ⟨hdata, rfl⟩ := hroom
    simp only [Call.size] at hmax ⊢
    have hfit : data.length ≤ b.readerIndex_ := by omega
    obtain ⟨b', hb', hres⟩ := prepend_ok hv hfit
    refine ⟨b', perform_void.mpr ⟨rfl, hb'⟩, keeps_of_result hres (by omega) (by omega) ?_⟩
    rw [List.length_append]
    omega
  | retrieve len =>
    simp only [Call.onQueue, Option.ite_none_right_eq_some, Option.some.injEq,
      Prod.mk.injEq] at hq
    obtain ⟨hlen, rfl, rfl⟩ := hq
    obtain ⟨b', hb', hkeeps⟩ := keeps_retrieve ⟨hv, rfl, hle, hsize, hfits⟩ hlen
    obtain rfl := Option.some.inj hroom
    exact ⟨b', perform_void.mpr ⟨rfl, hb'⟩, hkeeps⟩
  | retrieveAll =>
    simp only [Call.onQueue, Option.some.injEq, Prod.mk.injEq] at hq
    obtain ⟨rfl, rfl⟩ := hq
    obtain rfl := Option.some.inj hroom
    refine ⟨b.retrieveAll, rfl, keeps_of_result (retrieveAll_result hv) ?_ hsize ?_⟩
    · exact Nat.le_of_eq (Nat.min_self _).symm
    · exact Nat.le_trans (Nat.le_add_right _ _) hinit
  | retrieveAsString len =>
    simp only [Call.onQueue, Option.ite_none_right_eq_some, Option.some.injEq,
      Prod.mk.injEq] at hq
    obtain ⟨hlen, rfl, rfl⟩ := hq
    obtain ⟨b', hb', hret⟩ := retrieveAsString_ok hv hlen
    have hkeeps := of_eq_ok (keeps_retrieve ⟨hv, rfl, hle, hsize, hfits⟩ hlen) hret
    obtain rfl := Option.some.inj hroom
    exact ⟨b', hb', hkeeps⟩
  | retrieveAllAsString =>
    simp only [Call.onQueue, Option.some.injEq, Prod.mk.injEq] at hq
    obtain ⟨rfl, rfl⟩ := hq
    obtain ⟨b', hb', hret⟩ := retrieveAsString_ok hv (Nat.le_refl b.contents.length)
    have hkeeps := of_eq_ok
      (keeps_retrieve ⟨hv, rfl, hle, hsize, hfits⟩ (Nat.le_refl b.contents.length)) hret
    rw [if_neg (Nat.lt_irrefl _), List.drop_length] at hkeeps
    obtain rfl := Option.some.inj hroom
    refine ⟨b', ?_, hkeeps⟩
    rw [Call.perform, retrieveAllAsString, readableBytes_eq hv, hb', List.take_length]
  | unwrite len =>
    simp only [Call.onQueue, Option.ite_none_right_eq_some, Option.some.injEq,
      Prod.mk.injEq] at hq
    obtain ⟨hlen, rfl, rfl⟩ := hq
    obtain rfl : room = room' := Option.some.inj hroom
    obtain ⟨b', hb', hres⟩ := unwrite_ok hv hlen
    refine ⟨b', perform_void.mpr ⟨rfl, hb'⟩, keeps_of_result hres (by omega) hsize ?_⟩
    rw [List.length_take, Call.size]
    omega
  | ensureWritableBytes len =>
    simp only [Call.onQueue, Option.some.injEq, Prod.mk.injEq] at hq
    obtain ⟨rfl, rfl⟩ := hq
    obtain rfl : room = room' := Option.some.inj hroom
    simp only [Call.size] at hmax ⊢
    have hroom : Room b len := .inl (by omega)
    obtain ⟨b', hb', hp⟩ := ensureWritableBytes_ok hv (by omega) hroom
    have hcheap := hp.cheap_eq
    have hgrown := hp.size_le
    exact ⟨b', perform_void.mpr ⟨rfl, hb'⟩, hp.valid, hp.contents_eq, by omega, by omega, by omega⟩
  | shrink reserve =>
    simp only [Call.onQueue, Option.ite_none_right_eq_some, Option.some.injEq,
      Prod.mk.injEq] at hq
    obtain ⟨hpos, rfl, rfl⟩ := hq
    obtain rfl := Option.some.inj hroom
    simp only [Call.size] at hmax ⊢
    have hfit : kCheapPrepend + (b.contents.length + reserve) ≤ maxSize := by omega
    obtain ⟨b', hb', hres, -⟩ := shrink_ok hv hfit hpos
    refine ⟨b', perform_void.mpr ⟨rfl, hb'⟩, keeps_of_result hres (by omega) (by omega) ?_⟩
    rw [List.length_take]
    omega

end Step

/-! ## Sequences of calls -/

section Runs

variable {n : ℕ} {calls : List Call} {b : Buffer} {out : Bytes}

/-- The buffer behind calls that the account allows. -/
lemma exists_run_keeps {acc : Account}
    (hacc : run accountStep ⟨[], [], kCheapPrepend⟩ calls = some acc)
    (hmax : kCheapPrepend + max kInitialSize n + (calls.map Call.size).sum ≤ maxSize) :
    ∃ b, run step (fresh n, []) calls = some (b, acc.out) ∧ Keeps b acc.queue acc.room
      (kCheapPrepend + max kInitialSize n + (calls.map Call.size).sum) := by
  refine run_history (P := fun calls acc =>
    kCheapPrepend + max kInitialSize n + (calls.map Call.size).sum ≤ maxSize →
      ∃ b, run step (fresh n, []) calls = some (b, acc.out) ∧ Keeps b acc.queue acc.room
        (kCheapPrepend + max kInitialSize n + (calls.map Call.size).sum)) ?_ ?_ hacc hmax
  · intro hmax
    have hfresh : Result (fresh n) [] kCheapPrepend (kCheapPrepend + n) := result_fresh (by omega)
    refine ⟨fresh n, rfl, keeps_of_result hfresh ?_ (by omega) ?_⟩
    · exact Nat.le_of_eq (Nat.min_self _).symm
    · rw [List.length_nil]
      omega
  · rintro pre acc₁ c acc₂ - ih hstep hmax
    rw [List.map_append, List.sum_append, List.map_singleton, List.sum_singleton,
      ← Nat.add_assoc] at hmax ⊢
    obtain ⟨b, hrun, hkeeps⟩ := ih (by omega)
    simp only [accountStep, Option.bind_eq_bind, Option.bind_eq_some_iff] at hstep
    obtain ⟨⟨out, q⟩, hq, room, hroom, hacc⟩ := hstep
    obtain rfl : (⟨q, acc₁.out ++ out, room⟩ : Account) = acc₂ := Option.some.inj hacc
    obtain ⟨b', hb', hkeeps'⟩ := perform_keeps hkeeps (by omega) hmax hq hroom
    refine ⟨b', run_snoc_eq_some.mpr ⟨_, hrun, ?_⟩, hkeeps'⟩
    simp only [step, hb']

end Runs

end CppServer.Net
