/-
# Decoding a stream that comes in pieces

A decoder looks at the front of the bytes that have arrived: it finds an item and the bytes
behind it, it finds that the bytes cannot be the front of an item, or it needs more bytes.  When
what it finds does not depend on the bytes that follow, the items that are decoded do not depend
on how the stream is cut into pieces: decoding what is left together with the next piece goes on
where the decoding of the whole stream would.
-/
import Mathlib.Data.List.Basic

namespace CppServer

/-- What a decoder finds at the front. -/
inductive Turn (β α : Type) where
  /-- More bytes are needed. -/
  | more
  /-- The bytes are no front of an item. -/
  | bad
  | item (a : α) (rest : List β)
deriving DecidableEq

/-- A decoder whose findings do not depend on what follows. -/
structure Framing (β α : Type) where
  next : List β → Turn β α
  shrinks : ∀ {q a rest}, next q = .item a rest → rest.length < q.length
  item_append : ∀ {q a rest} (d : List β), next q = .item a rest → next (q ++ d) = .item a (rest ++ d)
  bad_append : ∀ {q} (d : List β), next q = .bad → next (q ++ d) = .bad

namespace Framing

variable {β α : Type} (F : Framing β α)

/-- The items of a stream, whether the decoder found bytes that are no front of an item, and the
bytes that it left. -/
structure Decoded (β α : Type) where
  items : List α
  bad : Bool
  rest : List β

/-- Items are decoded from the front as long as there are any. -/
def decode (q : List β) : Decoded β α :=
  match _h : F.next q with
  | .more => ⟨[], false, q⟩
  | .bad => ⟨[], true, q⟩
  | .item a rest => ⟨a :: (decode rest).items, (decode rest).bad, (decode rest).rest⟩
termination_by q.length
decreasing_by exact F.shrinks _h

section Decode

variable {F} {q rest : List β} {a : α}

lemma decode_more (h : F.next q = .more) : F.decode q = ⟨[], false, q⟩ := by
  rw [decode]
  split <;> simp_all

lemma decode_bad (h : F.next q = .bad) : F.decode q = ⟨[], true, q⟩ := by
  rw [decode]
  split <;> simp_all

lemma decode_item (h : F.next q = .item a rest) :
    F.decode q = ⟨a :: (F.decode rest).items, (F.decode rest).bad, (F.decode rest).rest⟩ := by
  rw [decode]
  split <;> simp_all

/-- **The pieces of a stream.**  What is decoded from a stream is what is decoded from its front,
and then from the rest of the front together with what follows. -/
theorem decode_append (q d : List β) :
    F.decode (q ++ d) = ⟨(F.decode q).items ++ (F.decode ((F.decode q).rest ++ d)).items,
      (F.decode ((F.decode q).rest ++ d)).bad, (F.decode ((F.decode q).rest ++ d)).rest⟩ := by
  induction hn : q.length using Nat.strongRecOn generalizing q with
  | ind n ih =>
    cases h : F.next q with
    | more => rw [decode_more h, List.nil_append]
    | bad => rw [decode_bad h, List.nil_append]
    | item a rest =>
      have hlt : rest.length < n := hn ▸ F.shrinks h
      rw [decode_item (F.item_append d h), decode_item h, ih rest.length hlt rest rfl]
      rfl

/-- A decoder that found bytes that are no front of an item finds them again. -/
lemma decode_rest_bad (h : (F.decode q).bad = true) (d : List β) :
    F.next ((F.decode q).rest ++ d) = .bad := by
  induction hn : q.length using Nat.strongRecOn generalizing q with
  | ind n ih =>
    cases hnext : F.next q with
    | more =>
      rw [decode_more hnext] at h
      exact absurd h (by simp)
    | bad =>
      rw [decode_bad hnext]
      exact F.bad_append d hnext
    | item a rest =>
      rw [decode_item hnext] at h ⊢
      exact ih rest.length (hn ▸ F.shrinks hnext) h rfl

/-- Behind bytes that are no front of an item nothing is decoded. -/
lemma bad_decode_append (h : (F.decode q).bad = true) (d : List β) :
    (F.decode (q ++ d)).bad = true ∧ (F.decode (q ++ d)).items = (F.decode q).items := by
  rw [decode_append, decode_bad (decode_rest_bad h d)]
  simp

end Decode

end Framing

end CppServer
