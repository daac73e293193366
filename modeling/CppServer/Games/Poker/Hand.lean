/-
# Copies of a poker hand

`handinfo_t` of `Games/Game_texas/texas.h` and of `Games/Game_suoha/suoha.h`: what was found
out about the cards of one chair.  Copy constructor and `operator=` reset the hand and then
copy the members one after the other; neither of them touches `chairId`, so a hand that is
assigned to keeps its chair.

The file says when exchanging hands in an array (what `std::swap` and `std::sort` do) keeps
every chair with its cards.
-/
import CppServer.Lib.Records

namespace CppServer.Poker

open Records

/-- `HandTy`, the same in both games. -/
inductive HandTy where
  | tysp | ty20 | ty22 | ty30 | ty123 | tysc | ty32 | ty40 | ty123sc | ty123scRoyal | tyAll
deriving DecidableEq

/-- `handinfo_t` of Texas hold'em. -/
structure TexasHand where
  ty_ : HandTy
  cards_ : List UInt8
  /-- `vec[0]` -/
  vec0 : List Int32
  /-- `vec[1]` -/
  vec1 : List Int32
  chairId : UInt16
deriving DecidableEq

namespace TexasHand

/-- `handinfo_t::Reset`. -/
def reset (this : TexasHand) : TexasHand :=
  { this with ty_ := .tysp, cards_ := [], vec0 := [], vec1 := [] }

/-- The common body of the copy constructor and of `operator=`. -/
def assign (this : TexasHand) (ref : Arg TexasHand) : TexasHand :=
  let this := this.reset
  let this := { this with ty_ := (ref.get this).ty_ }
  let this := { this with cards_ := this.cards_ ++ (ref.get this).cards_ }
  let this := { this with vec0 := this.vec0 ++ (ref.get this).vec0 }
  { this with vec1 := this.vec1 ++ (ref.get this).vec1 }

/-- The copy constructor; `raw` is what the memory held. -/
def copyOf (raw ref : TexasHand) : TexasHand := raw.assign (.other ref)

/-- What a copy transfers. -/
def payload (h : TexasHand) : HandTy × List UInt8 × List Int32 × List Int32 :=
  (h.ty_, h.cards_, h.vec0, h.vec1)

lemma payload_assign_other (this h : TexasHand) : (this.assign (.other h)).payload = h.payload := by
  simp [assign, reset, payload]

/-- Copies of a Texas hand, as `CppServer.Lib.Records` sees them. -/
def copies : PayloadCopy TexasHand UInt16 (HandTy × List UInt8 × List Int32 × List Int32) where
  owner := chairId
  payload := payload
  ext h h' howner hpayload := by
    obtain ⟨ty_, cards_, vec0, vec1, chairId⟩ := h
    obtain ⟨ty_', cards_', vec0', vec1', chairId'⟩ := h'
    simp only [payload, Prod.mk.injEq] at hpayload
    obtain ⟨rfl, rfl, rfl, rfl⟩ := hpayload
    obtain rfl : chairId = chairId' := howner
    rfl
  copyOf := copyOf
  assign := assign
  payload_copyOf := payload_assign_other
  owner_assign _ _ := rfl
  payload_assign := payload_assign_other

end TexasHand

/-- `handinfo_t` of Suoha. -/
structure SuohaHand where
  ty_ : HandTy
  cards_ : List UInt8
  chairId : UInt16
deriving DecidableEq

namespace SuohaHand

/-- `handinfo_t::Reset`. -/
def reset (this : SuohaHand) : SuohaHand := { this with ty_ := .tysp, cards_ := [] }

/-- The common body of the copy constructor and of `operator=`. -/
def assign (this : SuohaHand) (ref : Arg SuohaHand) : SuohaHand :=
  let this := this.reset
  let this := { this with ty_ := (ref.get this).ty_ }
  { this with cards_ := this.cards_ ++ (ref.get this).cards_ }

/-- The copy constructor; `raw` is what the memory held. -/
def copyOf (raw ref : SuohaHand) : SuohaHand := raw.assign (.other ref)

/-- What a copy transfers. -/
def payload (h : SuohaHand) : HandTy × List UInt8 := (h.ty_, h.cards_)

lemma payload_assign_other (this h : SuohaHand) : (this.assign (.other h)).payload = h.payload := by
  simp [assign, reset, payload]

/-- Copies of a Suoha hand, as `CppServer.Lib.Records` sees them. -/
def copies : PayloadCopy SuohaHand UInt16 (HandTy × List UInt8) where
  owner := chairId
  payload := payload
  ext h h' howner hpayload := by
    obtain ⟨ty_, cards_, chairId⟩ := h
    obtain ⟨ty_', cards_', chairId'⟩ := h'
    simp only [payload, Prod.mk.injEq] at hpayload
    obtain ⟨rfl, rfl⟩ := hpayload
    obtain rfl : chairId = chairId' := howner
    rfl
  copyOf := copyOf
  assign := assign
  payload_copyOf := payload_assign_other
  owner_assign _ _ := rfl
  payload_assign := payload_assign_other

end SuohaHand

/-- Two hands of an array may be exchanged: they are of one chair, or hold the same. -/
def TexasExchangeable (a : List TexasHand) (m : Move TexasHand) : Prop :=
  ∀ x y, a[m.i]? = some x → a[m.j]? = some y → x.chairId = y.chairId ∨
    (x.ty_ = y.ty_ ∧ x.cards_ = y.cards_ ∧ x.vec0 = y.vec0 ∧ x.vec1 = y.vec1)

/-- Two hands of an array may be exchanged: they are of one chair, or hold the same. -/
def SuohaExchangeable (a : List SuohaHand) (m : Move SuohaHand) : Prop :=
  ∀ x y, a[m.i]? = some x → a[m.j]? = some y →
    x.chairId = y.chairId ∨ (x.ty_ = y.ty_ ∧ x.cards_ = y.cards_)

lemma texasExchangeable_iff (a : List TexasHand) (m : Move TexasHand) :
    Compatible TexasHand.copies a m ↔ TexasExchangeable a m := by
  simp [Compatible, TexasExchangeable, TexasHand.copies, TexasHand.payload]

lemma suohaExchangeable_iff (a : List SuohaHand) (m : Move SuohaHand) :
    Compatible SuohaHand.copies a m ↔ SuohaExchangeable a m := by
  simp [Compatible, SuohaExchangeable, SuohaHand.copies, SuohaHand.payload]

/-- **When exchanges keep the chairs with their cards.**  In both games a sequence of exchanges
permutes the hands as whole records, at each of its points, exactly when it exchanges only
hands that are of one chair or that hold the same. -/
theorem hands_permuted_iff_exchangeable
    (a b : List TexasHand) (ms : List (Move TexasHand))
    (hrun : run (exchange TexasHand.copies) a ms = some b)
    (a' b' : List SuohaHand) (ms' : List (Move SuohaHand))
    (hrun' : run (exchange SuohaHand.copies) a' ms' = some b') :
    ((∀ pre post a₁, ms = pre ++ post → run (exchange TexasHand.copies) a pre = some a₁ →
        a₁.Perm a) ↔
      ∀ pre m post a₁, ms = pre ++ m :: post →
        run (exchange TexasHand.copies) a pre = some a₁ → TexasExchangeable a₁ m) ∧
    ((∀ pre post a₁, ms' = pre ++ post → run (exchange SuohaHand.copies) a' pre = some a₁ →
        a₁.Perm a') ↔
      ∀ pre m post a₁, ms' = pre ++ m :: post →
        run (exchange SuohaHand.copies) a' pre = some a₁ → SuohaExchangeable a₁ m) := by
  simp only [← texasExchangeable_iff, ← suohaExchangeable_iff]
  exact ⟨perm_iff_compatible TexasHand.copies hrun, perm_iff_compatible SuohaHand.copies hrun'⟩

/-- Three hands, the first and the last of chair 1. -/
def texasHands : List TexasHand :=
  [⟨.ty20, [0x01], [0], [1], 1⟩, ⟨.ty30, [0x02], [1], [2], 2⟩, ⟨.ty22, [0x03], [2], [3], 1⟩]

/-- The same of the other game. -/
def suohaHands : List SuohaHand := [⟨.ty20, [0x01], 1⟩, ⟨.ty30, [0x02], 2⟩, ⟨.ty22, [0x03], 1⟩]

/-- Two different hands of one chair change places, and a hand exchanged with itself is restored. -/
theorem exchange_hands_of_one_chair :
    (run (exchange TexasHand.copies) texasHands
        [⟨0, 2, ⟨.tysp, [], [], [], 0⟩⟩, ⟨1, 1, ⟨.tysp, [], [], [], 0⟩⟩] =
      some [⟨.ty22, [0x03], [2], [3], 1⟩, ⟨.ty30, [0x02], [1], [2], 2⟩, ⟨.ty20, [0x01], [0], [1], 1⟩] ∧
      ∀ pre post a₁,
        [⟨0, 2, ⟨.tysp, [], [], [], 0⟩⟩, ⟨1, 1, ⟨.tysp, [], [], [], 0⟩⟩] = pre ++ post →
          run (exchange TexasHand.copies) texasHands pre = some a₁ → a₁.Perm texasHands) ∧
    (run (exchange SuohaHand.copies) suohaHands
        [⟨0, 2, ⟨.tysp, [], 0⟩⟩, ⟨1, 1, ⟨.tysp, [], 0⟩⟩] =
      some [⟨.ty22, [0x03], 1⟩, ⟨.ty30, [0x02], 2⟩, ⟨.ty20, [0x01], 1⟩] ∧
      ∀ pre post a₁, [⟨0, 2, ⟨.tysp, [], 0⟩⟩, ⟨1, 1, ⟨.tysp, [], 0⟩⟩] = pre ++ post →
        run (exchange SuohaHand.copies) suohaHands pre = some a₁ → a₁.Perm suohaHands) := by
  obtain ⟨htexas, hsuoha⟩ := hands_permuted_iff_exchangeable texasHands _
    [⟨0, 2, ⟨.tysp, [], [], [], 0⟩⟩, ⟨1, 1, ⟨.tysp, [], [], [], 0⟩⟩] rfl
    suohaHands _ [⟨0, 2, ⟨.tysp, [], 0⟩⟩, ⟨1, 1, ⟨.tysp, [], 0⟩⟩] rfl
  refine ⟨⟨rfl, htexas.mpr (along_iff.mp ⟨?_, fun a₁ _ => ⟨?_, fun _ _ => trivial⟩⟩)⟩,
    rfl, hsuoha.mpr (along_iff.mp ⟨?_, fun a₁ _ => ⟨?_, fun _ _ => trivial⟩⟩)⟩
  · intro x y hx hy
    obtain rfl := Option.some.inj hx
    obtain rfl := Option.some.inj hy
    exact .inl rfl
  · intro x y hx hy
    exact .inl (by rw [Option.some.inj (hx.symm.trans hy)])
  · intro x y hx hy
    obtain rfl := Option.some.inj hx
    obtain rfl := Option.some.inj hy
    exact .inl rfl
  · intro x y hx hy
    exact .inl (by rw [Option.some.inj (hx.symm.trans hy)])

/-- One exchange of the hands of chairs 1 and 2 gives the cards of each to the other. -/
theorem exchange_two_chairs :
    (∃ b, run (exchange TexasHand.copies)
        [⟨.ty20, [0x01], [0], [1], 1⟩, ⟨.ty30, [0x02], [1], [2], 2⟩]
        [⟨0, 1, ⟨.tysp, [], [], [], 0⟩⟩] = some b ∧
      b = [⟨.ty30, [0x02], [1], [2], 1⟩, ⟨.ty20, [0x01], [0], [1], 2⟩] ∧
      ¬ b.Perm [⟨.ty20, [0x01], [0], [1], 1⟩, ⟨.ty30, [0x02], [1], [2], 2⟩]) ∧
    ∃ b, run (exchange SuohaHand.copies)
        [⟨.ty20, [0x01], 1⟩, ⟨.ty30, [0x02], 2⟩] [⟨0, 1, ⟨.tysp, [], 0⟩⟩] = some b ∧
      b = [⟨.ty30, [0x02], 1⟩, ⟨.ty20, [0x01], 2⟩] ∧
      ¬ b.Perm [⟨.ty20, [0x01], 1⟩, ⟨.ty30, [0x02], 2⟩] :=
  ⟨⟨_, rfl, rfl, by decide⟩, ⟨_, rfl, rfl, by decide⟩⟩

end CppServer.Poker
