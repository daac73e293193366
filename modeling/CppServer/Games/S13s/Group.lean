/-
# Three duns of a thirteen-card hand

`groupdun_t` of `Games/Game_s13s/s13s.h`: a thirteen-card hand is laid out in three groups of
cards (`dundata_t`, first 3 and then 5 and 5 cards), each with its type.  `assign` puts the first
cards into a dun and `append` completes it; both copy into an array of five bytes, and what keeps
them inside it are their assertions.
-/
import CppServer.Lib.Bytes
import CppServer.Lib.Run

namespace CppServer.S13s

/-- `HandTy`: the types of a dun, then the special types of a whole hand. -/
inductive HandTy where
  | tysp | ty20 | ty22 | ty30 | ty123 | tysc | ty32 | ty40 | ty123sc | tyAllBase
  | tyThreesc | tyThree123 | tySix20 | tyFive2030 | tyFour30 | tyTwo3220 | tyAllOneColor
  | tyAllSmall | tyAllBig | tyThree40 | tyThree123sc | ty12Royal | tyOneDragon | tyZZQDragon
deriving DecidableEq

/-- `DunTy`. -/
inductive DunTy where
  | dunNil | dunFirst | dunSecond | dunLast | dunMax
deriving DecidableEq

namespace DunTy

/-- The value of the enumerator. -/
def toInt : DunTy → ℤ
  | dunNil => -1
  | dunFirst => 0
  | dunSecond => 1
  | dunLast => 2
  | dunMax => 3

/-- `(int)(dt)` as an index of an array of `DunMax` duns. -/
def index : DunTy → Option (Fin 3)
  | dunFirst => some 0
  | dunSecond => some 1
  | dunLast => some 2
  | dunNil | dunMax => none

/-- `DunTy(i)`. -/
def ofIndex : Fin 3 → DunTy
  | 0 => dunFirst
  | 1 => dunSecond
  | 2 => dunLast

/-- The number of cards of a full dun, `(dt == DunFirst) ? 3 : 5`. -/
def capacity (dt : DunTy) : ℕ := if dt = dunFirst then 3 else 5

lemma index_eq_some_iff {dt : DunTy} {i : Fin 3} : dt.index = some i ↔ dt = ofIndex i := by
  revert i
  cases dt <;> decide

lemma index_eq_none_iff {dt : DunTy} : dt.index = none ↔ ∀ i, dt ≠ ofIndex i := by
  cases dt <;> decide

@[simp] lemma ofIndex_inj {i j : Fin 3} : ofIndex i = ofIndex j ↔ i = j := by
  revert i j
  decide

@[simp] lemma toInt_ofIndex (i : Fin 3) : (ofIndex i).toInt = i.val := by
  revert i
  decide

lemma ofIndex_ne_dunNil (i : Fin 3) : ofIndex i ≠ dunNil := by
  revert i
  decide

lemma capacity_le (dt : DunTy) : 3 ≤ dt.capacity ∧ dt.capacity ≤ 5 := by
  cases dt <;> decide

end DunTy

/-- `memcpy` of `len` bytes of `src` to the offset `off` of an array of five bytes. -/
def memcpyCards (cards : Vector UInt8 5) (off : ℕ) (src : Bytes) (len : ℤ) :
    Except Fault (Vector UInt8 5) :=
  if 0 ≤ len ∧ len ≤ src.length then
    match h : writeAt cards.toList off (src.take len.toNat) with
    | some b => .ok ⟨b.toArray, by simpa using length_writeAt h⟩
    | none => .error .outOfBounds
  else .error .outOfBounds

lemma memcpyCards_eq_ok {cards cards' : Vector UInt8 5} {off : ℕ} {src : Bytes} {len : ℤ} :
    memcpyCards cards off src len = .ok cards' ↔ 0 ≤ len ∧ len ≤ src.length ∧
      writeAt cards.toList off (src.take len.toNat) = some cards'.toList := by
  rw [memcpyCards]
  split
  · rename_i hlen
    split
    · rename_i b hb
      rw [Except.ok.injEq, ← Vector.toList_inj]
      simp [hlen, hb]
    · rename_i hb
      simp [hlen, hb]
  · rename_i hlen
    simp only [reduceCtorEq, false_iff]
    rintro ⟨h₀, h₁, -⟩
    exact hlen ⟨h₀, h₁⟩

/-- Cards that are copied behind others leave the rest of the array empty. -/
lemma toList_memcpyCards {cards cards' : Vector UInt8 5} {pre src : Bytes} {len : ℤ}
    (hcards : cards.toList = pre ++ List.replicate (5 - pre.length) 0)
    (hfit : pre.length + len ≤ 5) (h : memcpyCards cards pre.length src len = .ok cards') :
    (src.take len.toNat).length = len.toNat ∧
      cards'.toList = pre ++ src.take len.toNat ++
        List.replicate (5 - (pre.length + len.toNat)) 0 := by
  obtain ⟨hlen, hsrc, hwrite⟩ := memcpyCards_eq_ok.mp h
  have htake : (src.take len.toNat).length = len.toNat := by
    rw [List.length_take]
    omega
  have hroom : (src.take len.toNat).length ≤
      (List.replicate (5 - pre.length) (0 : UInt8)).length := by
    rw [htake, List.length_replicate]
    omega
  refine ⟨htake, ?_⟩
  rw [hcards, writeAt_append hroom, htake, List.drop_replicate, Nat.sub_sub] at hwrite
  exact (Option.some.inj hwrite).symm

/-- Cards that fit are copied inside the array. -/
lemma memcpyCards_ne_outOfBounds {cards : Vector UInt8 5} {off : ℕ} {src : Bytes} {len : ℤ}
    (hlen : 0 ≤ len) (hsrc : len ≤ src.length) (hfit : off + len ≤ 5) :
    memcpyCards cards off src len ≠ .error .outOfBounds := by
  rw [memcpyCards, if_pos ⟨hlen, hsrc⟩]
  split
  · simp
  · rename_i hb
    have htake : off + (src.take len.toNat).length ≤ cards.toList.length := by
      simp only [List.length_take, Vector.length_toList]
      omega
    rw [writeAt, if_pos htake] at hb
    exact absurd hb (by simp)

/-- `dundata_t`. -/
structure DunData where
  dt_ : DunTy
  ty_ : HandTy
  c : UInt8
  cards : Vector UInt8 5
deriving DecidableEq

/-- A dun after `Reset`, with its position. -/
def DunData.reset (dt : DunTy) : DunData := ⟨dt, .tysp, 0, Vector.replicate 5 0⟩

namespace DunData

/-- `dundata_t::assign`. -/
def assign (this : DunData) (dt : DunTy) (ty : HandTy) (src : Bytes) (len : ℤ) :
    Except Fault DunData := do
  require (0 < len)
  require (DunTy.dunNil.toInt < dt.toInt ∧ dt.toInt < DunTy.dunMax.toInt)
  require (len ≤ dt.capacity)
  require (this.ty_ = .tysp ∧ this.c = 0)
  let cards ← memcpyCards this.cards 0 src len
  return { dt_ := dt, ty_ := ty, c := UInt8.ofInt len, cards := cards }

/-- `dundata_t::needC`. -/
def needC (this : DunData) : Except Fault ℤ :=
  match this.dt_ with
  | .dunFirst => .ok (3 - this.c.toNat)
  | .dunSecond | .dunLast => .ok (5 - this.c.toNat)
  | .dunNil | .dunMax => .error .assertion

/-- `dundata_t::append`. -/
def append (this : DunData) (src : Bytes) (len : ℤ) : Except Fault DunData := do
  require (0 < len)
  require (DunTy.dunNil.toInt < this.dt_.toInt ∧ this.dt_.toInt < DunTy.dunMax.toInt)
  require (this.c.toNat + len = this.dt_.capacity)
  let cards ← memcpyCards this.cards this.c.toNat src len
  return { this with cards := cards, c := UInt8.ofInt (this.c.toNat + len) }

/-- `dundata_t::GetC`. -/
def getC (this : DunData) : ℤ := this.c.toNat

section Calls

variable {this d : DunData} {dt : DunTy} {ty : HandTy} {src : Bytes} {len : ℤ}

lemma assign_eq_ok : this.assign dt ty src len = .ok d ↔
    0 < len ∧ (DunTy.dunNil.toInt < dt.toInt ∧ dt.toInt < DunTy.dunMax.toInt) ∧
      len ≤ dt.capacity ∧ (this.ty_ = .tysp ∧ this.c = 0) ∧
      ∃ cards, memcpyCards this.cards 0 src len = .ok cards ∧
        ⟨dt, ty, UInt8.ofInt len, cards⟩ = d := by
  simp only [assign, require_bind_eq_ok]
  simp only [except_bind_eq_ok, pure, Except.pure, Except.ok.injEq]

lemma append_eq_ok : this.append src len = .ok d ↔
    0 < len ∧ (DunTy.dunNil.toInt < this.dt_.toInt ∧ this.dt_.toInt < DunTy.dunMax.toInt) ∧
      this.c.toNat + len = this.dt_.capacity ∧
      ∃ cards, memcpyCards this.cards this.c.toNat src len = .ok cards ∧
        { this with cards := cards, c := UInt8.ofInt (this.c.toNat + len) } = d := by
  simp only [append, require_bind_eq_ok]
  simp only [except_bind_eq_ok, pure, Except.pure, Except.ok.injEq]

lemma needC_eq {i : Fin 3} (h : this.dt_ = .ofIndex i) :
    this.needC = .ok ((DunTy.ofIndex i).capacity - this.c.toNat) := by
  rw [needC, h]
  match i with
  | 0 | 1 | 2 => rfl

/-- Cards that pass the assertions fit the array, whatever the dun held before. -/
lemma assign_ne_outOfBounds (hsrc : len ≤ src.length) :
    this.assign dt ty src len ≠ .error .outOfBounds := by
  have hcap := dt.capacity_le
  simp only [assign, ne_eq, require_bind_eq_outOfBounds]
  simp only [except_bind_eq_error, pure, Except.pure, reduceCtorEq, and_false, exists_false,
    or_false]
  rintro ⟨hpos, -, hle, -, hcopy⟩
  exact memcpyCards_ne_outOfBounds (by omega) hsrc (by omega) hcopy

lemma append_ne_outOfBounds (hsrc : len ≤ src.length) :
    this.append src len ≠ .error .outOfBounds := by
  have hcap := this.dt_.capacity_le
  simp only [append, ne_eq, require_bind_eq_outOfBounds]
  simp only [except_bind_eq_error, pure, Except.pure, reduceCtorEq, and_false, exists_false,
    or_false]
  rintro ⟨hpos, -, hfull, hcopy⟩
  exact memcpyCards_ne_outOfBounds (by omega) hsrc (by omega) hcopy

end Calls

end DunData

/-- `groupdun_t`. -/
structure GroupDun where
  start : DunTy
  specialTy : HandTy
  duns : Vector DunData 3
  deltascore : Int32
  chairID : Int32
deriving DecidableEq

namespace GroupDun

/-- The default constructor. -/
def make : GroupDun where
  specialTy := .tysp
  start := .dunNil
  duns := #v[DunData.reset .dunFirst, DunData.reset .dunSecond, DunData.reset .dunLast]
  deltascore := 0
  chairID := -1

/-- `groupdun_t::copy`. -/
def copy (this ref : GroupDun) : GroupDun :=
  { this with
    start := ref.start
    specialTy := ref.specialTy
    duns := ref.duns
    deltascore := ref.deltascore
    chairID := ref.chairID }

/-- The copy constructor.  What the members held before makes no difference, so the default
group stands for the uninitialised one. -/
def copyOf (ref : GroupDun) : GroupDun := make.copy ref

/-- `duns[i]`. -/
def dun (this : GroupDun) (i : Fin 3) : DunData := this.duns[i]

/-- A call of `duns[i]` that leaves it as `d`. -/
def setDun (this : GroupDun) (i : Fin 3) (d : DunData) : GroupDun :=
  { this with duns := this.duns.set i d }

lemma dun_setDun (this : GroupDun) (i j : Fin 3) (d : DunData) :
    (this.setDun i d).dun j = if i = j then d else this.dun j := by
  simp [dun, setDun, Vector.getElem_set, Fin.ext_iff]

@[simp] lemma start_setDun (this : GroupDun) (i : Fin 3) (d : DunData) :
    (this.setDun i d).start = this.start := rfl

@[simp] lemma dun_withStart (this : GroupDun) (start : DunTy) (i : Fin 3) :
    dun { this with start := start } i = this.dun i := rfl

/-- `groupdun_t::Reset`. -/
def reset (this : GroupDun) : GroupDun :=
  { this with
    start := .dunNil
    specialTy := .tysp
    duns := #v[DunData.reset .dunFirst, DunData.reset .dunSecond, DunData.reset .dunLast] }

/-- `groupdun_t::assign`. -/
def assign (this : GroupDun) (dt : DunTy) (ty : HandTy) (src : Bytes) (len : ℤ) :
    Except Fault GroupDun := do
  require (dt ≠ .dunNil)
  -- `start` moves before the dun makes its own checks
  let start :=
    if this.start = .dunNil ∨ dt.toInt < this.start.toInt then dt else this.start
  match dt.index with
  | none => .error .outOfBounds
  | some i =>
    let d ← (this.dun i).assign dt ty src len
    return setDun { this with start := start } i d

/-- `groupdun_t::needC`. -/
def needC (this : GroupDun) (dt : DunTy) : Except Fault ℤ :=
  match dt.index with
  | none => .error .outOfBounds
  | some i => (this.dun i).needC

/-- `groupdun_t::append`. -/
def append (this : GroupDun) (dt : DunTy) (src : Bytes) (len : ℤ) : Except Fault GroupDun :=
  match dt.index with
  | none => .error .outOfBounds
  | some i => do
    let d ← (this.dun i).append src len
    return this.setDun i d

/-- `groupdun_t::GetC`. -/
def getC (this : GroupDun) : ℤ :=
  (this.dun 0).getC + (this.dun 1).getC + (this.dun 2).getC

section Calls

variable {this g : GroupDun} {dt : DunTy} {ty : HandTy} {src : Bytes} {len : ℤ}

lemma assign_eq_ok : this.assign dt ty src len = .ok g ↔ ∃ i d, dt = .ofIndex i ∧
    (this.dun i).assign dt ty src len = .ok d ∧
      setDun { this with
        start := if this.start = .dunNil ∨ dt.toInt < this.start.toInt then dt else this.start }
        i d = g := by
  simp only [assign, require_bind_eq_ok]
  cases hdt : dt.index with
  | none => simp [DunTy.index_eq_none_iff.mp hdt]
  | some i =>
    obtain rfl := DunTy.index_eq_some_iff.mp hdt
    simp [except_bind_eq_ok, pure, Except.pure, DunTy.ofIndex_ne_dunNil]

lemma append_eq_ok : this.append dt src len = .ok g ↔ ∃ i d, dt = .ofIndex i ∧
    (this.dun i).append src len = .ok d ∧ this.setDun i d = g := by
  simp only [append]
  cases hdt : dt.index with
  | none => simp [DunTy.index_eq_none_iff.mp hdt]
  | some i =>
    obtain rfl := DunTy.index_eq_some_iff.mp hdt
    simp [except_bind_eq_ok, pure, Except.pure]

lemma needC_ofIndex (this : GroupDun) (i : Fin 3) :
    this.needC (.ofIndex i) = (this.dun i).needC := by
  rw [needC, DunTy.index_eq_some_iff.mpr rfl]

lemma assign_ne_outOfBounds {i : Fin 3} (hsrc : len ≤ src.length) :
    this.assign (.ofIndex i) ty src len ≠ .error .outOfBounds := by
  simp only [assign, ne_eq, require_bind_eq_outOfBounds, DunTy.index_eq_some_iff.mpr rfl]
  simp [except_bind_eq_error, pure, Except.pure, DunData.assign_ne_outOfBounds hsrc]

lemma append_ne_outOfBounds {i : Fin 3} (hsrc : len ≤ src.length) :
    this.append (.ofIndex i) src len ≠ .error .outOfBounds := by
  simp only [append, ne_eq, DunTy.index_eq_some_iff.mpr rfl]
  simp [except_bind_eq_error, pure, Except.pure, DunData.append_ne_outOfBounds hsrc]

end Calls

@[simp] lemma copy_eq (this ref : GroupDun) : this.copy ref = ref := rfl

@[simp] lemma copyOf_eq (ref : GroupDun) : copyOf ref = ref := rfl

end GroupDun

end CppServer.S13s
