/-
# Values of the Redis client

`RedisValue` of `public/RedisClient/RedisClient.h` is a map from keys to values that are kept as
text.  A number is assigned through `long double`, whose text has a point and six zeros, and read
back by one of the conversions `stoi`, `stol` and `stoll`.  `asUInt` is built on `asInt`, so it
has the range of a signed `int`.
-/
import CppServer.Lib.Decimal

namespace CppServer.Public

/-- `redis::RedisValItem`. -/
structure RedisValItem where
  val : Bytes
deriving DecidableEq

namespace RedisValItem

/-- `RedisValItem::asInt`.  A conversion that throws has no result. -/
def asInt (this : RedisValItem) : Option Int32 :=
  if this.val = [] then some 0 else stoi this.val

/-- `RedisValItem::asUInt`. -/
def asUInt (this : RedisValItem) : Option UInt32 :=
  if this.val = [] then some 0 else this.asInt.map Int32.toUInt32

/-- `RedisValItem::asLong`. -/
def asLong (this : RedisValItem) : Option Int64 :=
  if this.val = [] then some 0 else stol this.val

/-- `RedisValItem::asInt64`. -/
def asInt64 (this : RedisValItem) : Option Int64 :=
  if this.val = [] then some 0 else stoll this.val

/-- `operator=(std::string)`. -/
def assignString (_this : RedisValItem) (value : Bytes) : RedisValItem := ⟨value⟩

/-- `operator=(long double)`. -/
def assignLongDouble (_this : RedisValItem) (value : LongDouble) : RedisValItem :=
  ⟨toStringLongDouble value⟩

end RedisValItem

/-- `redis::RedisValue`. -/
structure RedisValue where
  listval : Bytes → Option RedisValItem

namespace RedisValue

/-- `RedisValue::operator[]`: the map, with an item for the key, and that item. -/
def at_ (this : RedisValue) (key : Bytes) : RedisValue × RedisValItem :=
  match this.listval key with
  | some item => (this, item)
  | none => (⟨Function.update this.listval key (some ⟨[]⟩)⟩, ⟨[]⟩)

/-- An assignment to the item for the key: `redisValue[key] = …`. -/
def modify (this : RedisValue) (key : Bytes) (f : RedisValItem → RedisValItem) : RedisValue :=
  ⟨Function.update (this.at_ key).1.listval key (some (f (this.at_ key).2))⟩

/-- `redisValue[key] = value` for a string. -/
def setString (this : RedisValue) (key value : Bytes) : RedisValue :=
  this.modify key fun item => item.assignString value

/-- `redisValue[key] = value` for a number. -/
def setNumber (this : RedisValue) (key : Bytes) (value : LongDouble) : RedisValue :=
  this.modify key fun item => item.assignLongDouble value

end RedisValue

/-- An assignment to one of the keys. -/
inductive Assignment where
  | string (key value : Bytes)
  | number (key : Bytes) (value : LongDouble)

/-- The key that is assigned to. -/
def Assignment.key : Assignment → Bytes
  | .string key _ => key
  | .number key _ => key

/-- The assignment. -/
def RedisValue.perform (this : RedisValue) : Assignment → RedisValue
  | .string key value => this.setString key value
  | .number key value => this.setNumber key value

/-! ## The map -/

section Map

variable {r : RedisValue} {key key' : Bytes}

lemma at_modify_self (f : RedisValItem → RedisValItem) :
    ((r.modify key f).at_ key).2 = f (r.at_ key).2 := by
  simp [RedisValue.modify, RedisValue.at_]

lemma at_modify_of_ne (hne : key ≠ key') (f : RedisValItem → RedisValItem) :
    ((r.modify key' f).at_ key).2 = (r.at_ key).2 := by
  have hmap : (r.modify key' f).listval key = r.listval key := by
    have hmodify : (r.modify key' f).listval key = (r.at_ key').1.listval key :=
      Function.update_of_ne hne ..
    rw [hmodify, RedisValue.at_]
    split
    · rfl
    · exact Function.update_of_ne hne ..
  rw [RedisValue.at_, RedisValue.at_, hmap]
  split <;> rfl

/-- Assignments to other keys leave an item alone. -/
lemma at_foldl_perform {others : List Assignment} (hothers : ∀ a ∈ others, a.key ≠ key) :
    ((others.foldl RedisValue.perform r).at_ key).2 = (r.at_ key).2 := by
  induction others generalizing r with
  | nil => rfl
  | cons a others ih =>
    rw [List.foldl_cons, ih fun a' h => hothers a' (List.mem_cons_of_mem a h)]
    have hne : a.key ≠ key := hothers a List.mem_cons_self
    cases a with
    | string key' value =>
      exact at_modify_of_ne (r := r) hne.symm fun item => item.assignString value
    | number key' value =>
      exact at_modify_of_ne (r := r) hne.symm fun item => item.assignLongDouble value

/-- The item of a key after a number was assigned to it and others to other keys. -/
lemma at_setNumber (r : RedisValue) {others : List Assignment}
    (hothers : ∀ a ∈ others, a.key ≠ key) (value : LongDouble) :
    ((others.foldl RedisValue.perform (r.setNumber key value)).at_ key).2 =
      ⟨toStringLongDouble value⟩ := by
  rw [at_foldl_perform hothers]
  exact at_modify_self _

end Map

/-! ## The conversions -/

section Conversions

variable {n : ℤ} {h : n.natAbs < 2 ^ 64}

lemma toStringLongDouble_ne_nil : toStringLongDouble (.ofInt n h) ≠ [] := by
  rw [toStringLongDouble_ofInt, decimal]
  simp [digits_ne_nil]

/-- The text of an integer is converted back if it is in the range of the conversion, which
throws otherwise. -/
lemma stox_toStringLongDouble (lo hi : ℤ) :
    stox lo hi (toStringLongDouble (.ofInt n h)) = if lo ≤ n ∧ n ≤ hi then some n else none := by
  have hread : strtol (toStringLongDouble (.ofInt n h)) = some n := by
    rw [toStringLongDouble_ofInt]
    exact strtol_decimal_append n rfl _
  rw [stox, hread, Option.filter_some]
  simp

/-- `asInt` gives back the integers in the range of `int`. -/
lemma asInt_toStringLongDouble :
    (RedisValItem.mk (toStringLongDouble (.ofInt n h))).asInt =
      if -2 ^ 31 ≤ n ∧ n < 2 ^ 31 then some (Int32.ofInt n) else none := by
  have hrange : (Int32.minValue.toInt ≤ n ∧ n ≤ Int32.maxValue.toInt) ↔
      -2 ^ 31 ≤ n ∧ n < 2 ^ 31 :=
    and_congr Iff.rfl (Int.le_sub_one_iff (m := n) (n := 2 ^ 31))
  rw [RedisValItem.asInt, if_neg toStringLongDouble_ne_nil, stoi, stox_toStringLongDouble]
  simp only [hrange]
  split <;> rfl

/-- `asLong` and `asInt64` give back the integers of 64 bits. -/
lemma stoll_toStringLongDouble (v : Int64) :
    stoll (toStringLongDouble (.ofInt64 v)) = some v := by
  rw [stoll, LongDouble.ofInt64, stox_toStringLongDouble, if_pos ⟨v.minValue_le_toInt, v.toInt_le⟩,
    Option.map_some, Int64.ofInt_toInt]

end Conversions

/-- **Which integers survive.**  After a number was assigned to a key, and others to other keys,
`asInt`, `asLong` and `asInt64` give back every value of their types, and `asUInt` gives back
exactly the values below `2^31`. -/
theorem integers_survive_iff (r : RedisValue) (key : Bytes) (others : List Assignment)
    (hothers : ∀ a ∈ others, a.key ≠ key) :
    (∀ v : Int32, ((others.foldl RedisValue.perform
      (r.setNumber key (.ofInt32 v))).at_ key).2.asInt = some v) ∧
    (∀ v : UInt32, ((others.foldl RedisValue.perform
      (r.setNumber key (.ofUInt32 v))).at_ key).2.asUInt = some v ↔ v.toNat < 2 ^ 31) ∧
    (∀ v : Int64, ((others.foldl RedisValue.perform
      (r.setNumber key (.ofInt64 v))).at_ key).2.asLong = some v) ∧
    (∀ v : Int64, ((others.foldl RedisValue.perform
      (r.setNumber key (.ofInt64 v))).at_ key).2.asInt64 = some v) := by
  simp only [at_setNumber r hothers]
  refine ⟨fun v => ?_, fun v => ?_, fun v => ?_, fun v => ?_⟩
  · rw [LongDouble.ofInt32, asInt_toStringLongDouble, if_pos ⟨v.le_toInt, v.toInt_lt⟩,
      Int32.ofInt_toInt]
  · rw [RedisValItem.asUInt, LongDouble.ofUInt32, if_neg toStringLongDouble_ne_nil,
      asInt_toStringLongDouble]
    constructor
    · intro h
      by_contra hge
      rw [if_neg (by omega)] at h
      exact absurd h (by simp)
    · intro hlt
      rw [if_pos (by omega), Option.map_some, Int32.ofInt_eq_ofNat, Int32.toUInt32_ofNat',
        UInt32.ofNat_toNat]
  · rw [RedisValItem.asLong, LongDouble.ofInt64, if_neg toStringLongDouble_ne_nil]
    exact stoll_toStringLongDouble v
  · rw [RedisValItem.asInt64, LongDouble.ofInt64, if_neg toStringLongDouble_ne_nil]
    exact stoll_toStringLongDouble v

/-- The largest score and the largest unsigned value below `2^31` survive an assignment to another
key. -/
theorem largest_values_survive :
    ((((RedisValue.mk fun _ => none).setNumber (ascii "score") (.ofInt64 Int64.maxValue)).perform
      (.string (ascii "name") (ascii "x"))).at_ (ascii "score")).2.asInt64 =
        some Int64.maxValue ∧
    ((((RedisValue.mk fun _ => none).setNumber (ascii "userid") (.ofUInt32 2147483647)).perform
      (.string (ascii "name") (ascii "x"))).at_ (ascii "userid")).2.asUInt = some 2147483647 := by
  have hscore := integers_survive_iff ⟨fun _ => none⟩ (ascii "score")
    [.string (ascii "name") (ascii "x")] (by decide)
  have huserid := integers_survive_iff ⟨fun _ => none⟩ (ascii "userid")
    [.string (ascii "name") (ascii "x")] (by decide)
  exact ⟨hscore.2.2.2 Int64.maxValue, (huserid.2.1 2147483647).mpr (by decide)⟩

/-- `stoi` throws for the text of `2^31`. -/
theorem large_user_id_lost :
    (((RedisValue.mk fun _ => none).setNumber (ascii "userid") (.ofUInt32 2147483648)).at_
      (ascii "userid")).2.asUInt = none := by
  have hitem : (((RedisValue.mk fun _ => none).setNumber (ascii "userid")
      (.ofUInt32 2147483648)).at_ (ascii "userid")).2 =
      ⟨toStringLongDouble (.ofUInt32 2147483648)⟩ := at_modify_self _
  rw [hitem, RedisValItem.asUInt, LongDouble.ofUInt32, if_neg toStringLongDouble_ne_nil,
    asInt_toStringLongDouble, if_neg (by decide)]
  rfl

end CppServer.Public
