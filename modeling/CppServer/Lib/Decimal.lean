/-
# Numbers as decimal text

Numbers are written as text by `printf` and read by `strtol`.  A `long double` is a significand
of 64 bits with a power of two, so all integers of 64 bits are among its values; `%Lf` writes it
with six digits behind the point, rounded to the nearest.  `strtol` reads an optional sign and
the digits up to the first other character, so that an integer which was written with a point is
read back.
-/
import Mathlib.Data.Rat.Floor
import CppServer.Lib.Bytes

namespace CppServer

/-! ## Digits -/

/-- The decimal digits of a number. -/
def digits (n : ℕ) : Bytes := (Nat.toDigits 10 n).map Char.toUInt8

/-- `isdigit`. -/
def isDigit (b : UInt8) : Bool := 48 ≤ b && b ≤ 57

/-- `isspace`. -/
def isSpace (b : UInt8) : Bool := b = 32 || (9 ≤ b && b ≤ 13)

/-- The number that digits stand for. -/
def digitsValue (s : Bytes) : ℕ := s.foldl (fun n b => 10 * n + (b.toNat - 48)) 0

lemma digits_ne_nil (n : ℕ) : digits n ≠ [] := by
  simp [digits]

lemma toNat_toUInt8_of_isDigit {c : Char} (h : c.isDigit = true) : c.toUInt8.toNat = c.toNat := by
  have hle : c.toNat ≤ 57 := (Char.isDigit_iff_toNat.mp h).2
  show c.toNat % 256 = c.toNat
  omega

lemma isDigit_of_mem_digits {n : ℕ} {b : UInt8} (hb : b ∈ digits n) : isDigit b = true := by
  obtain ⟨c, hc, rfl⟩ := List.mem_map.mp hb
  have hdigit := Nat.isDigit_of_mem_toDigits (by omega) le_rfl hc
  have hrange := Char.isDigit_iff_toNat.mp hdigit
  have hnat := toNat_toUInt8_of_isDigit hdigit
  simp only [isDigit, Bool.and_eq_true, decide_eq_true_eq, UInt8.le_iff_toNat_le]
  exact ⟨by rw [hnat]; exact hrange.1, by rw [hnat]; exact hrange.2⟩

/-- The first digit is neither a space nor a sign. -/
lemma exists_digits_eq_cons (n : ℕ) :
    ∃ d ds, digits n = d :: ds ∧ isSpace d = false ∧ d ≠ 45 ∧ d ≠ 43 := by
  obtain ⟨d, ds, hd⟩ := List.exists_cons_of_ne_nil (digits_ne_nil n)
  have hdigit : isDigit d = true := isDigit_of_mem_digits (n := n) (by simp [hd])
  have hrange : 48 ≤ d.toNat ∧ d.toNat ≤ 57 := by
    simpa [isDigit, UInt8.le_iff_toNat_le] using hdigit
  have hspace : ¬ d.toNat = 32 ∧ ¬ d.toNat ≤ 13 := by omega
  refine ⟨d, ds, hd, ?_, ?_, ?_⟩
  · simp [isSpace, ← UInt8.toNat_inj, UInt8.le_iff_toNat_le, hspace]
  · rintro rfl
    exact absurd hrange.1 (by decide)
  · rintro rfl
    exact absurd hrange.1 (by decide)

/-- The digits of a number stand for it. -/
lemma digitsValue_digits (n : ℕ) : digitsValue (digits n) = n := by
  have hvalue : digitsValue (digits n) = Nat.ofDigitChars 10 (Nat.toDigits 10 n) 0 := by
    rw [digitsValue, digits, List.foldl_map, Nat.ofDigitChars_eq_foldl]
    refine List.foldl_ext _ _ 0 fun k c hc => ?_
    rw [toNat_toUInt8_of_isDigit (Nat.isDigit_of_mem_toDigits (by omega) le_rfl hc)]
    rfl
  rw [hvalue, Nat.ofDigitChars_ten_toDigits]

/-! ## Reading -/

/-- The digits at the front of a text, if there are any. -/
def readDigits (s : Bytes) : Option ℕ :=
  if s.takeWhile isDigit = [] then none else some (digitsValue (s.takeWhile isDigit))

/-- `strtol` and `strtoll` in base 10, without their limits. -/
def strtol (s : Bytes) : Option ℤ :=
  match s.dropWhile isSpace with
  | [] => none
  | b :: s =>
    if b = 45 then (readDigits s).map fun n : ℕ => -(n : ℤ)
    else if b = 43 then (readDigits s).map fun n : ℕ => (n : ℤ)
    else (readDigits (b :: s)).map fun n : ℕ => (n : ℤ)

/-- A conversion that throws if there is no number or if it is outside the range. -/
def stox (lo hi : ℤ) (s : Bytes) : Option ℤ :=
  (strtol s).filter fun n => lo ≤ n ∧ n ≤ hi

/-- `std::stoi`. -/
def stoi (s : Bytes) : Option Int32 :=
  (stox Int32.minValue.toInt Int32.maxValue.toInt s).map Int32.ofInt

/-- `std::stol`, for a `long` of 64 bits. -/
def stol (s : Bytes) : Option Int64 :=
  (stox Int64.minValue.toInt Int64.maxValue.toInt s).map Int64.ofInt

/-- `std::stoll`. -/
def stoll (s : Bytes) : Option Int64 :=
  (stox Int64.minValue.toInt Int64.maxValue.toInt s).map Int64.ofInt

/-- Digits are read up to the next character. -/
lemma readDigits_digits_append (n : ℕ) {b : UInt8} (hb : isDigit b = false) (rest : Bytes) :
    readDigits (digits n ++ b :: rest) = some n := by
  have htake : (digits n ++ b :: rest).takeWhile isDigit = digits n := by
    rw [List.takeWhile_append_of_pos fun _ => isDigit_of_mem_digits, List.takeWhile_cons, hb]
    simp
  rw [readDigits, htake, if_neg (digits_ne_nil n), digitsValue_digits]

/-- Digits are read up to the end. -/
lemma readDigits_digits (n : ℕ) : readDigits (digits n) = some n := by
  have htake : (digits n).takeWhile isDigit = digits n :=
    List.takeWhile_eq_self_iff.mpr fun _ => isDigit_of_mem_digits
  rw [readDigits, htake, if_neg (digits_ne_nil n), digitsValue_digits]

/-- An integer with its sign. -/
def decimal (n : ℤ) : Bytes := (if n < 0 then [45] else []) ++ digits n.natAbs

/-- An integer is read back, whatever follows it. -/
lemma strtol_decimal_append (n : ℤ) {b : UInt8} (hb : isDigit b = false) (rest : Bytes) :
    strtol (decimal n ++ b :: rest) = some n := by
  by_cases hn : n < 0
  · have htext : (decimal n ++ b :: rest).dropWhile isSpace =
        45 :: (digits n.natAbs ++ b :: rest) := by
      rw [decimal, if_pos hn]
      rfl
    have hread : strtol (decimal n ++ b :: rest) =
        (readDigits (digits n.natAbs ++ b :: rest)).map fun n : ℕ => -(n : ℤ) := by
      rw [strtol, htext]
      rfl
    rw [hread, readDigits_digits_append n.natAbs hb, Option.map_some, Option.some.injEq]
    omega
  · obtain ⟨d, ds, hd, hspace, hminus, hplus⟩ := exists_digits_eq_cons n.natAbs
    have htext : (decimal n ++ b :: rest).dropWhile isSpace = d :: (ds ++ b :: rest) := by
      rw [decimal, if_neg hn, List.nil_append, hd, List.cons_append, List.dropWhile_cons, hspace]
      rfl
    have hread : strtol (decimal n ++ b :: rest) =
        (readDigits (digits n.natAbs ++ b :: rest)).map fun n : ℕ => (n : ℤ) := by
      simp only [strtol, htext, if_neg hminus, if_neg hplus, hd, List.cons_append]
    rw [hread, readDigits_digits_append n.natAbs hb, Option.map_some, Option.some.injEq]
    omega

/-! ## Writing -/

/-- A finite `long double` of the x86: a significand of 64 bits, a sign and a power of two. -/
structure LongDouble where
  significand : ℤ
  exponent : ℤ
  significand_lt : significand.natAbs < 2 ^ 64
  exponent_range : -16445 ≤ exponent ∧ exponent ≤ 16320

namespace LongDouble

/-- The number that is represented. -/
def value (x : LongDouble) : ℚ := x.significand * 2 ^ x.exponent

/-- The conversion of an integer of at most 64 bits, which is exact. -/
def ofInt (n : ℤ) (h : n.natAbs < 2 ^ 64) : LongDouble := ⟨n, 0, h, by decide⟩

@[simp] lemma value_ofInt (n : ℤ) (h : n.natAbs < 2 ^ 64) : (ofInt n h).value = n := by
  simp [value, ofInt]

/-- The conversions of the types that are assigned. -/
def ofInt32 (v : Int32) : LongDouble := ofInt v.toInt (by
  have hl := v.le_toInt
  have hu := v.toInt_lt
  omega)

/-- Of an `unsigned int`. -/
def ofUInt32 (v : UInt32) : LongDouble := ofInt v.toNat (by
  have hu := v.toNat_lt
  omega)

/-- Of a `long` or an `int64_t`. -/
def ofInt64 (v : Int64) : LongDouble := ofInt v.toInt (by
  have hl := v.le_toInt
  have hu := v.toInt_lt
  omega)

end LongDouble

/-- The nearest natural number, the even one of two. -/
def roundHalfEven (q : ℚ) : ℕ :=
  let n := q.floor.toNat
  if q - n < 1 / 2 ∨ q - n = 1 / 2 ∧ n % 2 = 0 then n else n + 1

lemma roundHalfEven_natCast (n : ℕ) : roundHalfEven n = n := by
  have hfloor : (n : ℚ).floor.toNat = n := by
    rw [← Int.cast_natCast, Rat.floor_intCast, Int.toNat_natCast]
  simp [roundHalfEven, hfloor]

/-- `std::to_string(long double)`, which is `printf` with `%Lf`. -/
def toStringLongDouble (x : LongDouble) : Bytes :=
  let n := roundHalfEven (|x.value| * 10 ^ 6)
  (if x.value < 0 then [45] else []) ++ digits (n / 10 ^ 6) ++ 46 ::
    List.leftpad 6 48 (digits (n % 10 ^ 6))

/-- An integer has six zeros behind the point. -/
lemma toStringLongDouble_ofInt (n : ℤ) (h : n.natAbs < 2 ^ 64) :
    toStringLongDouble (.ofInt n h) = decimal n ++ ascii ".000000" := by
  have hround : roundHalfEven (|(n : ℚ)| * 10 ^ 6) = n.natAbs * 10 ^ 6 := by
    have hcast : |(n : ℚ)| * 10 ^ 6 = ((n.natAbs * 10 ^ 6 : ℕ) : ℚ) := by
      rw [Nat.cast_mul, Nat.cast_natAbs, Int.cast_abs, Nat.cast_pow]
      rfl
    rw [hcast, roundHalfEven_natCast]
  have hsign : ((n : ℚ) < 0) ↔ n < 0 := Int.cast_lt_zero
  have hzeros : List.leftpad 6 48 (digits 0) = ascii "000000" := by decide
  simp only [toStringLongDouble, LongDouble.value_ofInt, hround, hsign,
    Nat.mul_div_cancel _ (show 0 < 10 ^ 6 by decide), Nat.mul_mod_left, hzeros, decimal]
  rfl

end CppServer
