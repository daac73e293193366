/-
# Numbers in a row and their residues

Any `n` numbers in a row have `n` different residues modulo `n`.  A counter that wraps around
does not go up by one at one place of the row; the residues of the row are then different
exactly if the jump is invisible modulo `n`.
-/
import Mathlib.Data.Int.ModEq

namespace CppServer

/-- Numbers in a row, counted from `a` in the first `k` places and from `b` behind them. -/
def jumpAt (a b : ℤ) (k i : ℕ) : ℤ := if i < k then a + i else b + i

/-- The first `n` of the numbers have `n` different residues. -/
def ResiduesDiffer (f : ℕ → ℤ) (n : ℕ) : Prop :=
  ∀ i < n, ∀ j < n, f i % n = f j % n → i = j

section Residues

variable {a b : ℤ} {k n : ℕ}

lemma residuesDiffer_congr {f g : ℕ → ℤ} (h : ∀ i < n, f i = g i) :
    ResiduesDiffer f n ↔ ResiduesDiffer g n := by
  refine forall₂_congr fun i hi => forall₂_congr fun j hj => ?_
  rw [h i hi, h j hj]

/-- Numbers that are a row modulo `n`. -/
lemma residuesDiffer_of_modEq {f : ℕ → ℤ} (h : ∀ i, f i ≡ a + i [ZMOD n]) :
    ResiduesDiffer f n := by
  intro i hi j hj hij
  have hmod : a + i ≡ a + j [ZMOD n] := (h i).symm.trans (Int.ModEq.trans hij (h j))
  have hnat : i ≡ j [MOD n] := Int.natCast_modEq_iff.mp (Int.ModEq.add_left_cancel' a hmod)
  exact Nat.ModEq.eq_of_lt_of_lt hnat hi hj

/-- A jump that shows modulo `n` brings back a residue from before it. -/
lemma exists_same_residue (hk : 0 < k) (hkn : k < n) (h : ¬ (n : ℤ) ∣ b - a) :
    ∃ i < k, ∃ j < n, k ≤ j ∧ (a + i) % n = (b + j) % n := by
  obtain ⟨d, hd⟩ : ∃ d : ℕ, (d : ℤ) = (b - a) % n :=
    ⟨((b - a) % n).toNat, Int.toNat_of_nonneg (Int.emod_nonneg _ (by omega))⟩
  have hdpos : 0 < d := by
    have hne : (b - a) % n ≠ 0 := fun h0 => h (Int.dvd_of_emod_eq_zero h0)
    omega
  have hdlt : d < n := by
    have hlt := Int.emod_lt_of_pos (b - a) (b := n) (by omega)
    omega
  -- the place `j` behind the jump has the residue of the place `d + j` of the row before it
  have hrow : ∀ i j : ℕ, (i : ℤ) ≡ d + j [ZMOD n] → (a + i) % n = (b + j) % n := by
    intro i j hij
    have hb : a + d ≡ b [ZMOD n] := by
      have hmod : (d : ℤ) ≡ b - a [ZMOD n] := by
        rw [hd]
        exact Int.mod_modEq _ _
      calc a + d ≡ a + (b - a) [ZMOD n] := hmod.add_left a
        _ = b := by omega
    calc a + i ≡ a + (d + j) [ZMOD n] := hij.add_left a
      _ = a + d + j := by omega
      _ ≡ b + j [ZMOD n] := hb.add_right j
  by_cases hle : k ≤ n - d
  · refine ⟨0, hk, n - d, by omega, hle, hrow _ _ ?_⟩
    have hsum : (d : ℤ) + ((n - d : ℕ) : ℤ) = n := by omega
    rw [hsum]
    exact (Int.emod_self (a := (n : ℤ))).symm
  · refine ⟨d + k - n, by omega, k, hkn, le_rfl, hrow _ _ ?_⟩
    have hsum : (d : ℤ) + (k : ℤ) = ((d + k - n : ℕ) : ℤ) + n := by omega
    rw [hsum]
    exact (Int.add_modEq_right).symm

/-- **A row with a jump.**  Its residues are different exactly if the jump does not show modulo
`n`, or is not in the row. -/
theorem residuesDiffer_jumpAt_iff :
    ResiduesDiffer (jumpAt a b k) n ↔ (0 < k → k < n → (n : ℤ) ∣ b - a) := by
  constructor
  · intro h hk hkn
    by_contra hdvd
    obtain ⟨i, hi, j, hj, hkj, hij⟩ := exists_same_residue hk hkn hdvd
    have heq := h i (by omega) j hj (by rw [jumpAt, jumpAt, if_pos hi, if_neg (by omega), hij])
    omega
  · intro h
    by_cases hk : 0 < k
    · by_cases hkn : k < n
      · refine residuesDiffer_of_modEq (a := a) fun i => ?_
        rw [jumpAt]
        split
        · exact Int.ModEq.rfl
        · exact ((Int.modEq_iff_dvd.mpr (h hk hkn)).symm).add_right _
      · intro i hi j hj hij
        rw [jumpAt, jumpAt, if_pos (by omega), if_pos (by omega)] at hij
        exact residuesDiffer_of_modEq (f := fun i : ℕ => a + i) (fun _ => Int.ModEq.rfl)
          i hi j hj hij
    · refine residuesDiffer_of_modEq (a := b) fun i => ?_
      rw [jumpAt, if_neg (by omega)]

end Residues

end CppServer
