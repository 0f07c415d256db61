import Mathlib.Data.Int.Log
import Mathlib.Data.Rat.Floor
import Mathlib.Tactic.Linarith
import Mathlib.Tactic.Positivity

/-!
# Rounding to double precision

The number a 64-bit float holds where a conversion or an operation asks for `q`.
The exponent has no upper bound here; what is too large is for the caller to say.
-/

namespace Binary64

/-- The nearest integer; halves go to the even neighbour. -/
def halfEven (q : ℚ) : ℤ :=
  if q - ⌊q⌋ < 1 / 2 then ⌊q⌋
  else if 1 / 2 < q - ⌊q⌋ then ⌊q⌋ + 1
  else if ⌊q⌋ % 2 = 0 then ⌊q⌋ else ⌊q⌋ + 1

/-- The weight of the last binary place of the floats near `q`. -/
def ulp (q : ℚ) : ℚ := 2 ^ max (Int.log 2 |q| - 52) (-1074)

/-- The float nearest to `q`. -/
def round (q : ℚ) : ℚ := halfEven (q / ulp q) * ulp q

example : round (1 / 10) = 3602879701896397 / 2 ^ 55 := by decide +kernel

example : round (2 ^ 53 + 1) = 2 ^ 53 := by decide +kernel

theorem halfEven_cases (q : ℚ) : halfEven q = ⌊q⌋ ∨ halfEven q = ⌊q⌋ + 1 := by
  unfold halfEven
  split
  · exact .inl rfl
  · split
    · exact .inr rfl
    · split
      · exact .inl rfl
      · exact .inr rfl

@[simp] theorem halfEven_intCast (n : ℤ) : halfEven n = n := by
  have hsmall : (n : ℚ) - ⌊(n : ℚ)⌋ < 1 / 2 := by
    rw [Int.floor_intCast, sub_self]
    norm_num
  rw [halfEven, if_pos hsmall, Int.floor_intCast]

theorem abs_halfEven_le (q : ℚ) : |(halfEven q : ℚ)| ≤ |q| + 1 := by
  have hle := Int.floor_le q
  have hlt := Int.lt_floor_add_one q
  have habs := neg_abs_le q
  have habs' := le_abs_self q
  rw [abs_le]
  rcases halfEven_cases q with h | h
  · rw [h]
    constructor <;> linarith
  · rw [h]
    push_cast
    constructor <;> linarith

theorem halfEven_nonneg {q : ℚ} (h : 0 ≤ q) : 0 ≤ halfEven q := by
  have hfloor : 0 ≤ ⌊q⌋ := Int.floor_nonneg.mpr h
  rcases halfEven_cases q with hq | hq <;> omega

theorem ulp_pos (q : ℚ) : 0 < ulp q := zpow_pos two_pos _

theorem ulp_le (q : ℚ) : ulp q ≤ |q| + 1 := by
  have hone : (1 : ℚ) ≤ 2 := by norm_num
  have hsmall : (2 : ℚ) ^ (-1074 : ℤ) ≤ 1 := zpow_le_one_of_nonpos₀ hone (by norm_num)
  have hnonneg := abs_nonneg q
  unfold ulp
  rcases le_total (Int.log 2 |q| - 52) (-1074) with h | h
  · rw [max_eq_right h]
    linarith
  · rw [max_eq_left h]
    rcases eq_or_ne q 0 with rfl | hq
    · norm_num
    · have hlog : (2 : ℚ) ^ (Int.log 2 |q| - 52) ≤ 2 ^ Int.log 2 |q| :=
        zpow_le_zpow_right₀ hone (by omega)
      have hself := Int.zpow_log_le_self (R := ℚ) one_lt_two (abs_pos.mpr hq)
      norm_cast at hself hlog ⊢
      linarith

theorem abs_round_le (q : ℚ) : |round q| ≤ 2 * |q| + 1 := by
  have hpos := ulp_pos q
  have hscaled : |q / ulp q| * ulp q = |q| := by
    rw [abs_div, abs_of_pos hpos, div_mul_cancel₀ _ hpos.ne']
  calc |round q| = |(halfEven (q / ulp q) : ℚ)| * ulp q := by
        rw [round, abs_mul, abs_of_pos hpos]
    _ ≤ (|q / ulp q| + 1) * ulp q :=
        mul_le_mul_of_nonneg_right (abs_halfEven_le _) hpos.le
    _ = |q| + ulp q := by rw [add_mul, one_mul, hscaled]
    _ ≤ 2 * |q| + 1 := by linarith [ulp_le q]

theorem round_nonneg {q : ℚ} (h : 0 ≤ q) : 0 ≤ round q := by
  have hpos := (ulp_pos q).le
  exact mul_nonneg (by exact_mod_cast halfEven_nonneg (div_nonneg h hpos)) hpos

/-- A whole number of last places is kept. -/
theorem round_of_multiple {q : ℚ} {m : ℤ} (h : q = m * ulp q) : round q = q := by
  have hdiv : q / ulp q = m := by
    rw [div_eq_iff (ulp_pos q).ne']
    exact h
  rw [round, hdiv, halfEven_intCast]
  exact h.symm

@[simp] theorem round_zero : round 0 = 0 := round_of_multiple (m := 0) (by simp)

@[simp] theorem round_one : round 1 = 1 := by
  decide +kernel

/-- An integer of at most 53 bits is kept. -/
theorem round_intCast {n : ℤ} (h : |n| ≤ 2 ^ 53) : round n = n := by
  rcases eq_or_ne n 0 with rfl | hn
  · simp
  have hlog : Int.log 2 |(n : ℚ)| = Nat.log 2 n.natAbs := by
    rw [← Int.cast_abs, Int.abs_eq_natAbs, Int.cast_natCast, Int.log_natCast]
  rcases (Nat.lt_or_ge n.natAbs (2 ^ 53)) with hlt | hge
  · have hbits : Nat.log 2 n.natAbs < 53 := Nat.log_lt_of_lt_pow (by omega) hlt
    refine round_of_multiple (m := n * 2 ^ (52 - Nat.log 2 n.natAbs)) ?_
    have hexp : max (Int.log 2 |(n : ℚ)| - 52) (-1074) =
        -((52 - Nat.log 2 n.natAbs : ℕ) : ℤ) := by
      rw [hlog]
      omega
    rw [ulp, hexp, zpow_neg, zpow_natCast]
    push_cast
    rw [mul_assoc, mul_inv_cancel₀ (by positivity), mul_one]
  · have habs : (n.natAbs : ℤ) ≤ 2 ^ 53 := by rwa [← Int.abs_eq_natAbs]
    have hexact : n.natAbs = 2 ^ 53 := by omega
    have hulp : ulp n = 2 := by
      rw [ulp, hlog, hexact, Nat.log_pow one_lt_two]
      norm_num
    rcases Int.natAbs_eq n with hpos | hneg
    · refine round_of_multiple (m := 2 ^ 52) ?_
      rw [hulp, hpos, hexact]
      norm_num
    · refine round_of_multiple (m := -2 ^ 52) ?_
      rw [hulp, hneg, hexact]
      norm_num

end Binary64
