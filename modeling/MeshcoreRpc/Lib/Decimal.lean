import MeshcoreRpc.Lib.Scanning
import Mathlib.Algebra.Order.Field.Rat
import Mathlib.Tactic.FieldSimp
import Mathlib.Tactic.NormNum

/-!
# Decimal text

Numbers padded with zeros, numbers with a fixed count of decimals, and the
readers of both.
-/

namespace Decimal

open Scanning

/-- The decimal digits of a number, with zeros in front up to the width. -/
def padded (width n : ℕ) : List Char :=
  List.replicate (width - (Nat.toDigits 10 n).length) '0' ++ Nat.toDigits 10 n

/-- The number at the front of a text, with how many digits it has. -/
def scanDigits (cs : List Char) : Option ((ℕ × ℕ) × List Char) :=
  let digits := cs.takeWhile Char.isDigit
  if digits = [] then none
  else some ((Nat.ofDigitChars 10 digits 0, digits.length), cs.dropWhile Char.isDigit)

/-- The number at the front of a text. -/
def scanNat (cs : List Char) : Option (ℕ × List Char) :=
  (scanDigits cs).map fun r ↦ (r.1.1, r.2)

/-- The text after this character. -/
def expect (c : Char) : List Char → Option (List Char)
  | [] => none
  | d :: cs => if d = c then some cs else none

@[simp] theorem expect_cons (c : Char) (cs : List Char) : expect c (c :: cs) = some cs := by
  rw [expect, if_pos rfl]

theorem padded_digits (width n : ℕ) : ∀ c ∈ padded width n, c.isDigit = true := by
  intro c hc
  rcases List.mem_append.mp hc with hc | hc
  · obtain rfl := (List.mem_replicate.mp hc).2
    decide
  · exact Nat.isDigit_of_mem_toDigits (by omega) (by omega) hc

theorem padded_ne_nil (width n : ℕ) : padded width n ≠ [] := by
  have hpos : 0 < (Nat.toDigits 10 n).length := Nat.length_toDigits_pos
  intro hnil
  rw [padded, List.append_eq_nil_iff] at hnil
  rw [hnil.2] at hpos
  simp at hpos

theorem padded_value (width n : ℕ) : Nat.ofDigitChars 10 (padded width n) 0 = n := by
  rw [padded, Nat.ofDigitChars_append, Nat.ofDigitChars_replicate_zero, Nat.mul_zero,
    Nat.ofDigitChars_ten_toDigits]

/-- A number that fits has exactly as many digits. -/
theorem length_padded {width n : ℕ} (hwidth : 0 < width) (h : n < 10 ^ width) :
    (padded width n).length = width := by
  have hle := (Nat.length_toDigits_le_iff (b := 10) (by omega) hwidth).mpr h
  rw [padded, List.length_append, List.length_replicate]
  omega

theorem scanDigits_padded (width n : ℕ) (rest : List Char) (hrest : Stops Char.isDigit rest) :
    scanDigits (padded width n ++ rest) = some ((n, (padded width n).length), rest) := by
  have htake := takeWhile_stops (padded_digits width n) hrest
  have hdrop := dropWhile_stops (padded_digits width n) hrest
  simp only [scanDigits, htake, hdrop, if_neg (padded_ne_nil width n), padded_value]

theorem scanNat_padded (width n : ℕ) (rest : List Char) (hrest : Stops Char.isDigit rest) :
    scanNat (padded width n ++ rest) = some (n, rest) := by
  rw [scanNat, scanDigits_padded width n rest hrest, Option.map_some]

/-! ## Decimals -/

/-- So many units of the last of `k` decimals. -/
def fixed (k n : ℕ) : List Char := padded 1 (n / 10 ^ k) ++ '.' :: padded k (n % 10 ^ k)

/-- A number with decimals. -/
def unsigned (cs : List Char) : Option ℚ := do
  let (whole, rest) ← scanDigits cs
  let rest ← expect '.' rest
  let (decimals, rest) ← scanDigits rest
  if rest = [] then some (whole.1 + decimals.1 / 10 ^ decimals.2) else none

/-- A number with decimals and perhaps a sign. -/
def signed : List Char → Option ℚ
  | [] => none
  | c :: cs => if c = '-' then (unsigned cs).map fun q ↦ -q else unsigned (c :: cs)

theorem unsigned_fixed {k : ℕ} (hk : 0 < k) (n : ℕ) :
    unsigned (fixed k n) = some ((n : ℚ) / 10 ^ k) := by
  have hpow : 0 < 10 ^ k := Nat.pow_pos (by omega)
  have hwhole := scanDigits_padded 1 (n / 10 ^ k) ('.' :: padded k (n % 10 ^ k))
    (stops_cons.mpr (by decide))
  have hdecimals := scanDigits_padded k (n % 10 ^ k) [] stops_nil
  rw [List.append_nil, length_padded hk (Nat.mod_lt n hpow)] at hdecimals
  have hsum : ((n / 10 ^ k : ℕ) : ℚ) + ((n % 10 ^ k : ℕ) : ℚ) / 10 ^ k = (n : ℚ) / 10 ^ k := by
    have hdiv : (n : ℚ) = 10 ^ k * ((n / 10 ^ k : ℕ) : ℚ) + ((n % 10 ^ k : ℕ) : ℚ) := by
      exact_mod_cast (Nat.div_add_mod n (10 ^ k)).symm
    have hne : (10 : ℚ) ^ k ≠ 0 := pow_ne_zero k (by norm_num)
    rw [hdiv]
    field_simp
  simp [unsigned, fixed, hwhole, hdecimals, hsum]

theorem fixed_head (k n : ℕ) : ∃ c cs, fixed k n = c :: cs ∧ c ≠ '-' := by
  obtain ⟨c, cs, hcs⟩ := List.exists_cons_of_ne_nil (padded_ne_nil 1 (n / 10 ^ k))
  refine ⟨c, cs ++ '.' :: padded k (n % 10 ^ k), by rw [fixed, hcs, List.cons_append], ?_⟩
  rintro rfl
  have hdigit := padded_digits 1 (n / 10 ^ k) '-' (by rw [hcs]; exact List.mem_cons_self)
  exact absurd hdigit (by decide)

theorem signed_fixed {k : ℕ} (hk : 0 < k) (n : ℕ) :
    signed (fixed k n) = some ((n : ℚ) / 10 ^ k) := by
  obtain ⟨c, cs, hcs, hc⟩ := fixed_head k n
  have hread := unsigned_fixed hk n
  rw [hcs] at hread ⊢
  rw [signed, if_neg hc, hread]

theorem signed_minus {k : ℕ} (hk : 0 < k) (n : ℕ) :
    signed ('-' :: fixed k n) = some (-((n : ℚ) / 10 ^ k)) := by
  rw [signed, if_pos rfl, unsigned_fixed hk n, Option.map_some]

end Decimal
