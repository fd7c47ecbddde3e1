import TableQuery.Proofs.Decimal.Digits
import TableQuery.Proofs.Decimal.Nearest

/-! # The nearest number to a decimal

The place of the leading digit of a decimal bounds its value from both sides. Beyond the places where
the answer is known without the power, the bounds show that it is also the nearest
(`roundsTo_toBinary64`). -/

namespace TableQuery.Decimal

open Binary64 (limit RoundsTo)

/-- The exact magnitude of a decimal. -/
def value (d : Decimal) : ℚ := d.coefficient * 10 ^ d.exponent

section
variable {d : Decimal} {negative : Bool}

theorem value_eq_div (d : Decimal) :
    ((d.coefficient * Nat.pow 10 d.exponent.toNat : Nat) : ℚ) / (Nat.pow 10 (-d.exponent).toNat : Nat) = d.value := by
  rw [value]
  obtain ⟨k, exponent | exponent⟩ := d.exponent.eq_nat_or_neg
  · simp [exponent]
  · simp [exponent, div_eq_mul_inv]

theorem value_nonneg (d : Decimal) : 0 ≤ d.value := by
  unfold value
  positivity

theorem value_lt (d : Decimal) : d.value < 10 ^ ((digitsOf d.coefficient).length + d.exponent) := by
  have digits : (d.coefficient : ℚ) < 10 ^ (digitsOf d.coefficient).length := by
    exact_mod_cast lt_ten_pow_length d.coefficient
  calc d.value < 10 ^ (digitsOf d.coefficient).length * 10 ^ d.exponent := by
        unfold value
        gcongr
    _ = 10 ^ ((digitsOf d.coefficient).length + d.exponent) := by rw [zpow_add₀ (by norm_num), zpow_natCast]

theorem le_value (h : 0 < d.coefficient) :
    10 ^ ((digitsOf d.coefficient).length + d.exponent - 1) ≤ d.value := by
  have digits : (10 : ℚ) ^ ((digitsOf d.coefficient).length - 1) ≤ d.coefficient := by
    exact_mod_cast ten_pow_length_le h
  have length : 0 < (digitsOf d.coefficient).length := List.length_pos_iff.mpr (digitsOf_ne_nil _)
  calc (10 : ℚ) ^ ((digitsOf d.coefficient).length + d.exponent - 1)
      = 10 ^ ((digitsOf d.coefficient).length - 1) * 10 ^ d.exponent := by
        rw [← zpow_natCast, ← zpow_add₀ (by norm_num)]
        congr 1
        omega
    _ ≤ d.value := by
      unfold value
      gcongr

theorem limit_le_ten_pow : limit ≤ 10 ^ (309 : ℤ) := by
  have power : (2 : ℚ) ^ 1024 ≤ 10 ^ 309 := by
    exact_mod_cast Binary64.two_pow_le_ten_pow (m := 1024) (t := 309) (by decide)
  calc limit ≤ 2 ^ (53 : ℤ) * 2 ^ (971 : ℤ) := by
        unfold limit
        gcongr
        norm_num
    _ = 2 ^ (1024 : ℤ) := by rw [← zpow_add₀ (by norm_num)]; rfl
    _ ≤ 10 ^ (309 : ℤ) := by exact_mod_cast power

theorem ten_pow_le_half_least : 2 * (10 : ℚ) ^ (-331 : ℤ) ≤ 2 ^ (-1074 : ℤ) := by
  have power : (2 : ℚ) ^ 1075 ≤ 10 ^ 331 := by
    exact_mod_cast Binary64.two_pow_le_ten_pow (m := 1075) (t := 331) (by decide)
  calc 2 * (10 : ℚ) ^ (-331 : ℤ) ≤ 2 * 2 ^ (-1075 : ℤ) := by
        rw [zpow_neg, zpow_neg]
        gcongr
        exact_mod_cast power
    _ = 2 ^ (-1074 : ℤ) := by
      rw [show (-1074 : ℤ) = 1 + -1075 from rfl, zpow_add₀ (by norm_num), zpow_one]

theorem isNegative_toBinary64 : (d.toBinary64 negative).isNegative = negative := by
  have zero : (Binary64.zero negative).isNegative = negative := Binary64.isNegative_ofPattern (by decide)
  have infinity : (Binary64.infinity negative).isNegative = negative := Binary64.isNegative_ofPattern (by decide)
  unfold toBinary64
  dsimp only
  split
  · exact zero
  split
  · exact infinity
  split
  · exact zero
  · exact Binary64.isNegative_nearest

/-- The exact value of a decimal is rounded once. -/
theorem roundsTo_toBinary64 (d : Decimal) (negative : Bool) : RoundsTo d.value (d.toBinary64 negative) := by
  unfold toBinary64
  dsimp only
  split
  · rename_i hzero
    exact Binary64.roundsTo_zero (value_nonneg d) (by simp [value, hzero])
  rename_i hne
  split
  · rename_i large
    have above : limit ≤ d.value :=
      calc limit ≤ 10 ^ (309 : ℤ) := limit_le_ten_pow
        _ ≤ 10 ^ ((digitsOf d.coefficient).length + d.exponent - 1) :=
          zpow_le_zpow_right₀ (by norm_num) (by omega)
        _ ≤ d.value := le_value (Nat.pos_of_ne_zero hne)
    have infinite : (Binary64.infinity negative).isFinite = false := by cases negative <;> rfl
    exact ⟨iff_of_false (by simp [infinite]) above.not_gt, fun below => absurd below above.not_gt⟩
  split
  · rename_i small
    refine Binary64.roundsTo_zero (value_nonneg d) ?_
    calc 2 * d.value ≤ 2 * 10 ^ ((digitsOf d.coefficient).length + d.exponent) := by
          have := (value_lt d).le
          gcongr
      _ ≤ 2 * 10 ^ (-331 : ℤ) := by
        gcongr
        · norm_num
        · omega
      _ ≤ 2 ^ (-1074 : ℤ) := ten_pow_le_half_least
  · rw [← value_eq_div]
    exact Binary64.roundsTo_nearest (Nat.pow_pos (by decide))

end

end TableQuery.Decimal
