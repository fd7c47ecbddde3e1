import Mathlib.Algebra.Order.Field.Power
import Mathlib.Data.Rat.Cast.Order
import Mathlib.Tactic.Positivity
import Mathlib.Tactic.Ring
import TableQuery.Decimal.Shortest

/-! # How long the shortest decimal of a number is

Powers with a negative exponent stand on the other side of a comparison of natural numbers, so the
comparisons are read over the rationals (`mul_pow_lt_iff`). A finite number is below `10 ^ (top + 1)`
for the place `top` of its leading digit that is worked out from its binary exponent
(`lt_of_decimalExponent`); so a decimal on the grid of `k` digits has a coefficient of at most
`10 ^ k`, and `k` goes up to seventeen. -/

namespace TableQuery.Binary64

variable {num den : Nat}

theorem mul_pow_lt_iff {b : Nat} (hb : 0 < b) (num den : Nat) (e : Int) :
    num * b ^ (-e).toNat < den * b ^ e.toNat ↔ (num : ℚ) < den * (b : ℚ) ^ e := by
  have pos : (0 : ℚ) < b := by exact_mod_cast hb
  obtain ⟨n, rfl | rfl⟩ := e.eq_nat_or_neg
  · simp only [Int.toNat_neg_natCast, pow_zero, mul_one, Int.toNat_natCast, zpow_natCast]
    exact_mod_cast Iff.rfl
  · simp only [neg_neg, Int.toNat_natCast, Int.toNat_neg_natCast, pow_zero, mul_one, zpow_neg, zpow_natCast]
    rw [← div_eq_mul_inv, lt_div_iff₀ (pow_pos pos n)]
    exact_mod_cast Iff.rfl

theorem lt_of_binaryExponent (hden : 0 < den) :
    (num : ℚ) < den * (2 : ℚ) ^ (binaryExponent num den + 1) := by
  have two := mul_pow_lt_iff (b := 2) (by decide) num den
  simp only [binaryExponent, Nat.pow_eq]
  split
  · rename_i h
    rw [sub_add_cancel]
    exact_mod_cast (two _).mp h
  · have top : (num : ℚ) < 2 ^ (Nat.log2 num + 1) := by exact_mod_cast Nat.lt_log2_self
    have bottom : (2 : ℚ) ^ Nat.log2 den ≤ den := by exact_mod_cast Nat.log2_self_le hden.ne'
    calc (num : ℚ) < 2 ^ (Nat.log2 num + 1) := top
      _ = 2 ^ Nat.log2 den * (2 : ℚ) ^ ((Nat.log2 num : Int) - Nat.log2 den + 1) := by
        rw [← zpow_natCast, ← zpow_natCast, ← zpow_add₀ (by norm_num)]
        congr 1
        push_cast
        ring
      _ ≤ den * (2 : ℚ) ^ ((Nat.log2 num : Int) - Nat.log2 den + 1) := by gcongr

theorem two_pow_le_ten_pow {m t : Nat} (h : 3011 * m ≤ 10000 * t) : 2 ^ m ≤ 10 ^ t := by
  have known : 2 ^ 10000 ≤ 10 ^ 3011 := by decide +kernel
  refine (Nat.pow_le_pow_iff_left (n := 10000) (by decide)).mp ?_
  calc (2 ^ m) ^ 10000 = (2 ^ 10000) ^ m := by rw [← pow_mul, ← pow_mul, Nat.mul_comm]
    _ ≤ (10 ^ 3011) ^ m := Nat.pow_le_pow_left known m
    _ = 10 ^ (3011 * m) := by rw [← pow_mul]
    _ ≤ 10 ^ (10000 * t) := Nat.pow_le_pow_right (by decide) h
    _ = (10 ^ t) ^ 10000 := by rw [← pow_mul, Nat.mul_comm]

theorem ten_pow_le_two_pow {m t : Nat} (h : 1000 * t ≤ 301 * m) : 10 ^ t ≤ 2 ^ m := by
  have known : 10 ^ 301 ≤ 2 ^ 1000 := by decide +kernel
  refine (Nat.pow_le_pow_iff_left (n := 1000) (by decide)).mp ?_
  calc (10 ^ t) ^ 1000 = 10 ^ (1000 * t) := by rw [← pow_mul, Nat.mul_comm]
    _ ≤ 10 ^ (301 * m) := Nat.pow_le_pow_right (by decide) h
    _ = (10 ^ 301) ^ m := by rw [← pow_mul]
    _ ≤ (2 ^ 1000) ^ m := Nat.pow_le_pow_left known m
    _ = (2 ^ m) ^ 1000 := by rw [← pow_mul, ← pow_mul, Nat.mul_comm]

/-- A number below `2 ^ b` has at most as many digits as the logarithm of two says, and one more: it
is taken as 0.30103, which is too much. -/
theorem two_zpow_le_ten_zpow {b : Int} (low : -10000 ≤ b) (high : b ≤ 10000) :
    (2 : ℚ) ^ b ≤ 10 ^ (b * 30103 / 100000 + 2) := by
  obtain ⟨m, rfl | rfl⟩ := b.eq_nat_or_neg
  · obtain ⟨t, ht⟩ : ∃ t : Nat, (m : Int) * 30103 / 100000 + 2 = t := ⟨_, (Int.toNat_of_nonneg (by omega)).symm⟩
    rw [ht, zpow_natCast, zpow_natCast]
    exact_mod_cast two_pow_le_ten_pow (by omega)
  · by_cases whole : 0 ≤ -(m : Int) * 30103 / 100000 + 2
    · calc (2 : ℚ) ^ (-(m : Int)) ≤ 1 := zpow_le_one_of_nonpos₀ (by norm_num) (by omega)
        _ ≤ 10 ^ (-(m : Int) * 30103 / 100000 + 2) := one_le_zpow₀ (by norm_num) whole
    · obtain ⟨t, ht⟩ : ∃ t : Nat, -(m : Int) * 30103 / 100000 + 2 = -t :=
        ⟨(-(-(m : Int) * 30103 / 100000 + 2)).toNat, by omega⟩
      rw [ht, zpow_neg, zpow_neg, zpow_natCast, zpow_natCast]
      refine inv_anti₀ (by positivity : (0 : ℚ) < 10 ^ t) ?_
      exact_mod_cast ten_pow_le_two_pow (by omega)

theorem lt_of_decimalExponentFrom {fuel : Nat} {e : Int} (h : (num : ℚ) < den * 10 ^ (e + 1)) :
    (num : ℚ) < den * 10 ^ (decimalExponentFrom num den fuel e + 1) := by
  induction fuel generalizing e with
  | zero => exact h
  | succ fuel ih =>
    rw [decimalExponentFrom]
    split
    · exact h
    · rename_i above
      refine ih ?_
      rw [sub_add_cancel]
      have ten := (mul_pow_lt_iff (b := 10) (by decide) num den e).mp (not_le.mp above)
      exact_mod_cast ten

theorem decimalExponentFrom_bounds (num den fuel : Nat) (e : Int) :
    e - fuel ≤ decimalExponentFrom num den fuel e ∧ decimalExponentFrom num den fuel e ≤ e := by
  induction fuel generalizing e with
  | zero => simp [decimalExponentFrom]
  | succ fuel ih =>
    rw [decimalExponentFrom]
    have := ih (e - 1)
    split <;> omega

theorem lt_of_decimalExponent (hden : 0 < den) (low : -9999 ≤ binaryExponent num den)
    (high : binaryExponent num den ≤ 9999) : (num : ℚ) < den * 10 ^ (decimalExponent num den + 1) := by
  have power := two_zpow_le_ten_zpow (b := binaryExponent num den + 1) (by omega) (by omega)
  refine lt_of_decimalExponentFrom ?_
  calc (num : ℚ) < den * (2 : ℚ) ^ (binaryExponent num den + 1) := lt_of_binaryExponent hden
    _ ≤ den * 10 ^ ((binaryExponent num den + 1) * 30103 / 100000 + 2) := by
      gcongr
    _ = den * 10 ^ ((binaryExponent num den + 1) * 30103 / 100000 + 1 + 1) := by rw [add_assoc]; rfl

/-- The candidates of a grid are the multiples next to the middle that lie in the span. -/
theorem Span.mem_onGrid_iff {s : Span} {e : Int} {n : Nat} : n ∈ s.onGrid e ↔
    (n = s.mid * 10 ^ (-e).toNat / (s.den * 10 ^ e.toNat) ∨
      n = s.mid * 10 ^ (-e).toNat / (s.den * 10 ^ e.toNat) + 1) ∧
    s.holds (10 ^ (-e).toNat) (n * (s.den * 10 ^ e.toNat)) = true := by
  simp only [onGrid, Nat.pow_eq, List.mem_filter]
  refine and_congr_left' ?_
  split
  · simp
  · simp [or_comm]

theorem Span.onGrid_bounds {s : Span} {e : Int} {digits n : Nat} (low : 0 < s.low)
    (below : (s.mid : ℚ) < s.den * 10 ^ (e + digits)) (h : n ∈ s.onGrid e) : 0 < n ∧ n ≤ 10 ^ digits := by
  obtain ⟨candidate, holds⟩ := mem_onGrid_iff.mp h
  constructor
  · -- zero is below the span
    refine Nat.pos_of_ne_zero ?_
    rintro rfl
    have positive : 0 < s.low * 10 ^ (-e).toNat := Nat.mul_pos low (Nat.pow_pos (by decide))
    unfold Span.holds at holds
    split at holds
    · simp at holds
      omega
    · simp at holds
  · have under : s.mid * 10 ^ (-e).toNat < s.den * 10 ^ digits * 10 ^ e.toNat := by
      refine (mul_pow_lt_iff (b := 10) (by decide) _ _ e).mpr ?_
      push_cast
      rw [mul_assoc, ← zpow_natCast, ← zpow_add₀ (by norm_num), add_comm]
      exact below
    have quotient : s.mid * 10 ^ (-e).toNat / (s.den * 10 ^ e.toNat) < 10 ^ digits := by
      refine Nat.div_lt_of_lt_mul ?_
      rwa [Nat.mul_right_comm] at under
    omega

theorem Span.shortestFrom_bounds {s : Span} {top : Int} {fuel digits : Nat} {d : Decimal} (low : 0 < s.low)
    (below : (s.mid : ℚ) < s.den * 10 ^ (top + 1)) (first : 1 ≤ digits) (last : digits + fuel ≤ 18)
    (h : s.shortestFrom top fuel digits = some d) :
    0 < d.coefficient ∧ d.coefficient ≤ 10 ^ 17 ∧ top - 16 ≤ d.exponent ∧ d.exponent ≤ top := by
  induction fuel generalizing digits with
  | zero => cases h
  | succ fuel ih =>
    rw [shortestFrom] at h
    split at h
    · rename_i n others grid
      cases h
      have below' : (s.mid : ℚ) < s.den * 10 ^ (top + 1 - digits + digits) := by rwa [sub_add_cancel]
      obtain ⟨pos, small⟩ := onGrid_bounds low below' (grid ▸ List.mem_cons_self)
      have digits_le : 10 ^ digits ≤ 10 ^ 17 := Nat.pow_le_pow_right (by decide) (by omega)
      refine ⟨pos, le_trans small digits_le, ?_, ?_⟩ <;> dsimp only <;> omega
    · exact ih (by omega) (by omega) h

/-! ### The span of a number -/

theorem binaryExponent_bounds {k m : Nat} (hnum : num ≤ 2 ^ k) (hden : den ≤ 2 ^ m) :
    -(m : Int) - 1 ≤ binaryExponent num den ∧ binaryExponent num den ≤ k := by
  have bound {n k : Nat} (h : n ≤ 2 ^ k) : Nat.log2 n ≤ k := by
    by_cases zero : n = 0
    · simp [zero]
    · exact (Nat.pow_le_pow_iff_right (by decide)).mp (le_trans (Nat.log2_self_le zero) h)
  have := bound hnum
  have := bound hden
  simp only [binaryExponent]
  split <;> omega

section
variable {x : Binary64}

theorem pattern_pos (h : x.isZero = false) : 0 < x.pattern := by
  simp only [isZero, beq_eq_false_iff_ne] at h
  omega

theorem significand_pos (h : x.isZero = false) : 0 < x.significand := by
  have := pattern_pos h
  unfold significand
  split
  · assumption
  · exact Nat.lt_of_lt_of_le (by decide) (Nat.le_add_right _ _)

theorem significand_lt (x : Binary64) : x.significand < 2 ^ 53 := by
  unfold significand
  have := Nat.mod_lt x.pattern (y := 2 ^ 52) (by decide)
  simp only [Nat.pow_eq] at *
  split <;> omega

theorem scale_bounds (h : x.isFinite = true) : -1074 ≤ x.scale ∧ x.scale ≤ 971 := by
  have small : x.pattern < 2047 * 2 ^ 52 := of_decide_eq_true h
  have exponent : x.pattern / 2 ^ 52 < 2047 := Nat.div_lt_of_lt_mul (by omega)
  unfold scale
  simp only [Nat.pow_eq]
  split <;> omega

theorem low_span_pos (h : x.isZero = false) : 0 < x.span.low := by
  have := significand_pos h
  have up : 0 < Nat.pow 2 x.scale.toNat := Nat.pow_pos (by decide)
  refine Nat.mul_pos ?_ up
  split <;> omega

theorem mid_span_le (h : x.isFinite = true) : x.span.mid ≤ 2 ^ (2 + 53 + 971) := by
  have up : x.scale.toNat ≤ 971 := Int.toNat_le.mpr (scale_bounds h).2
  calc x.span.mid = 2 ^ 2 * x.significand * 2 ^ x.scale.toNat := rfl
    _ ≤ 2 ^ 2 * 2 ^ 53 * 2 ^ 971 := by
      have := (significand_lt x).le
      gcongr
      decide
    _ = 2 ^ (2 + 53 + 971) := by rw [pow_add, pow_add]

theorem den_span_pos (x : Binary64) : 0 < x.span.den := Nat.mul_pos (by decide) (Nat.pow_pos (by decide))

theorem den_span_le (h : x.isFinite = true) : x.span.den ≤ 2 ^ (2 + 1074) := by
  have down : (-x.scale).toNat ≤ 1074 := Int.toNat_le.mpr (by have := (scale_bounds h).1; omega)
  calc x.span.den = 2 ^ 2 * 2 ^ (-x.scale).toNat := rfl
    _ ≤ 2 ^ 2 * 2 ^ 1074 := by gcongr; decide
    _ = 2 ^ (2 + 1074) := by rw [pow_add]

theorem binaryExponent_span (h : x.isFinite = true) :
    -1077 ≤ binaryExponent x.span.mid x.span.den ∧ binaryExponent x.span.mid x.span.den ≤ 1026 :=
  binaryExponent_bounds (mid_span_le h) (den_span_le h)

theorem decimalExponent_span (h : x.isFinite = true) :
    -380 ≤ decimalExponent x.span.mid x.span.den ∧ decimalExponent x.span.mid x.span.den ≤ 380 := by
  have := binaryExponent_span h
  have := decimalExponentFrom_bounds x.span.mid x.span.den 4
    ((binaryExponent x.span.mid x.span.den + 1) * 30103 / 100000 + 1)
  unfold decimalExponent
  omega

theorem mid_span_below (h : x.isFinite = true) :
    (x.span.mid : ℚ) < x.span.den * 10 ^ (decimalExponent x.span.mid x.span.den + 1) := by
  have near := binaryExponent_span h
  exact lt_of_decimalExponent (den_span_pos x) (by omega) (by omega)

/-- A decimal of at most seventeen digits, or ten to the seventeenth, with an exponent of three
digits and none with a zero. -/
structure Compact (d : Decimal) : Prop where
  coefficient : d.coefficient ≤ 10 ^ 17
  zero : d.coefficient = 0 → d.exponent = 0
  low : -400 ≤ d.exponent
  high : d.exponent ≤ 400

theorem compact_shortest (h : x.isFinite = true) : Compact x.shortest := by
  have nothing : Compact ⟨0, 0⟩ := ⟨by decide, fun _ => rfl, by decide, by decide⟩
  unfold shortest
  split
  · exact nothing
  rename_i nonzero
  have low := low_span_pos (by simpa using nonzero)
  obtain ⟨least, most⟩ := decimalExponent_span h
  dsimp only
  split
  · rename_i d found
    obtain ⟨pos, small, low', high⟩ :=
      Span.shortestFrom_bounds low (mid_span_below h) le_rfl (by decide) found
    split
    · exact ⟨by norm_num, nofun, by dsimp only; omega, by dsimp only; omega⟩
    · exact ⟨small, fun zero => absurd zero pos.ne', by omega, by omega⟩
  · exact nothing

end

end TableQuery.Binary64
