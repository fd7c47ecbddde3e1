import Mathlib.Algebra.Order.Field.Basic
import Mathlib.Tactic.FieldSimp
import Mathlib.Tactic.Linarith
import TableQuery.Proofs.Decimal.Shortest

/-! # The nearest number

A finite number is `significand · 2 ^ scale`, and its pattern counts the numbers below it
(`pattern_eq`). What `nearest` answers for a quotient is the finite number closest to it, the even one
of two (`IsNearest`), as long as the quotient is below `limit`; from there on it is infinity. The
argument is on one grid, that of the scale taken for the quotient: rounding on the grid is rounding to
a whole number (`IsRound`), and the numbers that lie between the points of the grid are further away
than its first point of 53 digits. -/

namespace TableQuery.Binary64

/-- The exact magnitude of a finite number. -/
def magnitude (x : Binary64) : ℚ := x.significand * 2 ^ x.scale

/-- Half a unit above the largest number. -/
def limit : ℚ := (2 ^ 53 - 1 / 2) * 2 ^ (971 : ℤ)

/-- `x` is the finite number whose magnitude is closest to `q`, and has an even significand if another
is equally close. -/
structure IsNearest (q : ℚ) (x : Binary64) : Prop where
  finite : x.isFinite = true
  closest : ∀ y : Binary64, y.isFinite = true → |x.magnitude - q| ≤ |y.magnitude - q|
  even : ∀ y : Binary64, y.isFinite = true → y.magnitude ≠ x.magnitude →
    |y.magnitude - q| = |x.magnitude - q| → x.significand % 2 = 0

/-- `x` is what `q` is rounded to, its sign apart: no finite number from `limit` on. -/
structure RoundsTo (q : ℚ) (x : Binary64) : Prop where
  finite : x.isFinite = true ↔ q < limit
  nearest : q < limit → IsNearest q x

section
variable {x y : Binary64} {negative : Bool} {p : Nat}

theorem toNat_bits_ofPattern (h : p < 2 ^ 63) :
    (ofPattern negative p).bits.toNat = if negative then 2 ^ 63 + p else p := by
  have small : (if negative then 2 ^ 63 + p else p) < 2 ^ 64 := by split <;> omega
  exact Nat.mod_eq_of_lt small

theorem pattern_ofPattern (h : p < 2 ^ 63) : (ofPattern negative p).pattern = p := by
  rw [pattern, toNat_bits_ofPattern h, signPattern, Nat.pow_eq]
  split <;> omega

theorem isNegative_ofPattern (h : p < 2 ^ 63) : (ofPattern negative p).isNegative = negative := by
  rw [isNegative, toNat_bits_ofPattern h, signPattern, Nat.pow_eq]
  cases negative
  · exact decide_eq_false (by simpa using h)
  · exact decide_eq_true (Nat.le_add_right _ _)

/-- A number is its sign and its pattern. -/
theorem eq_of_pattern (sign : x.isNegative = y.isNegative) (pattern : x.pattern = y.pattern) : x = y := by
  have hx := x.bits.toNat_lt
  have hy := y.bits.toNat_lt
  have high : signPattern ≤ x.bits.toNat ↔ signPattern ≤ y.bits.toNat := decide_eq_decide.mp sign
  simp only [Binary64.pattern, signPattern, Nat.pow_eq] at high pattern
  have bits : x.bits.toNat = y.bits.toNat := by omega
  cases x
  cases y
  exact congrArg Binary64.mk (UInt64.toNat_inj.mp bits)

/-- A step of the significand is a step of the pattern, and a step of the scale one of `2 ^ 52`. -/
theorem pattern_eq (x : Binary64) : (x.pattern : ℤ) = (x.scale + 1074) * 2 ^ 52 + x.significand := by
  simp only [scale, significand, Nat.pow_eq]
  split <;> omega

theorem le_scale (x : Binary64) : -1074 ≤ x.scale := by
  simp only [scale, Nat.pow_eq]
  split <;> omega

/-- Only the smallest numbers have a significand of less than 53 digits. -/
theorem lowest_or_normal (x : Binary64) : x.scale = -1074 ∨ 2 ^ 52 ≤ x.significand := by
  simp only [scale, significand, Nat.pow_eq]
  split <;> omega

theorem significand_mod_two (x : Binary64) : x.significand % 2 = x.pattern % 2 := by
  have := pattern_eq x
  have := le_scale x
  omega

/-- Patterns are ordered as the magnitudes. -/
theorem magnitude_lt (h : x.pattern < y.pattern) : x.magnitude < y.magnitude := by
  have hx := pattern_eq x
  have hy := pattern_eq y
  have digits := significand_lt x
  have normal := lowest_or_normal x
  have normal' := lowest_or_normal y
  have digits' := significand_lt y
  have least := le_scale x
  have least' := le_scale y
  have scales : x.scale = y.scale ∧ x.significand < y.significand ∨ x.scale + 1 ≤ y.scale ∧ 2 ^ 52 ≤ y.significand := by
    omega
  unfold magnitude
  obtain ⟨same, less⟩ | ⟨above, normal⟩ := scales
  · rw [same]
    gcongr
  · calc (x.significand : ℚ) * 2 ^ x.scale < 2 ^ 53 * 2 ^ x.scale := by
          gcongr
          exact_mod_cast digits
      _ = 2 ^ 52 * 2 ^ (x.scale + 1) := by
        rw [zpow_add₀ (by norm_num)]
        ring
      _ ≤ y.significand * 2 ^ y.scale := by
        gcongr
        · exact_mod_cast normal
        · norm_num

/-- Two numbers of one sign are not both the nearest: next to each other, one would be odd, and else
the next one up from the smaller would be closer. -/
theorem IsNearest.unique {q : ℚ} (hx : IsNearest q x) (hy : IsNearest q y) (sign : x.isNegative = y.isNegative) :
    x = y := by
  have tie : |x.magnitude - q| = |y.magnitude - q| :=
    le_antisymm (hx.closest y hy.finite) (hy.closest x hx.finite)
  by_contra different
  wlog less : x.pattern < y.pattern generalizing x y
  · have patterns : x.pattern ≠ y.pattern := fun same => different (eq_of_pattern sign same)
    exact this hy hx sign.symm tie.symm (Ne.symm different) (by omega)
  have apart := magnitude_lt less
  have even := hx.even y hy.finite apart.ne' tie.symm
  have even' := hy.even x hx.finite apart.ne tie
  rw [significand_mod_two] at even even'
  -- the two are even, so a number lies between them
  have top : y.pattern < 2047 * 2 ^ 52 := of_decide_eq_true hy.finite
  have next : (ofPattern false (x.pattern + 1)).pattern = x.pattern + 1 := pattern_ofPattern (by omega)
  have finite : (ofPattern false (x.pattern + 1)).isFinite = true := by
    rw [isFinite, next]
    exact decide_eq_true (by unfold infinityPattern; simp only [Nat.pow_eq]; omega)
  have above := magnitude_lt (x := x) (y := ofPattern false (x.pattern + 1)) (by omega)
  have below := magnitude_lt (x := ofPattern false (x.pattern + 1)) (y := y) (by omega)
  have closest := hx.closest _ finite
  grind

end

/-! ### Rounding to a whole number -/

/-- `n` is the whole number nearest to `w`, the even one of two. -/
structure IsRound (w : ℚ) (n : Nat) : Prop where
  near : |(n : ℚ) - w| ≤ 1 / 2
  even : |(n : ℚ) - w| = 1 / 2 → n % 2 = 0

section
variable {w : ℚ} {k n num den : Nat}

theorem isRound_roundHalfEven (hden : 0 < den) : IsRound (num / den) (roundHalfEven num den) := by
  have pos : (0 : ℚ) < den := by exact_mod_cast hden
  have split : (num : ℚ) / den = (num / den : Nat) + (num % den : Nat) / (den : ℚ) := by
    rw [div_eq_iff pos.ne', add_mul, div_mul_cancel₀ _ pos.ne']
    exact_mod_cast (Nat.div_add_mod' num den).symm
  have less : (num % den : Nat) / (den : ℚ) < 1 := by
    rw [div_lt_one pos]
    exact_mod_cast Nat.mod_lt num hden
  have low : (num % den : Nat) / (den : ℚ) < 1 / 2 ↔ 2 * (num % den) < den := by
    rw [div_lt_div_iff₀ pos two_pos, one_mul, mul_comm]
    exact_mod_cast Iff.rfl
  have high : 1 / 2 < (num % den : Nat) / (den : ℚ) ↔ den < 2 * (num % den) := by
    rw [div_lt_div_iff₀ two_pos pos, one_mul, mul_comm]
    exact_mod_cast Iff.rfl
  have nonneg : (0 : ℚ) ≤ (num % den : Nat) / (den : ℚ) := by positivity
  rw [split, roundHalfEven]
  generalize ((num % den : Nat) : ℚ) / den = part at *
  split
  · constructor <;> grind
  split
  · constructor <;> grind
  -- halfway
  · have half : part = 1 / 2 := by grind
    rw [half]
    generalize num / den = q
    rcases Nat.mod_two_eq_zero_or_one q with even | odd
    · rw [even, Nat.add_zero]
      constructor <;> grind
    · rw [odd]
      constructor <;> grind

/-- No whole number is nearer. -/
theorem IsRound.closest (h : IsRound w n) (k : Nat) : |(n : ℚ) - w| ≤ |(k : ℚ) - w| := by
  have near := h.near
  rcases lt_trichotomy k n with less | rfl | greater
  · have : (k : ℚ) + 1 ≤ n := by exact_mod_cast less
    grind
  · exact le_rfl
  · have : (n : ℚ) + 1 ≤ k := by exact_mod_cast greater
    grind

theorem IsRound.even_of_tie (h : IsRound w n) (apart : k ≠ n) (tie : |(k : ℚ) - w| = |(n : ℚ) - w|) : n % 2 = 0 := by
  refine h.even (le_antisymm h.near ?_)
  rcases lt_or_gt_of_ne apart with less | greater
  · have : (k : ℚ) + 1 ≤ n := by exact_mod_cast less
    grind
  · have : (n : ℚ) + 1 ≤ k := by exact_mod_cast greater
    grind

/-- The last number below an even bound is odd, so a half above it goes up to the bound. -/
theorem IsRound.lt_iff {b : Nat} (h : IsRound w n) (even : b % 2 = 0) : n < b ↔ w < b - 1 / 2 := by
  have near := h.near
  constructor
  · intro below
    rcases Nat.lt_or_eq_of_le (Nat.succ_le_of_lt below) with less | rfl
    · have : (n : ℚ) + 2 ≤ b := by exact_mod_cast less
      grind
    · have untied : |(n : ℚ) - w| ≠ 1 / 2 := fun tie => by
        have := h.even tie
        omega
      push_cast
      grind
  · intro below
    have : (n : ℚ) < b := by grind
    exact_mod_cast this

end

/-! ### The grid of a quotient -/

/-- Units of `2 ^ e` suit `q`: it has no more than 53 digits before the point, and no fewer unless the
units are the smallest. -/
structure Suits (q : ℚ) (e : ℤ) : Prop where
  least : -1074 ≤ e
  below : q < 2 ^ 53 * 2 ^ e
  above : e = -1074 ∨ 2 ^ 52 * 2 ^ e ≤ q

section
variable {num den : Nat}

theorem le_of_binaryExponent (hnum : 0 < num) : den * (2 : ℚ) ^ binaryExponent num den ≤ num := by
  have two := mul_pow_lt_iff (b := 2) (by decide) num den
  simp only [binaryExponent, Nat.pow_eq]
  split
  · have top : (den : ℚ) ≤ 2 ^ (Nat.log2 den + 1) := by exact_mod_cast Nat.lt_log2_self.le
    have bottom : (2 : ℚ) ^ Nat.log2 num ≤ num := by exact_mod_cast Nat.log2_self_le hnum.ne'
    calc den * (2 : ℚ) ^ ((Nat.log2 num : Int) - Nat.log2 den - 1)
        ≤ 2 ^ (Nat.log2 den + 1) * (2 : ℚ) ^ ((Nat.log2 num : Int) - Nat.log2 den - 1) := by gcongr
      _ = 2 ^ Nat.log2 num := by
        rw [← zpow_natCast, ← zpow_natCast, ← zpow_add₀ (by norm_num)]
        congr 1
        push_cast
        ring
      _ ≤ num := bottom
  · rename_i h
    exact_mod_cast not_lt.mp (h ∘ (two _).mpr)

theorem suits_scaleOf (hnum : 0 < num) (hden : 0 < den) : Suits (num / den) (scaleOf num den) := by
  have pos : (0 : ℚ) < den := by exact_mod_cast hden
  refine ⟨le_max_right _ _, ?_, ?_⟩
  · have digits : binaryExponent num den + 1 ≤ 53 + scaleOf num den := by
      unfold scaleOf
      omega
    rw [div_lt_iff₀' pos]
    calc (num : ℚ) < den * 2 ^ (binaryExponent num den + 1) := lt_of_binaryExponent hden
      _ ≤ den * 2 ^ (53 + scaleOf num den) :=
        mul_le_mul_of_nonneg_left (zpow_le_zpow_right₀ (by norm_num) digits) pos.le
      _ = den * (2 ^ 53 * 2 ^ scaleOf num den) := by
        rw [zpow_add₀ (by norm_num)]
        norm_num
  · by_cases low : binaryExponent num den - 52 ≤ -1074
    · exact .inl (max_eq_right low)
    · refine .inr ?_
      have scale : scaleOf num den = binaryExponent num den - 52 := max_eq_left (by omega)
      rw [le_div_iff₀' pos]
      calc (den : ℚ) * (2 ^ 52 * 2 ^ scaleOf num den) = den * 2 ^ (52 + scaleOf num den) := by
            rw [zpow_add₀ (by norm_num)]
            norm_num
        _ = den * 2 ^ binaryExponent num den := by rw [scale, add_sub_cancel]
        _ ≤ num := le_of_binaryExponent hnum

theorem isRound_roundAt (num : Nat) (hden : 0 < den) (e : ℤ) : IsRound (num / den / 2 ^ e) (roundAt num den e) := by
  have units : (num : ℚ) / den / 2 ^ e = ↑(num * 2 ^ (-e).toNat) / ↑(den * 2 ^ e.toNat) := by
    obtain ⟨k, rfl | rfl⟩ := e.eq_nat_or_neg
    · simp [div_div]
    · simp [div_eq_mul_inv, mul_right_comm]
  rw [units]
  exact isRound_roundHalfEven (Nat.mul_pos hden (Nat.pow_pos (by decide)))

end

section
variable {q : ℚ} {e : ℤ} {n : Nat} {x : Binary64}

/-- A number is a point of the grid, or it counts in smaller units and lies below the first point of 53
digits. -/
theorem magnitude_on_grid (e : ℤ) (y : Binary64) :
    (∃ k : Nat, y.magnitude = k * 2 ^ e) ∨ y.scale < e ∧ y.magnitude < 2 ^ 52 * 2 ^ e := by
  by_cases coarse : e ≤ y.scale
  · refine .inl ⟨y.significand * 2 ^ (y.scale - e).toNat, ?_⟩
    push_cast
    rw [magnitude, mul_assoc, ← zpow_natCast, Int.toNat_of_nonneg (by omega), ← zpow_add₀ (by norm_num),
      sub_add_cancel]
  · refine .inr ⟨by omega, ?_⟩
    have digits : (y.significand : ℚ) < 2 ^ 53 := by exact_mod_cast significand_lt y
    calc y.magnitude < 2 ^ 53 * 2 ^ y.scale := by
          unfold magnitude
          gcongr
      _ = 2 ^ 52 * 2 ^ (y.scale + 1) := by
        rw [zpow_add₀ (by norm_num)]
        ring
      _ ≤ 2 ^ 52 * 2 ^ e := by
        gcongr
        · norm_num
        · omega

theorem abs_sub_eq_scaled (m : ℚ) (e : ℤ) : |m * 2 ^ e - q| = |m - q / 2 ^ e| * 2 ^ e := by
  have pos : (0 : ℚ) < 2 ^ e := by positivity
  rw [← abs_of_pos pos, ← abs_mul, abs_of_pos pos, sub_mul, div_mul_cancel₀ _ pos.ne']

variable (suits : Suits q e) (round : IsRound (q / 2 ^ e) n)
include suits round

theorem Suits.round_le : n ≤ 2 ^ 53 := by
  have below : q / 2 ^ e < 2 ^ 53 := (div_lt_iff₀ (by positivity)).mpr suits.below
  have near := round.near
  have bound : (n : ℚ) < 2 ^ 53 + 1 := by grind
  exact Nat.lt_succ_iff.mp (by exact_mod_cast bound)

theorem Suits.le_round : e = -1074 ∨ 2 ^ 52 ≤ n := by
  refine suits.above.imp_right fun above => ?_
  have above : 2 ^ 52 ≤ q / 2 ^ e := (le_div_iff₀ (by positivity)).mpr above
  have near := round.near
  have bound : (2 : ℚ) ^ 52 < n + 1 := by grind
  exact Nat.lt_succ_iff.mp (by exact_mod_cast bound)

/-- A significand that is rounded up to `2 ^ 53` is the first of the next scale. -/
theorem Suits.magnitude_eq (pattern : x.pattern = (e + 1074).toNat * 2 ^ 52 + n) : x.magnitude = n * 2 ^ e := by
  have most := suits.round_le round
  have normal := suits.le_round round
  have least := suits.least
  have hx := pattern_eq x
  have digits := significand_lt x
  have normal' := lowest_or_normal x
  have least' := le_scale x
  have parts : x.scale = e ∧ x.significand = n ∨ x.scale = e + 1 ∧ x.significand = 2 ^ 52 ∧ n = 2 ^ 53 := by
    omega
  unfold magnitude
  obtain ⟨scale, significand⟩ | ⟨scale, significand, carry⟩ := parts
  · rw [scale, significand]
  · rw [scale, significand, carry, zpow_add₀ (by norm_num)]
    push_cast
    ring

theorem Suits.isNearest (pattern : x.pattern = (e + 1074).toNat * 2 ^ 52 + n) (finite : x.isFinite = true) :
    IsNearest q x := by
  have value := suits.magnitude_eq round pattern
  have pos : (0 : ℚ) < 2 ^ e := by positivity
  -- in smaller units a number cannot come as close as the first point of 53 digits, which `q` is above
  have below {y : Binary64} (fine : y.scale < e) (small : y.magnitude < 2 ^ 52 * 2 ^ e) :
      |x.magnitude - q| < |y.magnitude - q| := by
    have first := mul_le_mul_of_nonneg_right (round.closest (2 ^ 52)) pos.le
    rw [← abs_sub_eq_scaled, ← abs_sub_eq_scaled, ← value] at first
    have above : 2 ^ 52 * 2 ^ e ≤ q := suits.above.resolve_left (by have := le_scale y; omega)
    push_cast at first
    grind
  refine ⟨finite, fun y _ => ?_, fun y _ apart tie => ?_⟩
  · obtain ⟨k, point⟩ | ⟨fine, small⟩ := magnitude_on_grid e y
    · rw [value, point, abs_sub_eq_scaled, abs_sub_eq_scaled]
      exact mul_le_mul_of_nonneg_right (round.closest k) pos.le
    · exact (below fine small).le
  · obtain ⟨k, point⟩ | ⟨fine, small⟩ := magnitude_on_grid e y
    · rw [value, point, abs_sub_eq_scaled, abs_sub_eq_scaled, mul_left_inj' pos.ne'] at tie
      have even := round.even_of_tie (by rintro rfl; exact apart (point.trans value.symm)) tie
      rw [significand_mod_two]
      omega
    · exact absurd tie (below fine small).ne'

theorem Suits.pattern_lt_iff : (e + 1074).toNat * 2 ^ 52 + n < infinityPattern ↔ q < limit := by
  have most := suits.round_le round
  have normal := suits.le_round round
  have least := suits.least
  unfold infinityPattern limit
  simp only [Nat.pow_eq]
  rcases lt_trichotomy e 971 with small | rfl | large
  · refine iff_of_true (by omega) ?_
    calc q < 2 ^ 53 * 2 ^ e := suits.below
      _ ≤ 2 ^ 53 * 2 ^ (970 : ℤ) := by
        gcongr
        · norm_num
        · omega
      _ < (2 ^ 53 - 1 / 2) * 2 ^ (971 : ℤ) := by
        rw [show (971 : ℤ) = 970 + 1 from rfl, zpow_add₀ (by norm_num), ← mul_assoc, mul_right_comm]
        gcongr
        norm_num
  · -- a carry into the exponent is one too many
    have room : (971 + 1074 : ℤ).toNat * 2 ^ 52 + n < 2047 * 2 ^ 52 ↔ n < 2 ^ 53 := by omega
    rw [← div_lt_iff₀ (by positivity), room, round.lt_iff (by decide), Nat.cast_pow, Nat.cast_ofNat]
  · refine iff_of_false (by omega) (not_lt.mpr ?_)
    have above := suits.above.resolve_left (by omega)
    calc (2 ^ 53 - 1 / 2) * 2 ^ (971 : ℤ) ≤ 2 ^ 53 * (2 : ℚ) ^ (971 : ℤ) := by gcongr; norm_num
      _ = 2 ^ 52 * 2 ^ (972 : ℤ) := by
        rw [show (972 : ℤ) = 971 + 1 from rfl, zpow_add₀ (by norm_num)]
        ring
      _ ≤ 2 ^ 52 * 2 ^ e := by
        gcongr
        · norm_num
        · omega
      _ ≤ q := above

end

section
variable {negative : Bool} {num den : Nat} {q : ℚ} {x : Binary64}

theorem magnitude_zero (negative : Bool) : (zero negative).magnitude = 0 := by
  have significand : (zero negative).significand = 0 := by cases negative <;> rfl
  simp [magnitude, significand]

theorem magnitude_eq_zero_or_le (x : Binary64) : x.magnitude = 0 ∨ 2 ^ (-1074 : ℤ) ≤ x.magnitude := by
  unfold magnitude
  rcases x.significand.eq_zero_or_pos with hzero | hpos
  · simp [hzero]
  · refine .inr ?_
    calc (2 : ℚ) ^ (-1074 : ℤ) ≤ 2 ^ x.scale := zpow_le_zpow_right₀ (by norm_num) (le_scale x)
      _ ≤ x.significand * 2 ^ x.scale := le_mul_of_one_le_left (by positivity) (by exact_mod_cast hpos)

theorem two_zpow_le_limit {e : ℤ} (h : e ≤ 971) : 2 ^ e ≤ limit := by
  have unit : (2 : ℚ) ^ e ≤ 2 ^ (971 : ℤ) := zpow_le_zpow_right₀ (by norm_num) h
  have factor : (1 : ℚ) ≤ 2 ^ 53 - 1 / 2 := by norm_num
  exact le_trans unit (le_mul_of_one_le_left (by positivity) factor)

/-- What is at most half the smallest number goes to zero. -/
theorem roundsTo_zero (nonneg : 0 ≤ q) (small : 2 * q ≤ 2 ^ (-1074 : ℤ)) : RoundsTo q (zero negative) := by
  have finite : (zero negative).isFinite = true := by cases negative <;> rfl
  have below : q < limit := by
    have least : (0 : ℚ) < 2 ^ (-1074 : ℤ) := by positivity
    linarith [two_zpow_le_limit (e := -1074) (by norm_num)]
  refine ⟨iff_of_true finite below, fun _ => ⟨finite, fun y _ => ?_, fun _ _ _ _ => ?_⟩⟩
  · have nothing := magnitude_zero negative
    have next := magnitude_eq_zero_or_le y
    grind
  · cases negative <;> rfl

theorem isNegative_nearest : (nearest negative num den).isNegative = negative := by
  unfold nearest
  split
  · exact isNegative_ofPattern (by decide)
  · exact isNegative_ofPattern (lt_of_le_of_lt (min_le_right _ _) (by decide))

theorem roundsTo_nearest (hden : 0 < den) : RoundsTo (num / den) (nearest negative num den) := by
  unfold nearest
  split
  · rename_i hnum
    have zero : (num : ℚ) / den = 0 := by simp [hnum]
    exact roundsTo_zero zero.ge (by rw [zero]; norm_num)
  · rename_i hnum
    have suits := suits_scaleOf (Nat.pos_of_ne_zero hnum) hden
    have round := isRound_roundAt num hden (scaleOf num den)
    dsimp only
    generalize scaleOf num den = e at suits round ⊢
    generalize roundAt num den e = n at round ⊢
    have limited := suits.pattern_lt_iff round
    have pattern : (ofPattern negative (min ((e + 1074).toNat * Nat.pow 2 52 + n) infinityPattern)).pattern =
        min ((e + 1074).toNat * Nat.pow 2 52 + n) infinityPattern :=
      pattern_ofPattern (lt_of_le_of_lt (min_le_right _ _) (by decide))
    generalize ofPattern negative (min ((e + 1074).toNat * Nat.pow 2 52 + n) infinityPattern) = x at pattern ⊢
    have finite : x.isFinite = true ↔ (num : ℚ) / den < limit := by
      rw [← limited, isFinite, decide_eq_true_eq, pattern, Nat.pow_eq]
      simp
    refine ⟨finite, fun below => suits.isNearest round ?_ (finite.mpr below)⟩
    rw [pattern, Nat.pow_eq]
    exact min_eq_left (limited.mpr below).le

end

end TableQuery.Binary64
