import TableQuery.Proofs.Decimal.Rounding

/-! # The shortest decimal is rounded to its number

In units of its scale a number is its significand, and `Near` holds of the quotients up to the midpoints
next to it. They are all rounded to the number (`Near.roundsTo`), and a decimal in its span is one of them
(`holds_span_iff`). A grid of seventeen digits is finer than the span, so that a decimal is found
(`roundsTo_shortest`). -/

namespace TableQuery.Binary64

variable {x : Binary64}

/-- How far below the significand the midpoint is, in units of the scale. -/
def gapBelow (x : Binary64) : ℚ := if x.significand = 2 ^ 52 ∧ x.scale ≠ -1074 then 1 / 4 else 1 / 2

/-- In units of the scale, `w` lies between the midpoints next to `x`, and is none of them if the
significand is odd. -/
structure Near (x : Binary64) (w : ℚ) : Prop where
  low : x.significand - w ≤ x.gapBelow
  high : w - x.significand ≤ 1 / 2
  odd : x.significand % 2 = 1 → x.significand - w < 1 / 2 ∧ w - x.significand < 1 / 2

theorem gapBelow_le (x : Binary64) : x.gapBelow ≤ 1 / 2 := by
  unfold gapBelow
  split <;> norm_num

theorem Suits.roundsTo {q : ℚ} {e : ℤ} {n : Nat} (suits : Suits q e) (round : IsRound (q / 2 ^ e) n)
    (pattern : x.pattern = (e + 1074).toNat * 2 ^ 52 + n) (finite : x.isFinite = true) : RoundsTo q x := by
  have below : q < limit := by
    rw [← suits.pattern_lt_iff round, ← pattern]
    exact of_decide_eq_true finite
  exact ⟨iff_of_true finite below, fun _ => suits.isNearest round pattern finite⟩

namespace Near
variable {q : ℚ}

theorem isRound {w : ℚ} (h : x.Near w) : IsRound w x.significand := by
  have low := h.low.trans x.gapBelow_le
  have high := h.high
  refine ⟨abs_le.mpr ⟨by linarith, low⟩, fun tie => ?_⟩
  by_contra ne
  obtain ⟨below, above⟩ := h.odd (by omega)
  exact (abs_lt.mpr ⟨by linarith, below⟩).ne tie

/-- Below the first significand of 53 digits numbers are twice as close, so what is there is looked at in
units half as large. -/
theorem roundsTo_of_lt (h : x.Near (q / 2 ^ x.scale)) (finite : x.isFinite = true)
    (first : x.significand = 2 ^ 52) (least : x.scale ≠ -1074) (less : q / 2 ^ x.scale < 2 ^ 52) :
    RoundsTo q x := by
  have low := h.low
  rw [gapBelow, if_pos ⟨first, least⟩, first] at low
  push_cast at low
  have scale := le_scale x
  have halves : q / 2 ^ (x.scale - 1) = 2 * (q / 2 ^ x.scale) := by
    rw [zpow_sub_one₀ (by norm_num)]
    field_simp
  have round : IsRound (q / 2 ^ (x.scale - 1)) (2 ^ 53) := by
    rw [halves]
    push_cast
    refine ⟨abs_le.mpr ⟨?_, ?_⟩, fun _ => by decide⟩ <;> linarith
  have suits : Suits q (x.scale - 1) := by
    refine ⟨by omega, ?_, .inr ?_⟩
    · rw [← div_lt_iff₀ (by positivity), halves]
      linarith
    · rw [← le_div_iff₀ (by positivity), halves]
      linarith
  refine suits.roundsTo round ?_ finite
  have := pattern_eq x
  omega

theorem roundsTo (h : x.Near (q / 2 ^ x.scale)) (finite : x.isFinite = true) : RoundsTo q x := by
  by_cases closer : (x.significand = 2 ^ 52 ∧ x.scale ≠ -1074) ∧ q / 2 ^ x.scale < 2 ^ 52
  · exact h.roundsTo_of_lt finite closer.1.1 closer.1.2 closer.2
  have low := h.low.trans x.gapBelow_le
  have high := h.high
  have suits : Suits q x.scale := by
    refine ⟨le_scale x, ?_, ?_⟩
    · have digits : (x.significand : ℚ) + 1 ≤ 2 ^ 53 := by exact_mod_cast significand_lt x
      rw [← div_lt_iff₀ (by positivity)]
      linarith
    · by_cases least : x.scale = -1074
      · exact .inl least
      refine .inr ((le_div_iff₀ (by positivity)).mp ?_)
      rcases ((lowest_or_normal x).resolve_left least).eq_or_lt with first | greater
      · exact not_lt.mp fun less => closer ⟨⟨first.symm, least⟩, less⟩
      · have greater : (2 : ℚ) ^ 52 + 1 ≤ x.significand := by exact_mod_cast greater
        linarith
  refine suits.roundsTo h.isRound ?_ finite
  have := pattern_eq x
  have := le_scale x
  omega

end Near

/-- The power in a numerator is that of the exponent, times what stands on the other side. -/
theorem pow_toNat {b : ℚ} (hb : b ≠ 0) (e : ℤ) : b ^ e.toNat = b ^ e * b ^ (-e).toNat := by
  rw [← zpow_natCast, ← zpow_natCast, ← zpow_add₀ hb]
  congr 1
  omega

theorem near_even_iff {w : ℚ} (even : x.significand % 2 = 0) :
    x.Near w ↔ x.significand - x.gapBelow ≤ w ∧ w ≤ x.significand + 1 / 2 := by
  constructor
  · rintro ⟨low, high, -⟩
    constructor <;> linarith
  · rintro ⟨low, high⟩
    exact ⟨by linarith, by linarith, fun odd => by omega⟩

theorem near_odd_iff {w : ℚ} (odd : x.significand % 2 = 1) :
    x.Near w ↔ x.significand - x.gapBelow < w ∧ w < x.significand + 1 / 2 := by
  have gap : x.gapBelow = 1 / 2 := if_neg fun closer => by omega
  rw [gap]
  constructor
  · rintro ⟨-, -, strict⟩
    obtain ⟨low, high⟩ := strict odd
    constructor <;> linarith
  · rintro ⟨low, high⟩
    exact ⟨by rw [gap]; linarith, by linarith, fun _ => by constructor <;> linarith⟩

section
variable (e : ℤ) (n : Nat)

/-- What the numerators of a span and of `n * 10 ^ e` are multiples of, over the denominator of both. -/
def spanUnit (x : Binary64) (e : ℤ) : ℚ := 4 * 2 ^ x.scale * 2 ^ (-x.scale).toNat * 10 ^ (-e).toNat

theorem low_span_eq (nonzero : x.isZero = false) :
    ((x.span.low * 10 ^ (-e).toNat : Nat) : ℚ) = (x.significand - x.gapBelow) * x.spanUnit e := by
  have up := pow_toNat (b := 2) (by norm_num) x.scale
  have pos := significand_pos nonzero
  have low : x.span.low =
      (4 * x.significand - if x.significand = 2 ^ 52 ∧ x.scale ≠ -1074 then 1 else 2) * 2 ^ x.scale.toNat := by
    simp [span]
  rw [low, gapBelow, spanUnit]
  by_cases closer : x.significand = 2 ^ 52 ∧ x.scale ≠ -1074
  · rw [if_pos closer, if_pos closer, Nat.cast_mul, Nat.cast_mul, Nat.cast_sub (by omega)]
    push_cast
    rw [up]
    ring
  · rw [if_neg closer, if_neg closer, Nat.cast_mul, Nat.cast_mul, Nat.cast_sub (by omega)]
    push_cast
    rw [up]
    ring

theorem high_span_eq :
    ((x.span.high * 10 ^ (-e).toNat : Nat) : ℚ) = (x.significand + 1 / 2) * x.spanUnit e := by
  have up := pow_toNat (b := 2) (by norm_num) x.scale
  simp only [span, Nat.pow_eq, spanUnit]
  push_cast
  rw [up]
  ring

theorem num_span_eq : ((n * (x.span.den * 10 ^ e.toNat) : Nat) : ℚ) = n * 10 ^ e / 2 ^ x.scale * x.spanUnit e := by
  have up := pow_toNat (b := 10) (by norm_num) e
  simp only [span, denominator, Nat.pow_eq, spanUnit]
  push_cast
  rw [up]
  field_simp

/-- The check of a multiple of `10 ^ e` against the span, in units of the scale. -/
theorem holds_span_iff (nonzero : x.isZero = false) :
    x.span.holds (10 ^ (-e).toNat) (n * (x.span.den * 10 ^ e.toNat)) = true ↔
      x.Near (n * 10 ^ e / 2 ^ x.scale) := by
  have pos : 0 < x.spanUnit e := by unfold spanUnit; positivity
  have closed : x.span.closed = (x.significand % 2 == 0) := rfl
  unfold Span.holds
  rw [closed]
  rcases Nat.mod_two_eq_zero_or_one x.significand with even | odd
  · simp only [even, near_even_iff even, BEq.rfl, if_true, Bool.and_eq_true, decide_eq_true_eq,
      ← Nat.cast_le (α := ℚ), low_span_eq e nonzero, high_span_eq, num_span_eq, mul_le_mul_iff_left₀ pos]
  · simp only [odd, near_odd_iff odd, Nat.reduceBEq, Bool.false_eq_true, if_false, Bool.and_eq_true,
      decide_eq_true_eq, ← Nat.cast_lt (α := ℚ), low_span_eq e nonzero, high_span_eq, num_span_eq,
      mul_lt_mul_iff_left₀ pos]

end

theorem magnitude_eq_div (x : Binary64) : x.magnitude = x.span.mid / x.span.den := by
  have up := pow_toNat (b := 2) (by norm_num) x.scale
  simp only [span, denominator, Nat.pow_eq, magnitude]
  push_cast
  rw [up]
  field_simp

/-- The power of ten that is looked at last is below a number of this many binary digits. -/
theorem ten_zpow_le_two_zpow {b : Int} (low : -10000 ≤ b) (high : b ≤ 10000) :
    (10 : ℚ) ^ ((b + 1) * 30103 / 100000 - 3) ≤ 2 ^ b := by
  obtain ⟨m, rfl | rfl⟩ := b.eq_nat_or_neg
  · by_cases whole : 0 ≤ ((m : Int) + 1) * 30103 / 100000 - 3
    · obtain ⟨t, ht⟩ : ∃ t : Nat, ((m : Int) + 1) * 30103 / 100000 - 3 = t :=
        ⟨_, (Int.toNat_of_nonneg whole).symm⟩
      rw [ht, zpow_natCast, zpow_natCast]
      exact_mod_cast ten_pow_le_two_pow (by omega)
    · calc (10 : ℚ) ^ (((m : Int) + 1) * 30103 / 100000 - 3) ≤ 1 := zpow_le_one_of_nonpos₀ (by norm_num) (by omega)
        _ ≤ 2 ^ (m : Int) := one_le_zpow₀ (by norm_num) (by omega)
  · by_cases hm : m = 0
    · subst hm
      norm_num
    obtain ⟨t, ht⟩ : ∃ t : Nat, (-(m : Int) + 1) * 30103 / 100000 - 3 = -t :=
      ⟨(-((-(m : Int) + 1) * 30103 / 100000 - 3)).toNat, by omega⟩
    rw [ht, zpow_neg, zpow_neg, zpow_natCast, zpow_natCast]
    refine inv_anti₀ (by positivity : (0 : ℚ) < 2 ^ m) ?_
    exact_mod_cast two_pow_le_ten_pow (by omega)

theorem le_of_decimalExponentFrom {num den fuel : Nat} {e : Int} (h : (den : ℚ) * 10 ^ (e - fuel) ≤ num) :
    (den : ℚ) * 10 ^ decimalExponentFrom num den fuel e ≤ num := by
  induction fuel generalizing e with
  | zero => simpa [decimalExponentFrom] using h
  | succ fuel ih =>
    rw [decimalExponentFrom]
    split
    · rename_i reached
      have ten := mt (mul_pow_lt_iff (b := 10) (by decide) num den e).mpr (not_lt.mpr reached)
      exact_mod_cast not_lt.mp ten
    · refine ih ?_
      rwa [sub_sub, add_comm 1, ← Nat.cast_succ]

theorem ten_zpow_le_magnitude (finite : x.isFinite = true) (nonzero : x.isZero = false) :
    (10 : ℚ) ^ decimalExponent x.span.mid x.span.den ≤ x.magnitude := by
  have bounds := binaryExponent_span finite
  have den : (0 : ℚ) < x.span.den := by exact_mod_cast den_span_pos x
  have mid : 0 < x.span.mid :=
    Nat.mul_pos (Nat.mul_pos (by decide) (significand_pos nonzero)) (Nat.pow_pos (by decide))
  rw [magnitude_eq_div, le_div_iff₀' den]
  refine le_of_decimalExponentFrom ?_
  calc (x.span.den : ℚ) * 10 ^ ((binaryExponent x.span.mid x.span.den + 1) * 30103 / 100000 + 1 - (4 : Nat))
      = x.span.den * 10 ^ ((binaryExponent x.span.mid x.span.den + 1) * 30103 / 100000 - 3) := by
        congr 2
        omega
    _ ≤ x.span.den * 2 ^ binaryExponent x.span.mid x.span.den := by
        gcongr
        exact ten_zpow_le_two_zpow (by omega) (by omega)
    _ ≤ x.span.mid := le_of_binaryExponent mid

/-- The quotient whose neighbours are looked at on a grid is the number in units of the grid. -/
theorem mid_div_unit_eq (x : Binary64) (e : ℤ) :
    ((x.span.mid * 10 ^ (-e).toNat : Nat) : ℚ) / (x.span.den * 10 ^ e.toNat : Nat) =
      x.significand / (10 ^ e / 2 ^ x.scale) := by
  have den : (x.span.den : ℚ) ≠ 0 := by exact_mod_cast (den_span_pos x).ne'
  have mid : (x.span.mid : ℚ) = x.significand * 2 ^ x.scale * x.span.den := by
    rw [← div_eq_iff den, ← magnitude_eq_div, magnitude]
  push_cast
  rw [mid, pow_toNat (b := 10) (by norm_num) e]
  field_simp

theorem roundHalfEven_eq_or (m d : Nat) : roundHalfEven m d = m / d ∨ roundHalfEven m d = m / d + 1 := by
  unfold roundHalfEven
  dsimp only
  split
  · exact .inl rfl
  split
  · exact .inr rfl
  · omega

/-- A grid whose unit is less than twice the way to either midpoint has a multiple in the span. -/
theorem exists_mem_onGrid {e : ℤ} (nonzero : x.isZero = false) (fine : 10 ^ e / 2 ^ x.scale < 2 * x.gapBelow) :
    ∃ n, n ∈ x.span.onGrid e := by
  have unit : 0 < x.span.den * 10 ^ e.toNat := Nat.mul_pos (den_span_pos x) (Nat.pow_pos (by decide))
  refine ⟨_, Span.mem_onGrid_iff.mpr ⟨roundHalfEven_eq_or _ _, (holds_span_iff e _ nonzero).mpr ?_⟩⟩
  have round : IsRound (((x.span.mid * 10 ^ (-e).toNat : Nat) : ℚ) / (x.span.den * 10 ^ e.toNat : Nat)) _ :=
    isRound_roundHalfEven unit
  generalize roundHalfEven _ _ = n at round ⊢
  rw [mid_div_unit_eq] at round
  -- the rounded quotient is off by half a unit of the grid at most
  have gap := x.gapBelow_le
  have pos : (0 : ℚ) < 10 ^ e / 2 ^ x.scale := by positivity
  have off : |(n : ℚ) * 10 ^ e / 2 ^ x.scale - x.significand| ≤ 10 ^ e / 2 ^ x.scale / 2 := by
    have near := mul_le_mul_of_nonneg_right round.near pos.le
    rw [← abs_of_pos pos, ← abs_mul, abs_of_pos pos, sub_mul, div_mul_cancel₀ _ pos.ne', ← mul_div_assoc] at near
    linarith
  obtain ⟨low, high⟩ := abs_le.mp off
  exact ⟨by linarith, by linarith, fun _ => by constructor <;> linarith⟩

/-- Seventeen digits always suffice. -/
theorem exists_mem_onGrid_seventeen (finite : x.isFinite = true) (nonzero : x.isZero = false) :
    ∃ n, n ∈ x.span.onGrid (decimalExponent x.span.mid x.span.den - 16) := by
  refine exists_mem_onGrid nonzero ?_
  have top := ten_zpow_le_magnitude finite nonzero
  have digits : (x.significand : ℚ) < 2 ^ 53 := by exact_mod_cast significand_lt x
  have power : (10 : ℚ) ^ (decimalExponent x.span.mid x.span.den - 16) * 10 ^ 16 ≤ x.significand * 2 ^ x.scale := by
    rw [← zpow_natCast, ← zpow_add₀ (by norm_num)]
    simpa [magnitude] using top
  rw [div_lt_iff₀ (by positivity)]
  have pos : (0 : ℚ) < 2 ^ x.scale := by positivity
  unfold gapBelow
  split
  · rename_i closer
    rw [closer.1] at power
    push_cast at power
    linarith
  · have below := mul_lt_mul_of_pos_right digits pos
    linarith

theorem Span.exists_shortestFrom (s : Span) (top : Int) (fuel digits : Nat)
    (h : ∃ n, n ∈ s.onGrid (top + 1 - (digits + fuel : Nat))) :
    ∃ d, s.shortestFrom top (fuel + 1) digits = some d ∧ d.coefficient ∈ s.onGrid d.exponent := by
  induction fuel generalizing digits with
  | zero =>
    obtain ⟨n, hn⟩ := h
    rw [shortestFrom]
    split
    · rename_i first others grid
      exact ⟨_, rfl, grid ▸ List.mem_cons_self⟩
    · rename_i grid
      rw [Nat.add_zero, grid] at hn
      cases hn
  | succ fuel ih =>
    rw [shortestFrom]
    split
    · rename_i first others grid
      exact ⟨_, rfl, grid ▸ List.mem_cons_self⟩
    · exact ih (digits + 1) (by rwa [Nat.add_right_comm])

theorem eq_zero_of_isZero (h : x.isZero = true) : x = zero x.isNegative :=
  eq_of_pattern (isNegative_ofPattern (by decide)).symm
    ((beq_iff_eq.mp h).trans (pattern_ofPattern (by decide)).symm)

open Decimal (value)

/-- What is written for a finite number goes back to it when its exact value is rounded. -/
theorem roundsTo_shortest (finite : x.isFinite = true) : RoundsTo x.shortest.value x := by
  unfold shortest
  split
  · rename_i hzero
    rw [eq_zero_of_isZero hzero]
    exact roundsTo_zero (by simp [value]) (by simp [value])
  rename_i hzero
  have nonzero : x.isZero = false := by simpa using hzero
  have last := exists_mem_onGrid_seventeen finite nonzero
  dsimp only
  generalize decimalExponent x.span.mid x.span.den = top at last ⊢
  have seventeen : top + 1 - (1 + 16 : Nat) = top - 16 := by omega
  obtain ⟨d, found, grid⟩ := x.span.exists_shortestFrom top 16 1 (by rwa [seventeen])
  have near := (holds_span_iff _ _ nonzero).mp (Span.mem_onGrid_iff.mp grid).2
  have rounds : RoundsTo d.value x := near.roundsTo finite
  simp only [found]
  split
  · rename_i carry
    have same : value ⟨1, d.exponent + 1⟩ = d.value := by
      rw [value, value, carry, zpow_add_one₀ (by norm_num)]
      push_cast
      ring
    rwa [same]
  · exact rounds

end TableQuery.Binary64
