import TableQuery.Json.Writer
import TableQuery.Proofs.Decimal.Reread
import TableQuery.Proofs.Json.Numerals

/-! # The numbers that are written

An integer is written as a literal of digits alone, a finite real as one with a fraction or an
exponent. A real is written with so few digits that the reader has room for them
(`Binary64.Compact`). -/

namespace TableQuery.Json.Number

open Decimal (zeros)

def integerLiteral (n : Int) : Literal := ⟨n < 0, digitsOf n.natAbs, none, none⟩

theorem writeInteger_eq (n : Int) : writeInteger n = (integerLiteral n).chars := by
  simp [writeInteger, Literal.chars, Literal.unsigned, Literal.fractionChars, Literal.exponentChars, integerLiteral]

theorem digits_digitsOf (n : Nat) : Digits (digitsOf n) :=
  ⟨digitsOf_ne_nil n, fun _ hc => isDigit_of_mem_digitsOf hc⟩

theorem zero_of_head?_digitsOf {n : Nat} (h : (digitsOf n).head? = some '0') : n = 0 := by
  by_contra ne
  exact head?_digitsOf (Nat.pos_of_ne_zero ne) h

theorem digitsOf_eq_zero {n : Nat} (h : (digitsOf n).head? = some '0') : digitsOf n = ['0'] := by
  rw [zero_of_head?_digitsOf h]
  rfl

theorem formed_integerLiteral (n : Int) : (integerLiteral n).Formed where
  whole := digits_digitsOf _
  zero := digitsOf_eq_zero
  fraction := nofun
  exponent := nofun

theorem fits_integerLiteral {n : Int} (h : n.natAbs < 2 ^ 64) : (integerLiteral n).Fits where
  digits := by simpa [Literal.digits, integerLiteral, ofDigits_digitsOf] using h
  exponent := nofun

def positionalLiteral (negative : Bool) (digits : List Char) (whole : Int) : Literal :=
  if whole ≤ 0 then ⟨negative, ['0'], some (zeros (-whole).toNat ++ digits), none⟩
  else if whole.toNat < digits.length then
    ⟨negative, digits.take whole.toNat, some (digits.drop whole.toNat), none⟩
  else ⟨negative, digits ++ zeros (whole.toNat - digits.length), some ['0'], none⟩

def scientificLiteral (negative : Bool) (digits : List Char) (exponent : Int) : Literal where
  negative := negative
  whole := digits.take 1
  fraction := if digits.length ≤ 1 then none else some (digits.drop 1)
  exponent := some ('e', [if exponent < 0 then '-' else '+'], digitsOf exponent.natAbs)

/-- What a layout writes for a decimal and a sign. -/
def layoutLiteral (layout : Decimal.Layout) (negative : Bool) (d : Decimal) : Literal :=
  let digits := digitsOf d.coefficient
  let whole : Int := digits.length + d.exponent
  if layout.least < whole && whole ≤ layout.limit then positionalLiteral negative digits whole
  else scientificLiteral negative digits (whole - 1)

section
variable {layout : Decimal.Layout} {negative : Bool} {d : Decimal}

theorem unsigned_positionalLiteral (digits : List Char) (whole : Int) :
    (positionalLiteral negative digits whole).unsigned = Decimal.Layout.positional digits whole := by
  unfold positionalLiteral Decimal.Layout.positional
  split
  · simp [Literal.unsigned, Literal.fractionChars, Literal.exponentChars]
  split <;> simp [Literal.unsigned, Literal.fractionChars, Literal.exponentChars]

theorem unsigned_scientificLiteral (digits : List Char) (exponent : Int) :
    (scientificLiteral negative digits exponent).unsigned = Decimal.Layout.scientific digits exponent := by
  unfold scientificLiteral Decimal.Layout.scientific
  split <;> simp [Literal.unsigned, Literal.fractionChars, Literal.exponentChars]

@[simp] theorem negative_layoutLiteral : (layoutLiteral layout negative d).negative = negative := by
  unfold layoutLiteral positionalLiteral
  dsimp only
  split
  · split
    · rfl
    · split <;> rfl
  · rfl

theorem unsigned_layoutLiteral : (layoutLiteral layout negative d).unsigned = layout.render d := by
  unfold layoutLiteral Decimal.Layout.render
  dsimp only
  split
  · exact unsigned_positionalLiteral _ _
  · exact unsigned_scientificLiteral _ _

theorem fraction_or_exponent_layoutLiteral (layout : Decimal.Layout) (negative : Bool) (d : Decimal) :
    (∃ fs, (layoutLiteral layout negative d).fraction = some fs) ∨
      ∃ sign ds, (layoutLiteral layout negative d).exponent = some ('e', sign, ds) := by
  unfold layoutLiteral positionalLiteral
  dsimp only
  split
  · left
    split
    · exact ⟨_, rfl⟩
    · split <;> exact ⟨_, rfl⟩
  · exact .inr ⟨_, _, rfl⟩

theorem Digits.append_left {ds es : List Char} (h : ∀ c ∈ es, isDigit c = true) (h' : Digits ds) : Digits (es ++ ds) :=
  ⟨by simp [h'.1], fun c hc => (List.mem_append.mp hc).elim (h c) (h'.2 c)⟩

theorem isDigit_of_mem_zeros {k : Nat} {c : Char} (h : c ∈ zeros k) : isDigit c = true := by
  obtain rfl := List.eq_of_mem_replicate h
  rfl

/-- Digits that start with no superfluous zero, and a place for the point. -/
theorem formed_positionalLiteral {digits : List Char} {whole : Int} (h : Digits digits)
    (zero : digits.head? = some '0' → digits = ['0'] ∧ whole = 1) :
    (positionalLiteral negative digits whole).Formed := by
  obtain ⟨ne, all⟩ := h
  have nonempty : 0 < digits.length := List.length_pos_iff.mpr ne
  unfold positionalLiteral
  split
  · have fraction := Digits.append_left (fun _ hc => isDigit_of_mem_zeros (k := (-whole).toNat) hc) ⟨ne, all⟩
    exact ⟨⟨by simp, by simp [isDigit]⟩, fun _ => rfl, by simpa using fraction, by simp⟩
  split
  · -- both parts have digits, and a leading zero would be the only one
    rename_i inside
    have front : Digits (digits.take whole.toNat) :=
      ⟨List.length_pos_iff.mp (by rw [List.length_take]; omega), fun c hc => all c (List.mem_of_mem_take hc)⟩
    have back : Digits (digits.drop whole.toNat) :=
      ⟨List.length_pos_iff.mp (by rw [List.length_drop]; omega), fun c hc => all c (List.mem_of_mem_drop hc)⟩
    refine ⟨front, fun first => ?_, by simpa using back, by simp⟩
    rw [List.head?_take, if_neg (by omega)] at first
    obtain ⟨rfl, rfl⟩ := zero first
    exact absurd inside (by decide)
  · have padding : ∀ c ∈ digits ++ zeros (whole.toNat - digits.length), isDigit c = true := fun c hc =>
      (List.mem_append.mp hc).elim (all c) isDigit_of_mem_zeros
    refine ⟨⟨by simp [ne], padding⟩, fun first => ?_, by simp [Digits, isDigit], by simp⟩
    rw [List.head?_append_of_ne_nil _ ne] at first
    obtain ⟨rfl, rfl⟩ := zero first
    rfl

theorem formed_scientificLiteral {digits : List Char} (exponent : Int) (h : Digits digits) :
    (scientificLiteral negative digits exponent).Formed := by
  obtain ⟨ne, all⟩ := h
  cases digits with
  | nil => exact absurd rfl ne
  | cons c ds =>
    refine ⟨⟨by simp [scientificLiteral], ?_⟩, ?_, ?_, ?_⟩
    · simpa [scientificLiteral] using all c (by simp)
    · simp [scientificLiteral]
    · intro fs hfs
      cases ds with
      | nil => simp [scientificLiteral] at hfs
      | cons d ds =>
        obtain rfl : d :: ds = fs := by simpa [scientificLiteral] using hfs
        exact ⟨nofun, fun c hc => all c (List.mem_cons_of_mem _ hc)⟩
    · intro e he
      obtain rfl : _ = e := Option.some.inj he
      refine ⟨rfl, ?_, digits_digitsOf _⟩
      split
      · exact .inr (.inr rfl)
      · exact .inr (.inl rfl)

theorem fits_positionalLiteral {digits : List Char} {whole : Int} (all : ∀ c ∈ digits, isDigit c = true)
    (small : ofDigits digits ≤ 10 ^ 17) (most : whole ≤ 18) : (positionalLiteral negative digits whole).Fits := by
  unfold positionalLiteral
  split
  · refine ⟨?_, by simp⟩
    have value : ofDigits ('0' :: (zeros (-whole).toNat ++ digits)) = ofDigits digits := by
      simp [ofDigits_cons, ofDigits_append, ofDigits_zeros, show digitValue '0' = 0 from rfl]
    simp only [Literal.digits, Option.getD_some, List.singleton_append, value]
    exact Nat.lt_of_le_of_lt small (by decide)
  split
  · refine ⟨?_, by simp⟩
    simp only [Literal.digits, Option.getD_some, List.take_append_drop]
    exact Nat.lt_of_le_of_lt small (by decide)
  · refine ⟨?_, by simp⟩
    simp only [Literal.digits, Option.getD_some]
    have padding : ∀ c ∈ digits ++ zeros (whole.toNat - digits.length) ++ ['0'], isDigit c = true := by
      simp only [List.forall_mem_append]
      exact ⟨⟨all, fun _ => isDigit_of_mem_zeros⟩, by simp [isDigit]⟩
    have bound := ofDigits_lt padding
    have length : (digits ++ zeros (whole.toNat - digits.length) ++ ['0']).length ≤ 19 := by
      simp [zeros]
      omega
    calc ofDigits _ < 10 ^ _ := bound
      _ ≤ 10 ^ 19 := Nat.pow_le_pow_right (by decide) length
      _ < 2 ^ 64 := by decide

theorem digits_scientificLiteral (digits : List Char) (exponent : Int) :
    (scientificLiteral negative digits exponent).digits = digits := by
  cases digits with
  | nil => simp [scientificLiteral, Literal.digits]
  | cons c ds => cases ds <;> simp [scientificLiteral, Literal.digits]

theorem fits_scientificLiteral {digits : List Char} {exponent : Int} (small : ofDigits digits ≤ 10 ^ 17)
    (near : exponent.natAbs < 2 ^ 31) : (scientificLiteral negative digits exponent).Fits := by
  constructor
  · rw [digits_scientificLiteral]
    exact Nat.lt_of_le_of_lt small (by decide)
  · intro e he
    obtain rfl : _ = e := Option.some.inj he
    simpa [ofDigits_digitsOf] using near

/-- The point is where the exponent puts it, so the literal spells the same number. -/
theorem value_positionalLiteral (digits : List Char) (e : Int) :
    (positionalLiteral negative digits (digits.length + e)).decimal.value = Decimal.value ⟨ofDigits digits, e⟩ := by
  unfold positionalLiteral
  split
  · have coefficient : ofDigits ('0' :: (zeros (-(digits.length + e)).toNat ++ digits)) = ofDigits digits :=
      ofDigits_zeros_append (_ + 1) digits
    have exponent : (0 : Int) - (zeros (-(digits.length + e)).toNat ++ digits).length = e := by
      simp only [zeros, List.length_append, List.length_replicate]
      omega
    simp only [Literal.decimal, Literal.digits, Literal.power, Option.getD_some, List.singleton_append, coefficient,
      exponent]
  split
  · have exponent : (0 : Int) - (digits.drop (digits.length + e).toNat).length = e := by
      rw [List.length_drop]
      omega
    simp only [Literal.decimal, Literal.digits, Literal.power, Option.getD_some, List.take_append_drop, exponent]
  · -- zeros up to the point, and one behind it
    obtain ⟨k, rfl⟩ : ∃ k : Nat, e = k := ⟨e.toNat, by omega⟩
    have padding : ((digits.length + k : Int)).toNat - digits.length = k := by omega
    have coefficient : ofDigits (digits ++ zeros k ++ ['0']) = ofDigits digits * 10 ^ (k + 1) := by
      rw [List.append_assoc, zeros, ← List.replicate_succ']
      exact ofDigits_append_zeros digits (k + 1)
    simp only [Literal.decimal, Literal.digits, Literal.power, Option.getD_some, padding, coefficient, Decimal.value]
    push_cast
    rw [mul_assoc, ← zpow_natCast, ← zpow_add₀ (by norm_num)]
    congr 2
    simp

theorem decimal_scientificLiteral {digits : List Char} (ne : digits ≠ []) (e : Int) :
    (scientificLiteral negative digits (digits.length + e - 1)).decimal = ⟨ofDigits digits, e⟩ := by
  have power : (scientificLiteral negative digits (digits.length + e - 1)).power = digits.length + e - 1 := by
    simp only [scientificLiteral, Literal.power, signedValue, ofDigits_digitsOf]
    by_cases below : (digits.length : Int) + e - 1 < 0
    · rw [if_pos below, if_pos rfl]
      omega
    · rw [if_neg below, if_neg (by decide)]
      omega
  have places : ((scientificLiteral negative digits (digits.length + e - 1)).fraction.getD []).length =
      digits.length - 1 := by
    simp only [scientificLiteral]
    split
    · rename_i single
      exact (Nat.sub_eq_zero_of_le single).symm
    · exact List.length_drop
  have length : 0 < digits.length := List.length_pos_iff.mpr ne
  rw [Literal.decimal, digits_scientificLiteral, power, places, Decimal.mk.injEq]
  exact ⟨rfl, by omega⟩

theorem value_layoutLiteral (layout : Decimal.Layout) (negative : Bool) (d : Decimal) :
    (layoutLiteral layout negative d).decimal.value = d.value := by
  unfold layoutLiteral
  dsimp only
  split
  · rw [value_positionalLiteral, ofDigits_digitsOf]
  · rw [decimal_scientificLiteral (digitsOf_ne_nil _), ofDigits_digitsOf]

end

/-- The literal of a finite real, shortest and in the layout of JSON. -/
def realLiteral (x : Binary64) : Literal := layoutLiteral numberLayout x.isNegative x.shortest

variable {x : Binary64}

theorem writeReal_eq (h : x.isFinite = true) : writeReal x = (realLiteral x).chars := by
  rw [writeReal, if_pos h, Literal.chars, realLiteral, negative_layoutLiteral, unsigned_layoutLiteral,
    Decimal.Layout.renderBinary64]
  by_cases zero : x.isZero = true
  · rw [Binary64.shortest, if_pos zero, if_pos zero]
    rfl
  · rw [if_neg zero]

theorem point_or_exponent_realLiteral (x : Binary64) :
    '.' ∈ (realLiteral x).chars ∨ 'e' ∈ (realLiteral x).chars := by
  rcases fraction_or_exponent_layoutLiteral numberLayout x.isNegative x.shortest with
    ⟨fs, fraction⟩ | ⟨sign, ds, exponent⟩
  · left
    simp [realLiteral, Literal.chars, Literal.unsigned, Literal.fractionChars, fraction]
  · right
    simp [realLiteral, Literal.chars, Literal.unsigned, Literal.exponentChars, exponent]

theorem formed_realLiteral (h : x.isFinite = true) : (realLiteral x).Formed := by
  have compact := Binary64.compact_shortest h
  unfold realLiteral layoutLiteral
  dsimp only
  split
  · refine formed_positionalLiteral (digits_digitsOf _) fun first => ?_
    have zero := zero_of_head?_digitsOf first
    rw [zero, compact.zero zero]
    exact ⟨rfl, rfl⟩
  · exact formed_scientificLiteral _ (digits_digitsOf _)

theorem fits_realLiteral (h : x.isFinite = true) : (realLiteral x).Fits := by
  have compact := Binary64.compact_shortest h
  have small : ofDigits (digitsOf x.shortest.coefficient) ≤ 10 ^ 17 := by
    rw [ofDigits_digitsOf]
    exact compact.coefficient
  unfold realLiteral layoutLiteral
  dsimp only
  split
  · rename_i place
    refine fits_positionalLiteral (digits_digitsOf _).2 small ?_
    have limit : numberLayout.limit = 16 := rfl
    simp only [Bool.and_eq_true, decide_eq_true_eq, limit] at place
    omega
  · refine fits_scientificLiteral small ?_
    have short : (digitsOf x.shortest.coefficient).length ≤ 18 :=
      length_digitsOf_le (by decide) (Nat.lt_of_le_of_lt compact.coefficient (by decide))
    have := compact.low
    have := compact.high
    omega

theorem read_realLiteral (h : x.isFinite = true) : read x.isNegative (realLiteral x).unsigned =
    finish x.isNegative (realLiteral x).decimal.coefficient (realLiteral x).decimal.exponent [] := by
  refine read_unsigned (formed_realLiteral h) (fits_realLiteral h) ?_ _
  rcases fraction_or_exponent_layoutLiteral numberLayout x.isNegative x.shortest with
    ⟨fs, fraction⟩ | ⟨sign, ds, exponent⟩
  · exact .inl (by simp [realLiteral, fraction])
  · exact .inr (by simp [realLiteral, exponent])

end TableQuery.Json.Number
