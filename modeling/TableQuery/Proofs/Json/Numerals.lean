import TableQuery.Proofs.Decimal.Digits
import TableQuery.Proofs.Json.Tokens

/-! # What the text of a number is read as

A literal spells a decimal: its digits without the point, and the exponent less the digits after the
point. The reader of decimals gives just that (`Literal.read?_append`), for more literals than JSON has
(`Literal.Loose`). The reader of JSON numbers works the same two parts out digit by digit, as long as
they fit, and scales the one by the other (`read_unsigned`). -/

namespace TableQuery.Json.Number

variable {limit n : Nat} {ds rest : List Char} {l : Literal}

theorem takeWhile_digits (h : ∀ c ∈ ds, isDigit c = true) (stops : ∀ c ∈ rest.head?, isDigit c = false) :
    (ds ++ rest).takeWhile isDigit = ds := by
  rw [List.takeWhile_append_of_pos h]
  cases rest with
  | nil => simp
  | cons c rest => simp [stops c rfl]

/-- Digits that stay below the limit are taken in full. -/
theorem absorb_digits (h : 10 ^ ds.length * n + ofDigits ds < limit) :
    absorb limit n ds = (10 ^ ds.length * n + ofDigits ds, []) := by
  induction ds generalizing n with
  | nil => simp [absorb, ofDigits]
  | cons c ds ih =>
    have split : 10 ^ (c :: ds).length * n + ofDigits (c :: ds) =
        10 ^ ds.length * (10 * n + digitValue c) + ofDigits ds := by
      rw [ofDigits_cons, List.length_cons, Nat.pow_succ, Nat.mul_add, Nat.mul_assoc, Nat.add_assoc]
    rw [split] at h ⊢
    have grows : 10 * n + digitValue c ≤ 10 ^ ds.length * (10 * n + digitValue c) :=
      Nat.le_mul_of_pos_left _ (Nat.pow_pos (by decide))
    rw [absorb, if_pos (by omega)]
    exact ih h

theorem absorb_all (h : ofDigits ds < limit) : absorb limit 0 ds = (ofDigits ds, []) := by
  have value : 10 ^ ds.length * 0 + ofDigits ds = ofDigits ds := by rw [Nat.mul_zero, Nat.zero_add]
  have taken := absorb_digits (value.symm ▸ h)
  rwa [value] at taken

/-- The whole number that a sign and digits spell. -/
def signedValue (sign ds : List Char) : Int := if sign = ['-'] then -(ofDigits ds : Int) else ofDigits ds

@[simp] theorem natAbs_signedValue (sign ds : List Char) : (signedValue sign ds).natAbs = ofDigits ds := by
  unfold signedValue
  split <;> simp

namespace Literal

/-- The digits without the point. -/
def digits (l : Literal) : List Char := l.whole ++ l.fraction.getD []

def power (l : Literal) : Int :=
  match l.exponent with
  | none => 0
  | some (_, sign, ds) => signedValue sign ds

/-- The decimal that a literal spells, its sign apart. -/
def decimal (l : Literal) : Decimal := ⟨ofDigits l.digits, l.power - (l.fraction.getD []).length⟩

/-- What a literal of a decimal owes: a digit on either side of the point. Zeros may lead. -/
structure Loose (l : Literal) : Prop where
  digits : Digits l.digits
  exponent : ∀ e ∈ l.exponent,
    isExponentMark e.1 = true ∧ (e.2.1 = [] ∨ e.2.1 = ['+'] ∨ e.2.1 = ['-']) ∧ Digits e.2.2

theorem Formed.loose (h : l.Formed) : l.Loose where
  digits := by
    refine ⟨by simp [digits, h.whole.1], fun c hc => ?_⟩
    rcases List.mem_append.mp hc with whole | fraction
    · exact h.whole.2 c whole
    · cases part : l.fraction with
      | none => simp [part] at fraction
      | some fs => exact (h.fraction fs part).2 c (by simpa [part] using fraction)
  exponent := h.exponent

/-- The digits fit into 64 bits and those of the exponent into 31. -/
structure Fits (l : Literal) : Prop where
  digits : ofDigits l.digits < 2 ^ 64
  exponent : ∀ e ∈ l.exponent, ofDigits e.2.2 < 2 ^ 31

end Literal

theorem splitSign_append {sign cs : List Char} (hsign : sign = [] ∨ sign = ['+'] ∨ sign = ['-'])
    (plain : ∀ c ∈ cs.head?, c ≠ '+' ∧ c ≠ '-') : Decimal.splitSign (sign ++ cs) = (decide (sign = ['-']), cs) := by
  rcases hsign with rfl | rfl | rfl
  · rw [List.nil_append, Decimal.splitSign.eq_def]
    split <;> simp_all
  · rfl
  · rfl

theorem plain_of_isDigit {c : Char} (h : isDigit c = true) : c ≠ '+' ∧ c ≠ '-' := by
  constructor <;> (rintro rfl; cases h)

theorem head?_digits (digits : Digits ds) : ∀ c ∈ ds.head?, c ≠ '+' ∧ c ≠ '-' :=
  fun c hc => plain_of_isDigit (digits.2 c (List.mem_of_mem_head? hc))

theorem readInteger?_append {sign : List Char} (hsign : sign = [] ∨ sign = ['+'] ∨ sign = ['-'])
    (digits : Digits ds) : Decimal.readInteger? (sign ++ ds) = some (signedValue sign ds) := by
  have filled : (ds.isEmpty || !ds.all isDigit) = false := by
    simpa [digits.1] using digits.2
  simp [Decimal.readInteger?, splitSign_append hsign (head?_digits digits), filled, signedValue]

section
variable (loose : l.Loose)
include loose

theorem readExponent?_exponentChars : Decimal.readExponent? l.exponentChars = some l.power := by
  cases exponent : l.exponent with
  | none => simp [Literal.exponentChars, Literal.power, exponent, Decimal.readExponent?]
  | some e =>
    obtain ⟨mark, sign, ds⟩ := e
    obtain ⟨hmark, hsign, digits⟩ := loose.exponent _ exponent
    have hmark : mark = 'e' ∨ mark = 'E' := by simpa [isExponentMark] using hmark
    simp [Literal.exponentChars, Literal.power, exponent, Decimal.readExponent?, hmark,
      readInteger?_append hsign digits]

theorem head?_exponentChars : ∀ c ∈ l.exponentChars.head?, isDigit c = false ∧ c ≠ '.' := by
  cases exponent : l.exponent with
  | none => simp [Literal.exponentChars, exponent]
  | some e =>
    have mark := ne_of_isExponentMark (loose.exponent _ exponent).1
    simpa [Literal.exponentChars, exponent] using mark

theorem head?_fractionChars : ∀ c ∈ (l.fractionChars ++ l.exponentChars).head?, isDigit c = false := by
  cases fraction : l.fraction with
  | none =>
    have exponent := head?_exponentChars loose
    intro c hc
    exact (exponent c (by simpa [Literal.fractionChars, fraction] using hc)).1
  | some fs => simp [Literal.fractionChars, fraction, isDigit]

theorem exists_first_unsigned : ∃ c rest, l.unsigned = c :: rest ∧ (isDigit c = true ∨ c = '.') := by
  cases whole : l.whole with
  | cons c ds =>
    have digit : isDigit c = true := loose.digits.2 c (by simp [Literal.digits, whole])
    exact ⟨c, ds ++ (l.fractionChars ++ l.exponentChars), by simp [Literal.unsigned, whole], .inl digit⟩
  | nil =>
    cases fraction : l.fraction with
    | none => exact absurd (by simp [Literal.digits, whole, fraction]) loose.digits.1
    | some fs =>
      exact ⟨'.', fs ++ l.exponentChars, by simp [Literal.unsigned, Literal.fractionChars, whole, fraction], .inr rfl⟩

theorem head?_unsigned : ∀ c ∈ l.unsigned.head?, c ≠ '+' ∧ c ≠ '-' := by
  obtain ⟨c, rest, first, digit | rfl⟩ := exists_first_unsigned loose
  · simpa [first] using plain_of_isDigit digit
  · simp [first]

theorem Literal.read?_append {sign : List Char} (hsign : sign = [] ∨ sign = ['+'] ∨ sign = ['-']) :
    Decimal.read? (sign ++ l.unsigned) = some (decide (sign = ['-']), l.decimal) := by
  have digits : ∀ c ∈ l.whole, isDigit c = true := fun c hc => loose.digits.2 c (List.mem_append_left _ hc)
  have taken : l.unsigned.takeWhile isDigit = l.whole := takeWhile_digits digits (head?_fractionChars loose)
  have dropped : l.unsigned.dropWhile isDigit = l.fractionChars ++ l.exponentChars :=
    dropWhile_digits digits (head?_fractionChars loose)
  have stops : ∀ c ∈ l.exponentChars.head?, isDigit c = false := fun c hc => (head?_exponentChars loose c hc).1
  have exponent := readExponent?_exponentChars loose
  simp only [Decimal.read?, splitSign_append hsign (head?_unsigned loose), taken, dropped]
  cases fraction : l.fraction with
  | none =>
    have apart : ∀ c ∈ l.exponentChars.head?, c ≠ '.' := fun c hc => (head?_exponentChars loose c hc).2
    simp only [Literal.fractionChars, fraction, List.nil_append]
    split
    · rename_i first
      exact absurd rfl (apart '.' (by simp [first]))
    · have filled : l.whole ≠ [] := by simpa [Literal.digits, fraction] using loose.digits.1
      simp [filled, exponent, Literal.decimal, Literal.digits, fraction]
  | some fs =>
    have all : ∀ c ∈ fs, isDigit c = true := fun c hc => loose.digits.2 c (by simp [Literal.digits, fraction, hc])
    have filled : l.whole = [] → fs ≠ [] := by simpa [Literal.digits, fraction] using loose.digits.1
    simpa [Literal.fractionChars, fraction, takeWhile_digits all stops, dropWhile_digits all stops, exponent,
      Literal.decimal, Literal.digits] using filled

end

section
variable (formed : l.Formed)
include formed

theorem Literal.read?_chars : Decimal.read? l.chars = some (l.negative, l.decimal) := by
  have hsign : (if l.negative then ['-'] else []) = [] ∨ (if l.negative then ['-'] else []) = ['+'] ∨
      (if l.negative then ['-'] else []) = ['-'] := by split <;> simp
  rw [Literal.chars, Literal.read?_append formed.loose hsign]
  cases l.negative <;> rfl

theorem readExponent_append {mark : Char} {sign : List Char} (exponent : l.exponent = some (mark, sign, ds))
    (fits : l.Fits) (negative : Bool) (significand : Nat) (e : Int) :
    readExponent negative significand e (sign ++ ds) = finish negative significand (e + l.power) [] := by
  obtain ⟨-, hsign, digits⟩ := formed.exponent _ exponent
  have absorbed : absorb (Nat.pow 2 31) 0 ds = (ofDigits ds, []) := absorb_all (fits.exponent _ exponent)
  have ends : ∀ c ∈ ([] : List Char).head?, isDigit c = false := by simp
  have taken := takeWhile_digits digits.2 ends
  have dropped := dropWhile_digits digits.2 ends
  rw [List.append_nil] at taken dropped
  have power : l.power = signedValue sign ds := by rw [Literal.power, exponent]
  rw [readExponent, splitSign_append hsign (head?_digits digits), power]
  generalize Nat.pow 2 31 = limit at absorbed ⊢
  obtain ⟨ne, all⟩ := digits
  cases ds with
  | nil => exact absurd rfl ne
  | cons d ds =>
    have digit : isDigit d = true := all d (by simp)
    by_cases minus : sign = ['-'] <;>
      simp [digit, taken, dropped, absorbed, minus, signedValue, Int.sub_eq_add_neg]

theorem readFraction_append {fs : List Char} (fraction : l.fraction = some fs) (fits : l.Fits) (negative : Bool) :
    readFraction negative (ofDigits l.whole) 0 (fs ++ l.exponentChars) =
      finish negative l.decimal.coefficient l.decimal.exponent [] := by
  obtain ⟨ne, all⟩ := formed.fraction fs fraction
  have stops : ∀ c ∈ l.exponentChars.head?, isDigit c = false := fun c hc => (head?_exponentChars formed.loose c hc).1
  have digits : ofDigits l.digits = 10 ^ fs.length * ofDigits l.whole + ofDigits fs := by
    simp [Literal.digits, fraction, ofDigits_append]
  have absorbed : absorb (Nat.pow 2 64) (ofDigits l.whole) fs = (ofDigits l.digits, []) := by
    rw [digits]
    exact absorb_digits (digits ▸ fits.digits)
  have filled : fs.isEmpty = false := by simp [ne]
  rw [readFraction, takeWhile_digits all stops, dropWhile_digits all stops]
  generalize Nat.pow 2 64 = limit at absorbed ⊢
  cases exponent : l.exponent with
  | none =>
    simp [Literal.exponentChars, exponent, filled, absorbed, Literal.decimal, Literal.power, fraction]
  | some e =>
    obtain ⟨mark, sign, ds⟩ := e
    have hmark : isExponentMark mark = true := (formed.exponent _ exponent).1
    have read := readExponent_append formed exponent fits negative (ofDigits l.digits) (-(fs.length : Int))
    simp [Literal.exponentChars, exponent, filled, absorbed, hmark, read, Literal.decimal, fraction,
      Int.sub_eq_add_neg, Int.add_comm]

/-- What is done after the digits in front of a point or an exponent, all of which fit. -/
def readTail (negative : Bool) (significand : Nat) : Reader Number := fun cs =>
  match cs with
  | '.' :: rest => readFraction negative significand 0 rest
  | c :: after =>
    if isExponentMark c then readExponent negative significand 0 after
    else .ok (ofWhole negative significand, cs)
  | [] => .ok (ofWhole negative significand, cs)

theorem read_eq_readTail (fits : l.Fits) (negative : Bool) :
    read negative l.unsigned = readTail negative (ofDigits l.whole) (l.fractionChars ++ l.exponentChars) := by
  have stops := head?_fractionChars formed.loose
  have taken := takeWhile_digits formed.whole.2 stops
  have dropped := dropWhile_digits formed.whole.2 stops
  have small : ofDigits l.whole < 2 ^ 64 := by
    have bound : ofDigits l.digits < 2 ^ 64 := fits.digits
    have grows : ofDigits l.whole ≤ 10 ^ (l.fraction.getD []).length * ofDigits l.whole :=
      Nat.le_mul_of_pos_left _ (Nat.pow_pos (by decide))
    rw [Literal.digits, ofDigits_append] at bound
    omega
  have absorbed : absorb (Nat.pow 2 64) 0 l.whole = (ofDigits l.whole, []) := absorb_all small
  obtain ⟨ne, all⟩ := formed.whole
  cases whole : l.whole with
  | nil => exact absurd whole ne
  | cons c ds =>
    have digit : isDigit c = true := all c (by simp [whole])
    have zero := zero_ends_whole formed whole stops
    rw [whole, List.cons_append] at taken dropped
    rw [whole] at absorbed
    rw [Literal.unsigned, whole, List.cons_append, read, taken, dropped, zero]
    simp only [digit, absorbed, Bool.not_true, Bool.false_eq_true, if_false, List.isEmpty_nil, if_true,
      List.length_nil]
    rfl

theorem read_unsigned (fits : l.Fits) (part : l.fraction ≠ none ∨ l.exponent ≠ none) (negative : Bool) :
    read negative l.unsigned = finish negative l.decimal.coefficient l.decimal.exponent [] := by
  rw [read_eq_readTail formed fits]
  cases fraction : l.fraction with
  | some fs =>
    rw [Literal.fractionChars, fraction]
    exact readFraction_append formed fraction fits negative
  | none =>
    cases exponent : l.exponent with
    | none => simp [fraction, exponent] at part
    | some e =>
      obtain ⟨mark, sign, ds⟩ := e
      have hmark : isExponentMark mark = true := (formed.exponent _ exponent).1
      have point := (ne_of_isExponentMark hmark).2
      have read := readExponent_append formed exponent fits negative (ofDigits l.whole) 0
      simp [readTail, Literal.fractionChars, Literal.exponentChars, fraction, exponent, hmark, read,
        Literal.decimal, Literal.digits]

theorem read_whole (fits : l.Fits) (fraction : l.fraction = none) (exponent : l.exponent = none) (negative : Bool) :
    read negative l.unsigned = .ok (ofWhole negative (ofDigits l.whole), []) := by
  rw [read_eq_readTail formed fits]
  simp [readTail, Literal.fractionChars, Literal.exponentChars, fraction, exponent]

end

end TableQuery.Json.Number
