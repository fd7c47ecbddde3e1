import TableQuery.Proofs.Json.Numerals

/-! # The numbers that a text spells

`SpellsInteger` and `Spells` are the two grammars of numbers outside JSON, with the number that a text
of them stands for. The readers take the texts of the grammars and no others
(`readInteger?_eq_some_iff`, `read?_eq_some_iff`), so a text spells one number at most. -/

namespace TableQuery.Decimal

open Json (Digits)
open Json.Number (Literal isExponentMark signedValue)

def IsSign (sign : List Char) : Prop := sign = [] ∨ sign = ['+'] ∨ sign = ['-']

/-- `cs` is a sign and one or more digits, for the number `n`. -/
def SpellsInteger (cs : List Char) (n : Int) : Prop :=
  ∃ sign ds, IsSign sign ∧ Digits ds ∧ cs = sign ++ ds ∧ n = signedValue sign ds

/-- `cs` is a sign, digits that may have a point before, among or after them, and an exponent part or
none: a decimal `d` that is `negative` or not. -/
def Spells (cs : List Char) (negative : Bool) (d : Decimal) : Prop :=
  ∃ (sign : List Char) (l : Literal), IsSign sign ∧ l.Loose ∧ cs = sign ++ l.unsigned ∧
    negative = decide (sign = ['-']) ∧ d = l.decimal

variable {cs : List Char} {n k : Int} {negative : Bool} {d : Decimal}

theorem exists_sign (cs : List Char) :
    ∃ sign, IsSign sign ∧ cs = sign ++ (splitSign cs).2 ∧ (splitSign cs).1 = decide (sign = ['-']) := by
  unfold splitSign
  split
  · exact ⟨['-'], .inr (.inr rfl), rfl, rfl⟩
  · exact ⟨['+'], .inr (.inl rfl), rfl, rfl⟩
  · exact ⟨[], .inl rfl, rfl, rfl⟩

theorem readInteger?_eq_some_iff : readInteger? cs = some n ↔ SpellsInteger cs n := by
  constructor
  · intro h
    obtain ⟨sign, isSign, chars, minus⟩ := exists_sign cs
    simp only [readInteger?] at h
    split at h
    · cases h
    · rename_i filled
      have digits : Digits (splitSign cs).2 := by simpa [Digits] using filled
      refine ⟨sign, (splitSign cs).2, isSign, digits, chars, ?_⟩
      simpa [minus, signedValue, eq_comm] using h
  · rintro ⟨sign, ds, isSign, digits, rfl, rfl⟩
    exact Json.Number.readInteger?_append isSign digits

/-- An exponent part that is read is one, of whatever literal. -/
theorem exists_exponent (h : readExponent? cs = some k) (l : Literal) :
    ∃ exponent, (∀ e ∈ exponent, isExponentMark e.1 = true ∧ IsSign e.2.1 ∧ Digits e.2.2) ∧
      { l with exponent := exponent }.exponentChars = cs ∧ { l with exponent := exponent }.power = k := by
  cases cs with
  | nil =>
    cases h
    exact ⟨none, nofun, rfl, rfl⟩
  | cons mark cs =>
    rw [readExponent?] at h
    split at h
    · rename_i isMark
      obtain ⟨sign, ds, isSign, digits, rfl, rfl⟩ := readInteger?_eq_some_iff.mp h
      refine ⟨some (mark, sign, ds), ?_, rfl, rfl⟩
      rintro _ ⟨⟩
      exact ⟨by simpa [isExponentMark] using isMark, isSign, digits⟩
    · cases h

theorem digits_takeWhile (cs : List Char) : ∀ c ∈ cs.takeWhile isDigit, isDigit c = true :=
  fun _ hc => List.all_eq_true.mp List.all_takeWhile _ hc

/-- The parts that are read make up a literal. -/
theorem spells_of_parts {sign whole rest : List Char} (fraction : Option (List Char)) (isSign : IsSign sign)
    (filled : whole = [] → fraction.getD [] ≠ []) (allWhole : ∀ c ∈ whole, isDigit c = true)
    (allFraction : ∀ c ∈ fraction.getD [], isDigit c = true) (read : readExponent? rest = some k) :
    Spells (sign ++ (whole ++ ((Literal.mk false whole fraction none).fractionChars ++ rest)))
      (decide (sign = ['-'])) ⟨ofDigits (whole ++ fraction.getD []), k - (fraction.getD []).length⟩ := by
  obtain ⟨exponent, formed, rfl, rfl⟩ := exists_exponent read ⟨false, whole, fraction, none⟩
  have digits : Digits (whole ++ fraction.getD []) :=
    ⟨by simpa using filled, fun c hc => (List.mem_append.mp hc).elim (allWhole c) (allFraction c)⟩
  exact ⟨sign, ⟨false, whole, fraction, exponent⟩, isSign, ⟨digits, formed⟩, rfl, rfl, rfl⟩

theorem spells_of_read? (h : read? cs = some (negative, d)) : Spells cs negative d := by
  obtain ⟨sign, isSign, chars, minus⟩ := exists_sign cs
  simp only [read?, minus] at h
  generalize (splitSign cs).2 = unsigned at chars h
  have whole := digits_takeWhile unsigned
  rw [chars, ← List.takeWhile_append_dropWhile (p := isDigit) (l := unsigned)]
  generalize unsigned.takeWhile isDigit = ds at whole h ⊢
  generalize unsigned.dropWhile isDigit = tail at h ⊢
  split at h <;> obtain ⟨filled, parts⟩ := Option.ite_none_left_eq_some.mp h <;>
    obtain ⟨k, read, ⟨⟩⟩ := Option.bind_eq_some_iff.mp parts
  · rename_i after
    have spells := spells_of_parts (some (after.takeWhile isDigit)) isSign (by simpa using filled) whole
      (digits_takeWhile after) read
    simpa [Literal.fractionChars] using spells
  · exact spells_of_parts none isSign (by simpa using filled) whole (by simp) read

theorem read?_eq_some_iff : read? cs = some (negative, d) ↔ Spells cs negative d := by
  constructor
  · exact spells_of_read?
  · rintro ⟨sign, l, isSign, loose, rfl, rfl, rfl⟩
    exact Literal.read?_append loose isSign

theorem SpellsInteger.unique {m : Int} (h : SpellsInteger cs n) (h' : SpellsInteger cs m) : n = m :=
  Option.some.inj ((readInteger?_eq_some_iff.mpr h).symm.trans (readInteger?_eq_some_iff.mpr h'))

theorem Spells.unique {negative' : Bool} {d' : Decimal} (h : Spells cs negative d) (h' : Spells cs negative' d') :
    negative = negative' ∧ d = d' :=
  Prod.mk.inj (Option.some.inj ((read?_eq_some_iff.mpr h).symm.trans (read?_eq_some_iff.mpr h')))

/-- After its sign a decimal starts with a digit or a point. -/
theorem Spells.exists_first (h : Spells cs negative d) :
    ∃ c rest, (splitSign cs).2 = c :: rest ∧ (isDigit c = true ∨ c = '.') := by
  obtain ⟨sign, l, isSign, loose, rfl, -, -⟩ := h
  rw [Json.Number.splitSign_append isSign (Json.Number.head?_unsigned loose)]
  exact Json.Number.exists_first_unsigned loose

/-- An integer is a decimal as well. Zero may have a minus. -/
theorem SpellsInteger.spells (h : SpellsInteger cs n) :
    ∃ negative, Spells cs negative ⟨n.natAbs, 0⟩ ∧ (n ≠ 0 → negative = decide (n < 0)) := by
  obtain ⟨sign, ds, isSign, digits, rfl, rfl⟩ := h
  have loose : (⟨false, ds, none, none⟩ : Literal).Loose := ⟨by simpa [Literal.digits] using digits, nofun⟩
  refine ⟨decide (sign = ['-']), ⟨sign, ⟨false, ds, none, none⟩, isSign, loose, ?_, rfl, ?_⟩, fun nonzero => ?_⟩
  · simp [Literal.unsigned, Literal.fractionChars, Literal.exponentChars]
  · simp [Literal.decimal, Literal.digits, Literal.power]
  · by_cases minus : sign = ['-']
    · rw [signedValue, if_pos minus] at nonzero ⊢
      rw [decide_eq_true minus, decide_eq_true (by omega)]
    · rw [signedValue, if_neg minus, decide_eq_false minus, decide_eq_false (by omega)]

end TableQuery.Decimal
