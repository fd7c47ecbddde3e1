import TableQuery.Proofs.Json.Start
import TableQuery.Proofs.Json.Written
import TableQuery.Proofs.Json.WrittenNumbers
import TableQuery.Query.Value

/-! # Argument values through JSON

A value is written without its kind, and read back as the first kind that fits. The kinds stay apart:
words and strings start with characters of their own, an integer is written in digits alone, and a real
with a point or an exponent. -/

namespace TableQuery

open Json (Document Number)

namespace Json.Document

variable {l : Number.Literal}

/-- A number is read by its literal. -/
theorem read_chars (formed : l.Formed) :
    Document.read l.chars = do
      let (n, rest) ← Number.read l.negative l.unsigned
      return (.number n, rest) := by
  cases sign : l.negative with
  | true =>
    have chars : l.chars = '-' :: l.unsigned := by simp [Number.Literal.chars, sign]
    rw [chars]
    rfl
  | false =>
    have chars : l.chars = l.unsigned := by simp [Number.Literal.chars, sign]
    obtain ⟨ne, all⟩ := formed.whole
    cases whole : l.whole with
    | nil => exact absurd whole ne
    | cons c ds =>
      have digit : isDigit c = true := all c (by simp [whole])
      have apart {d : Char} (hd : isDigit d = false) : c ≠ d := by
        rintro rfl
        exact absurd digit (by simp [hd])
      have start : skipBlanks l.chars = c :: (ds ++ (l.fractionChars ++ l.exponentChars)) := by
        rw [chars, Number.Literal.unsigned, whole, List.cons_append, skipBlanks_cons (isBlank_of_isDigit digit)]
      rw [Document.read, readWithin, readUsing, startingAt_eq start]
      simp only [apart (d := 'n') rfl, apart (d := 't') rfl, apart (d := 'f') rfl, apart (d := '-') rfl, digit,
        if_false, if_true, Number.Literal.unsigned, whole, List.cons_append]

theorem read_writeText (s : String) : Document.read (writeText s) = .ok (.text s, []) := by
  have chars := (spellsChars_flatMap s.toList []).readString
  have start : skipBlanks (writeText s) = '\x22' :: (s.toList.flatMap writtenChar ++ ['\x22']) := by
    rw [writeText, List.cons_append, skipBlanks_cons rfl]
  rw [Document.read, readWithin, readUsing, startingAt_eq start]
  have quote : isDigit '\x22' = false := rfl
  simp [chars, quote, bind, Except.bind, pure, Except.pure]

end Json.Document

namespace Value

open Binary64 (RoundsTo)

variable {text : String} {d : Document}

theorem ofJson_of_read (h : Document.read text.toList = .ok (d, [])) :
    ofJson text = match ofDocument? d with
      | none => .error noSuchValue
      | some v => .ok v := by
  have first : Json.readFirst Document.read text = .ok d := Json.readFirst_eq_ok_iff.mpr ⟨[], h⟩
  have whole : Json.readWhole Document.read text = .ok d := Json.readWhole_eq_ok_iff.mpr ⟨[], h, by simp⟩
  rw [ofJson, first, whole]
  rfl

theorem exists_error_of_read {f : Json.Fault} (h : Document.read text.toList = .error f) :
    ∃ c, ofJson text = .error c := by
  have first : Json.readFirst Document.read text = .error (f.complaint text.toList) := by
    rw [Json.readFirst, h]
  exact ⟨_, by rw [ofJson, first]⟩

theorem isInt64_toInt (n : Int64) : isInt64 n.toInt = true := by
  have := n.le_toInt
  have := n.toInt_lt
  simp only [isInt64, Bool.and_eq_true, decide_eq_true_eq]
  omega

theorem ofWhole_natAbs {n : Int} (h : isInt64 n = true) : Number.ofWhole (n < 0) n.natAbs = .integer n := by
  simp only [isInt64, Bool.and_eq_true, decide_eq_true_eq] at h
  unfold Number.ofWhole
  by_cases negative : n < 0
  · -- a minus stands neither before a zero nor before more than the least integer
    have zero : n.natAbs ≠ 0 := by omega
    have large : ¬ Nat.pow 2 63 < n.natAbs := by simp only [Nat.pow_eq]; omega
    have value : -(n.natAbs : Int) = n := by omega
    simp only [negative, zero, large, value, decide_true, Bool.not_true, decide_false, Bool.or_false, if_false,
      Bool.false_eq_true]
  · have value : (n.natAbs : Int) = n := by omega
    simp [negative, value]

theorem ofJson_integer (n : Int64) : ofJson (toJson (.integer n)) = .ok (.integer n) := by
  have inside := isInt64_toInt n
  have small : n.toInt.natAbs < 2 ^ 64 := by
    simp only [isInt64, Bool.and_eq_true, decide_eq_true_eq] at inside
    omega
  have formed := Number.formed_integerLiteral n.toInt
  have number := Number.read_whole formed (Number.fits_integerLiteral small) rfl rfl (n.toInt < 0)
  have read : Document.read (toJson (.integer n)).toList = .ok (.number (.integer n.toInt), []) := by
    rw [toJson, String.toList_ofList, Number.writeInteger_eq, Document.read_chars formed]
    have value : Number.ofWhole (n.toInt < 0) (ofDigits (Number.integerLiteral n.toInt).whole) = .integer n.toInt := by
      rw [Number.integerLiteral, ofDigits_digitsOf, ofWhole_natAbs inside]
    have sign : (Number.integerLiteral n.toInt).negative = decide (n.toInt < 0) := rfl
    rw [sign, number, value]
    rfl
  rw [ofJson_of_read read, ofDocument?, if_pos inside, Int64.ofInt_toInt]

/-- What is written for a finite real spells a decimal that goes back to it when it is rounded. It is read
as this decimal, scaled as JSON numbers are. -/
theorem ofJson_real {x : Binary64} (h : x.isFinite = true) :
    ∃ d : Decimal, Decimal.read? (toJson (.real x)).toList = some (x.isNegative, d) ∧ RoundsTo d.value x ∧
      ∀ v, ofJson (toJson (.real x)) = .ok v ↔
        ∃ y, Number.scaled x.isNegative d.coefficient d.exponent = some y ∧ v = .real y := by
  have formed := Number.formed_realLiteral h
  have written : (toJson (.real x)).toList = (Number.realLiteral x).chars := by
    rw [toJson, String.toList_ofList, Number.writeReal_eq h]
  have sign : (Number.realLiteral x).negative = x.isNegative := Number.negative_layoutLiteral
  refine ⟨(Number.realLiteral x).decimal, ?_, ?_, fun v => ?_⟩
  · rw [written, Number.Literal.read?_chars formed, sign]
  · rw [Number.realLiteral, Number.value_layoutLiteral]
    exact Binary64.roundsTo_shortest h
  have read := Document.read_chars formed
  rw [sign, Number.read_realLiteral h, Number.finish, ← written] at read
  cases scaled : Number.scaled x.isNegative (Number.realLiteral x).decimal.coefficient
      (Number.realLiteral x).decimal.exponent with
  | none =>
    rw [scaled] at read
    obtain ⟨c, refused⟩ := exists_error_of_read read
    simp [refused]
  | some y =>
    rw [scaled] at read
    have taken : ofJson (toJson (.real x)) = .ok (.real y) := ofJson_of_read read
    simp [taken, eq_comm]

/-- A value is read back from what is written for it. A finite real is so if what is written is scaled
to it; it is written with a point or an exponent, as a decimal that is rounded to it, and read as a real or
not at all. The others are written as `null`, which is refused. -/
theorem ofJson_toJson :
    (∀ b, ofJson (toJson (.boolean b)) = .ok (.boolean b)) ∧
    (∀ n, ofJson (toJson (.integer n)) = .ok (.integer n)) ∧
    (∀ s, ofJson (toJson (.text s)) = .ok (.text s)) ∧
    (∀ x : Binary64, x.isFinite = true →
      ('.' ∈ (toJson (.real x)).toList ∨ 'e' ∈ (toJson (.real x)).toList) ∧
      ∃ d : Decimal, Decimal.read? (toJson (.real x)).toList = some (x.isNegative, d) ∧ RoundsTo d.value x ∧
        (∀ v, ofJson (toJson (.real x)) = .ok v ↔
          ∃ y, Number.scaled x.isNegative d.coefficient d.exponent = some y ∧ v = .real y) ∧
        (Number.scaled x.isNegative d.coefficient d.exponent = some x →
          ofJson (toJson (.real x)) = .ok (.real x))) ∧
    ∀ x : Binary64, x.isFinite = false →
      toJson (.real x) = "null" ∧ ofJson (toJson (.real x)) = .error noSuchValue := by
  refine ⟨fun b => ?_, ofJson_integer, fun s => ?_, fun x finite => ?_, fun x infinite => ?_⟩
  · cases b <;> rfl
  · have read : Document.read (toJson (.text s)).toList = .ok (.text s, []) := by
      rw [toJson, String.toList_ofList, Document.read_writeText]
    exact ofJson_of_read read
  · obtain ⟨d, spelled, rounds, taken⟩ := ofJson_real finite
    refine ⟨?_, d, spelled, rounds, taken, fun scaled => (taken _).mpr ⟨x, scaled, rfl⟩⟩
    rw [toJson, String.toList_ofList, Number.writeReal_eq finite]
    exact Number.point_or_exponent_realLiteral x
  · have written : toJson (.real x) = "null" := by
      rw [toJson, Json.writeReal, infinite]
      rfl
    exact ⟨written, by rw [written]; rfl⟩

/-- One and a half is scaled to itself. -/
theorem ofJson_toJson_oneAndHalf :
    let x : Binary64 := ⟨0x3FF8000000000000⟩
    x.isFinite = true ∧ toJson (.real x) = "1.5" ∧ Number.scaled false 15 (-1) = some x ∧
      ofJson "1.5" = .ok (.real x) := by
  intro x
  have finite : x.isFinite = true := by decide +kernel
  have written : toJson (.real x) = "1.5" := by decide +kernel
  have scaled : Number.scaled false 15 (-1) = some x := by decide +kernel
  obtain ⟨-, d, spelled, -, -, back⟩ := ofJson_toJson.2.2.2.1 x finite
  rw [written] at spelled back
  have read : Decimal.read? "1.5".toList = some (false, ⟨15, -1⟩) := by decide +kernel
  obtain ⟨sign, rfl⟩ := Prod.mk.inj (Option.some.inj (read.symm.trans spelled))
  exact ⟨finite, written, scaled, back (by rw [← sign, scaled])⟩

end Value

end TableQuery
