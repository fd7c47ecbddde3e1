import TableQuery.Proofs.Decimal.Rounding
import TableQuery.Proofs.Decimal.Spelled
import TableQuery.Proofs.Query.Values

/-! # What a text is read as

A text is a boolean, an integer of 64 bits, a finite real or else itself. The three readers are tried
in turn, but their texts overlap in one way only: an integer is a decimal as well. So each kind has a
condition of its own on the text, and a text is itself if it meets none of them. An integer of JSON is
one of these texts, so both readers of values can be compared on it. -/

namespace TableQuery.Value

open Decimal (IsSign Spells SpellsInteger)
open Binary64 (IsNearest limit)
open Json (Digits Document Number)
open Json.Number (signedValue)

/-- `s` spells an integer of 64 bits. -/
def SpellsInt64 (s : String) : Prop := ∃ n, SpellsInteger s.toList n ∧ -2 ^ 63 ≤ n ∧ n < 2 ^ 63

/-- `s` spells a decimal that is rounded to the finite number `x`. -/
def SpellsReal (s : String) (x : Binary64) : Prop :=
  ∃ d, Spells s.toList x.isNegative d ∧ d.value < limit ∧ IsNearest d.value x

variable {s : String} {b : Bool} {m : Int} {n : Int64} {x : Binary64} {negative : Bool} {d : Decimal}

theorem readBoolean?_eq_some_iff : readBoolean? s = some b ↔ s = if b then "true" else "false" := by
  unfold readBoolean?
  split
  · rename_i yes
    cases b <;> simp [yes]
  · split
    · rename_i no
      cases b <;> simp [no]
    · cases b <;> simp [*]

theorem readBoolean?_eq_none_iff : readBoolean? s = none ↔ s ≠ "true" ∧ s ≠ "false" := by
  unfold readBoolean?
  split
  · simp_all
  split <;> simp_all

theorem isInt64_iff : isInt64 m = true ↔ -2 ^ 63 ≤ m ∧ m < 2 ^ 63 := by
  simp [isInt64]

theorem readInteger?_eq_some_iff : readInteger? s = some n ↔ SpellsInteger s.toList n.toInt := by
  rw [← Decimal.readInteger?_eq_some_iff, readInteger?]
  cases read : Decimal.readInteger? s.toList with
  | none => simp
  | some m =>
    by_cases inside : isInt64 m = true
    · obtain ⟨low, high⟩ := isInt64_iff.mp inside
      have back : (Int64.ofInt m).toInt = m := Int64.toInt_ofInt_of_le low high
      simp only [inside, if_true, Option.some.injEq]
      exact ⟨fun eq => eq ▸ back.symm, fun eq => by rw [eq, Int64.ofInt_toInt]⟩
    · simp only [inside, if_false, Option.some.injEq, reduceCtorEq, false_iff]
      rintro rfl
      exact inside (isInt64_toInt n)

theorem readInteger?_eq_none_iff : readInteger? s = none ↔ ¬ SpellsInt64 s := by
  rw [← not_iff_not, not_not, ← ne_eq, Option.ne_none_iff_exists']
  constructor
  · rintro ⟨n, read⟩
    exact ⟨n.toInt, readInteger?_eq_some_iff.mp read, isInt64_iff.mp (isInt64_toInt n)⟩
  · rintro ⟨m, spells, low, high⟩
    exact ⟨.ofInt m, readInteger?_eq_some_iff.mpr (by rwa [Int64.toInt_ofInt_of_le low high])⟩

/-- The number is settled by the sign and the value of the decimal. -/
theorem readReal?_eq_some_iff : readReal? s = some x ↔ SpellsReal s x := by
  constructor
  · intro h
    rw [readReal?] at h
    split at h
    · rename_i negative d read
      obtain ⟨finite, ⟨⟩⟩ := Option.ite_none_right_eq_some.mp h
      have rounds := d.roundsTo_toBinary64 negative
      have below := rounds.finite.mp finite
      have spells : Spells s.toList (d.toBinary64 negative).isNegative d := by
        rw [Decimal.isNegative_toBinary64]
        exact Decimal.read?_eq_some_iff.mp read
      exact ⟨d, spells, below, rounds.nearest below⟩
    · cases h
  · rintro ⟨d, spells, below, nearest⟩
    have rounds := d.roundsTo_toBinary64 x.isNegative
    have same : d.toBinary64 x.isNegative = x :=
      (rounds.nearest below).unique nearest Decimal.isNegative_toBinary64
    have finite := rounds.finite.mpr below
    have read := Decimal.read?_eq_some_iff.mpr spells
    rw [same] at finite
    simp [readReal?, read, same, finite]

theorem exists_spellsReal (h : Spells s.toList negative d) (below : d.value < limit) :
    ∃ x, SpellsReal s x ∧ x.isNegative = negative ∧ IsNearest d.value x :=
  have nearest := (d.roundsTo_toBinary64 negative).nearest below
  have sign := Decimal.isNegative_toBinary64
  ⟨d.toBinary64 negative, ⟨d, sign.symm ▸ h, below, nearest⟩, sign, nearest⟩

theorem readReal?_eq_none_iff :
    readReal? s = none ↔ ∀ negative d, Spells s.toList negative d → limit ≤ d.value := by
  constructor
  · intro h negative d spells
    by_contra below
    obtain ⟨x, real, -⟩ := exists_spellsReal spells (not_le.mp below)
    rw [readReal?_eq_some_iff.mpr real] at h
    cases h
  · intro h
    by_contra hsome
    obtain ⟨x, read⟩ := Option.ne_none_iff_exists'.mp hsome
    obtain ⟨d, spells, below, -⟩ := readReal?_eq_some_iff.mp read
    exact absurd below (h _ _ spells).not_gt

theorem readers_of_not_spells (h : ∀ negative d, ¬ Spells s.toList negative d) :
    readInteger? s = none ∧ readReal? s = none := by
  refine ⟨readInteger?_eq_none_iff.mpr ?_, readReal?_eq_none_iff.mpr fun negative d spells => absurd spells (h _ _)⟩
  rintro ⟨n, spells, -⟩
  obtain ⟨negative, spells, -⟩ := spells.spells
  exact h _ _ spells

theorem not_spells_of_boolean (h : readBoolean? s = some b) (negative : Bool) (d : Decimal) :
    ¬ Spells s.toList negative d := by
  obtain rfl := readBoolean?_eq_some_iff.mp h
  rw [← Decimal.read?_eq_some_iff]
  cases b <;> exact nofun

theorem ofText_eq_boolean_iff : ofText s = .boolean b ↔ readBoolean? s = some b := by
  rw [ofText]
  cases readBoolean? s with
  | some b' => simp
  | none => cases readInteger? s <;> cases readReal? s <;> simp

theorem ofText_eq_integer_iff : ofText s = .integer n ↔ readInteger? s = some n := by
  rw [ofText]
  cases boolean : readBoolean? s with
  | some b => simp [(readers_of_not_spells (not_spells_of_boolean boolean)).1]
  | none => cases readInteger? s <;> cases readReal? s <;> simp

theorem ofText_eq_real_iff : ofText s = .real x ↔ readInteger? s = none ∧ readReal? s = some x := by
  rw [ofText]
  cases boolean : readBoolean? s with
  | some b => simp [(readers_of_not_spells (not_spells_of_boolean boolean)).2]
  | none => cases readInteger? s <;> cases readReal? s <;> simp

theorem ofText_eq_text_iff {t : String} :
    ofText s = .text t ↔ t = s ∧ readBoolean? s = none ∧ readInteger? s = none ∧ readReal? s = none := by
  rw [ofText]
  cases readBoolean? s <;> cases readInteger? s <;> cases readReal? s <;> simp [eq_comm]

/-- Whatever does not start like a number or a boolean is itself. -/
theorem ofText_of_first {c : Char} {sign rest : List Char} (isSign : IsSign sign) (chars : s.toList = sign ++ c :: rest)
    (digit : isDigit c = false) (apart : c ≠ '.' ∧ c ≠ '+' ∧ c ≠ '-' ∧ c ≠ 't' ∧ c ≠ 'f') : ofText s = .text s := by
  have first : (Decimal.splitSign s.toList).2 = c :: rest := by
    have plain : ∀ d ∈ (c :: rest).head?, d ≠ '+' ∧ d ≠ '-' := by simp [apart]
    rw [chars, Json.Number.splitSign_append isSign plain]
  have unread (negative : Bool) (d : Decimal) : ¬ Spells s.toList negative d := by
    intro spells
    obtain ⟨c', rest', first', start⟩ := spells.exists_first
    obtain ⟨rfl, -⟩ := List.cons.inj (first.symm.trans first')
    simp [digit, apart] at start
  refine ofText_eq_text_iff.mpr ⟨rfl, readBoolean?_eq_none_iff.mpr ⟨?_, ?_⟩, readers_of_not_spells unread⟩
  · rintro rfl
    obtain ⟨rfl, -⟩ := List.cons.inj (show 't' :: ['r', 'u', 'e'] = c :: rest from first)
    simp at apart
  · rintro rfl
    obtain ⟨rfl, -⟩ := List.cons.inj (show 'f' :: ['a', 'l', 's', 'e'] = c :: rest from first)
    simp at apart

theorem toLower_of_isDigit {c : Char} (h : isDigit c = true) : c.toLower = c := by
  simp only [isDigit, Bool.and_eq_true, decide_eq_true_eq, Char.le_def] at h
  have upper : ¬ (c.val ≥ 'A'.val ∧ c.val ≤ 'Z'.val) := fun upper =>
    absurd (UInt32.le_trans upper.1 h.2) (by decide)
  exact dif_neg upper

/-- The words for what is no finite number, in any case. -/
theorem ofText_word {sign word : List Char} (isSign : IsSign sign)
    (special : word.map Char.toLower ∈ ["nan".toList, "inf".toList, "infinity".toList])
    (chars : s.toList = sign ++ word) : ofText s = .text s := by
  cases word with
  | nil => simp at special
  | cons c rest =>
    have first : c.toLower = 'n' ∨ c.toLower = 'i' := by
      simp only [List.map_cons, List.mem_cons, List.not_mem_nil, or_false] at special
      rcases special with nan | inf | infinity
      · exact .inl (List.cons.inj nan).1
      · exact .inr (List.cons.inj inf).1
      · exact .inr (List.cons.inj infinity).1
    have apart {d : Char} (n : d.toLower ≠ 'n') (i : d.toLower ≠ 'i') : c ≠ d := by
      rintro rfl
      exact first.elim n i
    have digit : isDigit c = false := by
      by_contra digit
      rw [toLower_of_isDigit (by simpa using digit)] at first
      rcases first with rfl | rfl <;> exact digit rfl
    refine ofText_of_first isSign chars digit ⟨?_, ?_, ?_, ?_, ?_⟩ <;> exact apart (by decide) (by decide)

/-- The integers of 64 bits are far below the limit. -/
theorem SpellsInt64.value_lt (h : SpellsInt64 s) (spells : Spells s.toList negative d) : d.value < limit := by
  obtain ⟨m, integer, low, high⟩ := h
  obtain ⟨negative', spells', -⟩ := integer.spells
  obtain ⟨-, rfl⟩ := spells.unique spells'
  have small : m.natAbs < 2 ^ 64 := by omega
  calc Decimal.value ⟨m.natAbs, 0⟩ = m.natAbs := by simp [Decimal.value]
    _ < 2 ^ (64 : ℤ) := by exact_mod_cast small
    _ ≤ limit := Binary64.two_zpow_le_limit (by norm_num)

theorem ofText_of_limit_le (spells : Spells s.toList negative d) (above : limit ≤ d.value) : ofText s = .text s := by
  refine ofText_eq_text_iff.mpr ⟨rfl, ?_, readInteger?_eq_none_iff.mpr fun integer => ?_,
    readReal?_eq_none_iff.mpr fun negative' d' spells' => ?_⟩
  · by_contra hsome
    obtain ⟨b, boolean⟩ := Option.ne_none_iff_exists'.mp hsome
    exact not_spells_of_boolean boolean _ _ spells
  · exact absurd (integer.value_lt spells) above.not_gt
  · obtain ⟨-, rfl⟩ := spells.unique spells'
    exact above

/-- Integers of more than 64 bits are not cut off. -/
theorem ofText_of_not_int64 (spells : SpellsInteger s.toList m) (outside : ¬ (-2 ^ 63 ≤ m ∧ m < 2 ^ 63))
    (below : |(m : ℚ)| < limit) :
    ∃ x, ofText s = .real x ∧ x.isNegative = decide (m < 0) ∧ IsNearest |(m : ℚ)| x := by
  have value : Decimal.value ⟨m.natAbs, 0⟩ = |(m : ℚ)| := by simp [Decimal.value]
  obtain ⟨negative, decimal, sign⟩ := spells.spells
  obtain ⟨x, real, isNegative, nearest⟩ := exists_spellsReal decimal (by rwa [value])
  have apart : ¬ SpellsInt64 s := by
    rintro ⟨m', spells', inside⟩
    obtain rfl := spells.unique spells'
    exact outside inside
  have nonzero : m ≠ 0 := by omega
  exact ⟨x, ofText_eq_real_iff.mpr ⟨readInteger?_eq_none_iff.mpr apart, readReal?_eq_some_iff.mpr real⟩,
    isNegative.trans (sign nonzero), value ▸ nearest⟩

/-- Every text has the kind that it spells, and is itself if it spells none. An integer of more than 64
bits is a real as long as one is near, and what is beyond the largest number or no number at all stays
a text. -/
theorem ofText_classifies (s : String) :
    (∀ b, ofText s = .boolean b ↔ s = if b then "true" else "false") ∧
    (∀ m : Int, (∃ n, ofText s = .integer n ∧ n.toInt = m) ↔
      SpellsInteger s.toList m ∧ -2 ^ 63 ≤ m ∧ m < 2 ^ 63) ∧
    (∀ x, ofText s = .real x ↔ ¬ SpellsInt64 s ∧ SpellsReal s x) ∧
    (∀ t, ofText s = .text t ↔ t = s ∧ s ≠ "true" ∧ s ≠ "false" ∧ ¬ SpellsInt64 s ∧
      ∀ negative d, Spells s.toList negative d → limit ≤ d.value) ∧
    (∀ m : Int, SpellsInteger s.toList m → ¬ (-2 ^ 63 ≤ m ∧ m < 2 ^ 63) → |(m : ℚ)| < limit →
      ∃ x, ofText s = .real x ∧ x.isNegative = decide (m < 0) ∧ IsNearest |(m : ℚ)| x) ∧
    (∀ negative d, Spells s.toList negative d → limit ≤ d.value → ofText s = .text s) ∧
    ∀ sign word : List Char, IsSign sign →
      word.map Char.toLower ∈ ["nan".toList, "inf".toList, "infinity".toList] →
      s.toList = sign ++ word → ofText s = .text s := by
  refine ⟨fun b => ?_, fun m => ?_, fun x => ?_, fun t => ?_, fun m => ofText_of_not_int64,
    fun negative d => ofText_of_limit_le, fun sign word => ofText_word⟩
  · rw [ofText_eq_boolean_iff, readBoolean?_eq_some_iff]
  · simp only [ofText_eq_integer_iff, readInteger?_eq_some_iff]
    constructor
    · rintro ⟨n, spells, rfl⟩
      exact ⟨spells, isInt64_iff.mp (isInt64_toInt n)⟩
    · rintro ⟨spells, low, high⟩
      have back := Int64.toInt_ofInt_of_le low high
      exact ⟨.ofInt m, by rwa [back], back⟩
  · rw [ofText_eq_real_iff, readInteger?_eq_none_iff, readReal?_eq_some_iff]
  · rw [ofText_eq_text_iff, readBoolean?_eq_none_iff, readInteger?_eq_none_iff, readReal?_eq_none_iff, and_assoc]

/-- The least integer of 64 bits, the one below it, a power of ten beyond the largest number, and a word. -/
theorem ofText_classifies_borders :
    (∃ n, ofText "-9223372036854775808" = .integer n ∧ n.toInt = -2 ^ 63) ∧
    (∃ x, ofText "-9223372036854775809" = .real x ∧ x.isNegative = true ∧
      IsNearest |((-9223372036854775809 : Int) : ℚ)| x) ∧
    ofText "1e309" = .text "1e309" ∧ ofText "-Inf" = .text "-Inf" := by
  obtain ⟨-, integer, -⟩ := ofText_classifies "-9223372036854775808"
  obtain ⟨-, -, -, -, beyond, -⟩ := ofText_classifies "-9223372036854775809"
  obtain ⟨-, -, -, -, -, large, -⟩ := ofText_classifies "1e309"
  obtain ⟨-, -, -, -, -, -, word⟩ := ofText_classifies "-Inf"
  refine ⟨(integer _).mpr ⟨Decimal.readInteger?_eq_some_iff.mp rfl, by decide, by decide⟩,
    beyond _ (Decimal.readInteger?_eq_some_iff.mp rfl) (by decide) ?_, ?_, ?_⟩
  · calc |((-9223372036854775809 : Int) : ℚ)| < 2 ^ (64 : ℤ) := by norm_num
      _ ≤ limit := Binary64.two_zpow_le_limit (by norm_num)
  · refine large false ⟨1, 309⟩ (Decimal.read?_eq_some_iff.mp rfl) ?_
    calc limit ≤ 10 ^ (309 : ℤ) := Decimal.limit_le_ten_pow
      _ = Decimal.value ⟨1, 309⟩ := by simp [Decimal.value]
  · exact word ['-'] ['I', 'n', 'f'] (.inr (.inr rfl)) (by decide) rfl

/-! ### Integers in JSON -/

/-- `s` is the JSON text of an integer `m`: digits without a superfluous zero, after a minus or not. -/
def JsonInteger (s : String) (m : Int) : Prop :=
  ∃ sign ds, (sign = [] ∨ sign = ['-']) ∧ Digits ds ∧ (ds.head? = some '0' → ds = ['0']) ∧
    s.toList = sign ++ ds ∧ m = signedValue sign ds

theorem JsonInteger.spells (h : JsonInteger s m) : SpellsInteger s.toList m := by
  obtain ⟨sign, ds, isSign, digits, -, chars, value⟩ := h
  exact ⟨sign, ds, isSign.elim .inl fun minus => .inr (.inr minus), digits, chars, value⟩

/-- A zero with a minus is the only one that is read as a real. -/
theorem ofJson_of_jsonInteger (literal : JsonInteger s m) (low : -2 ^ 63 ≤ m) (high : m < 2 ^ 63) (apart : s ≠ "-0") :
    ofJson s = .ok (.integer (.ofInt m)) := by
  obtain ⟨sign, ds, isSign, digits, zero, chars, value⟩ := literal
  have inside : isInt64 m = true := isInt64_iff.mpr ⟨low, high⟩
  have magnitude : m.natAbs = ofDigits ds := by rw [value, Number.natAbs_signedValue]
  have minus : decide (sign = ['-']) = decide (m < 0) := by
    have nonzero : sign = ['-'] → ofDigits ds ≠ 0 := by
      rintro rfl hzero
      rw [zero (head?_of_ofDigits digits.1 digits.2 hzero)] at chars
      exact apart (String.toList_inj.mp chars)
    rcases isSign with rfl | rfl
    · simp [value, signedValue]
    · have := nonzero rfl
      simp [value, signedValue]
      omega
  let l : Number.Literal := ⟨m < 0, ds, none, none⟩
  have formed : l.Formed := ⟨digits, zero, by simp [l], by simp [l]⟩
  have fits : l.Fits := ⟨by simp [l, Number.Literal.digits]; omega, by simp [l]⟩
  have spelled : s.toList = l.chars := by
    rcases isSign with rfl | rfl <;>
      simp [l, chars, ← minus, Number.Literal.chars, Number.Literal.unsigned, Number.Literal.fractionChars,
        Number.Literal.exponentChars]
  have read : Document.read s.toList = .ok (.number (.integer m), []) := by
    rw [spelled, Document.read_chars formed, Number.read_whole formed fits rfl rfl, ← magnitude, ofWhole_natAbs inside]
    rfl
  rw [ofJson_of_read read, ofDocument?, if_pos inside]

/-- Both readers take an integer of JSON as the same value, a zero with a minus apart: in JSON that is a
real, for the sake of its sign. -/
theorem ofJson_agrees_on_integers (literal : JsonInteger s m) (low : -2 ^ 63 ≤ m) (high : m < 2 ^ 63) :
    ∃ n, n.toInt = m ∧ ofText s = .integer n ∧
      ofJson s = .ok (if s = "-0" then .real (.zero true) else .integer n) := by
  have back : (Int64.ofInt m).toInt = m := Int64.toInt_ofInt_of_le low high
  refine ⟨.ofInt m, back, ?_, ?_⟩
  · rw [ofText_eq_integer_iff, readInteger?_eq_some_iff, back]
    exact literal.spells
  · split
    · rename_i zero
      rw [zero]
      rfl
    · rename_i apart
      exact ofJson_of_jsonInteger literal low high apart

theorem ofJson_agrees_on_integers_least :
    JsonInteger "-9223372036854775808" (-2 ^ 63) ∧
    ∃ n, n.toInt = -2 ^ 63 ∧ ofText "-9223372036854775808" = .integer n ∧
      ofJson "-9223372036854775808" = .ok (.integer n) :=
  have literal : JsonInteger "-9223372036854775808" (-2 ^ 63) :=
    ⟨['-'], "9223372036854775808".toList, .inr rfl, by simp [Digits, isDigit], nofun, rfl, rfl⟩
  ⟨literal, ofJson_agrees_on_integers literal (by decide) (by decide)⟩

/-- The sign of a zero is lost in an integer. -/
theorem ofJson_minus_zero :
    JsonInteger "-0" 0 ∧ ofText "-0" = .integer 0 ∧ ofJson "-0" = .ok (.real (.zero true)) ∧
    ¬ ∃ v, ofText "-0" = v ∧ ofJson "-0" = .ok v := by
  have literal : JsonInteger "-0" 0 := ⟨['-'], ['0'], .inr rfl, by simp [Digits, isDigit], fun _ => rfl, rfl, rfl⟩
  have text : ofText "-0" = .integer 0 := rfl
  have json : ofJson "-0" = .ok (.real (.zero true)) := rfl
  refine ⟨literal, text, json, ?_⟩
  rintro ⟨v, rfl, same⟩
  rw [text, json] at same
  cases same

end TableQuery.Value
