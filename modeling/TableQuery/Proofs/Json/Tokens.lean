import TableQuery.Json.Skip
import TableQuery.Proofs.Json.Grammar

/-! # Tokens of a JSON text are read as what they spell

One lemma for each scanner: words, strings and numbers. Each ends exactly where the token does. -/

namespace TableQuery.Json

theorem readWord_append (word rest : List Char) : readWord word (word ++ rest) = .ok rest := by
  induction word with
  | nil => cases rest <;> rfl
  | cons c word ih => simp [readWord, ih]

theorem ne_u_of_escaped? {c e : Char} (h : escaped? c = some e) : c ≠ 'u' := by
  rintro rfl
  have hnone : escaped? 'u' = none := by decide
  exact absurd h (by simp [hnone])

theorem SpellsChars.readStringFrom {cs s rest : List Char} (h : SpellsChars cs s rest)
    (read : List Char) : readStringFrom read cs = .ok (read.reverse ++ s, rest) := by
  induction h generalizing read with
  | close => simp [Json.readStringFrom]
  | plain quote backslash control tail ih =>
    rw [Json.readStringFrom, if_neg (Nat.not_lt.mpr control), ih]
    · simp
    all_goals simp_all
  | escape escaped tail ih =>
    have ne := ne_u_of_escaped? escaped
    rw [Json.readStringFrom, escaped]
    · simp [ih]
    all_goals simp_all
  | code code high low tail ih => simp [Json.readStringFrom, code, high, low, ih]
  | @pair _ _ _ _ _ _ _ _ n m _ _ _ first high second low tail ih =>
    have notLow : isLowSurrogate n = false := by
      simp only [isHighSurrogate, isLowSurrogate, Bool.and_eq_true, decide_eq_true_eq] at high ⊢
      simp
      omega
    simp [Json.readStringFrom, first, notLow, high, second, low, ih]

theorem SpellsChars.readString {cs s rest : List Char} (h : SpellsChars cs s rest) :
    readString cs = .ok (String.ofList s, rest) := by
  simp [Json.readString, h.readStringFrom]

theorem SpellsChars.skipString {cs s rest : List Char} (h : SpellsChars cs s rest) :
    skipString cs = .ok rest := by
  induction h with
  | close => simp [Json.skipString]
  | plain quote backslash control tail ih =>
    rw [Json.skipString, if_neg (Nat.not_lt.mpr control), ih]
    all_goals simp_all
  | escape escaped tail ih =>
    have ne := ne_u_of_escaped? escaped
    rw [Json.skipString, escaped]
    · exact ih
    all_goals simp_all
  | code code high low tail ih => simp [Json.skipString, code, ih]
  | pair first high second low tail ih => simp [Json.skipString, first, second, ih]

theorem dropWhile_digits {ds rest : List Char} (h : ∀ c ∈ ds, isDigit c = true)
    (stops : ∀ c ∈ rest.head?, isDigit c = false) : (ds ++ rest).dropWhile isDigit = rest := by
  rw [List.dropWhile_append_of_pos h]
  cases rest with
  | nil => rfl
  | cons c rest => simp [stops c rfl]

namespace Number
variable {rest : List Char} {l : Literal}

theorem isDigit_of_continuesNumber {c : Char} (h : continuesNumber c = false) :
    isDigit c = false ∧ c ≠ '.' ∧ isExponentMark c = false := by
  simp only [continuesNumber, Bool.or_eq_false_iff, beq_eq_false_iff_ne] at h
  exact ⟨h.1.1, h.1.2, h.2⟩

theorem ne_of_isExponentMark {c : Char} (h : isExponentMark c = true) : isDigit c = false ∧ c ≠ '.' := by
  simp only [isExponentMark, Bool.or_eq_true, beq_iff_eq] at h
  rcases h with rfl | rfl <;> decide

theorem splitSign_of_isDigit {d : Char} (h : isDigit d = true) (cs : List Char) :
    Decimal.splitSign (d :: cs) = (false, d :: cs) := by
  unfold Decimal.splitSign
  split <;> simp_all [isDigit]

theorem skipExponent_append {sign ds : List Char}
    (hsign : sign = [] ∨ sign = ['+'] ∨ sign = ['-']) (digits : Digits ds)
    (stops : ∀ c ∈ rest.head?, continuesNumber c = false) :
    skipExponent (sign ++ (ds ++ rest)) = .ok rest := by
  obtain ⟨ne, all⟩ := digits
  cases ds with
  | nil => exact absurd rfl ne
  | cons d ds =>
    have hd : isDigit d = true := all d (by simp)
    have unsigned : (Decimal.splitSign (sign ++ d :: (ds ++ rest))).2 = d :: (ds ++ rest) := by
      rcases hsign with rfl | rfl | rfl
      · rw [List.nil_append, splitSign_of_isDigit hd]
      · rfl
      · rfl
    have dropped : (ds ++ rest).dropWhile isDigit = rest :=
      dropWhile_digits (fun c hc => all c (by simp [hc])) fun c hc =>
        (isDigit_of_continuesNumber (stops c hc)).1
    rw [skipExponent, List.cons_append, unsigned]
    simp [hd, dropped]

/-- What may stand after the digits of a number, without a fraction to come, and what follows the
number: an exponent part in between, or nothing. -/
inductive Ending : List Char → List Char → Prop where
  | nothing : Ending [] []
  | exponent {c : Char} {after rest : List Char} (mark : isExponentMark c = true)
      (skipped : skipExponent after = .ok rest) : Ending (c :: after) rest
  | other {c : Char} {after : List Char} (apart : continuesNumber c = false) :
      Ending (c :: after) (c :: after)

theorem Ending.head_not_digit {tail : List Char} (h : Ending tail rest) :
    ∀ c ∈ tail.head?, isDigit c = false := by
  cases h with
  | nothing => simp
  | exponent mark skipped => simpa using (ne_of_isExponentMark mark).1
  | other apart => simpa using (isDigit_of_continuesNumber apart).1

theorem ending_exponentChars (formed : l.Formed)
    (stops : ∀ c ∈ rest.head?, continuesNumber c = false) : Ending (l.exponentChars ++ rest) rest := by
  cases exponent : l.exponent with
  | some e =>
    obtain ⟨mark, sign, ds⟩ := e
    obtain ⟨hmark, hsign, digits⟩ := formed.exponent _ exponent
    simpa [Literal.exponentChars, exponent] using
      Ending.exponent hmark (skipExponent_append hsign digits stops)
  | none =>
    simp only [Literal.exponentChars, exponent, List.nil_append]
    cases rest with
    | nil => exact .nothing
    | cons c after => exact .other (stops c rfl)

/-- The first digit is no zero that a further digit follows. -/
theorem zero_ends_whole {c : Char} {ds tail : List Char} (formed : l.Formed) (whole : l.whole = c :: ds)
    (stops : ∀ d ∈ tail.head?, isDigit d = false) :
    (decide (c = '0') && (ds ++ tail).head?.any isDigit) = false := by
  by_cases hc : c = '0'
  · subst hc
    have single := formed.zero (by rw [whole]; rfl)
    obtain rfl : ds = [] := (List.cons.inj (whole.symm.trans single)).2
    cases tail with
    | nil => rfl
    | cons d tail => simp [stops d rfl]
  · simp [hc]

theorem skip_append (formed : l.Formed) (stops : ∀ c ∈ rest.head?, continuesNumber c = false) :
    skip (l.unsigned ++ rest) = .ok rest := by
  have ending := ending_exponentChars formed stops
  obtain ⟨ne, all⟩ := formed.whole
  cases whole : l.whole with
  | nil => exact absurd whole ne
  | cons c ds =>
    rw [whole] at all
    have hc : isDigit c = true := all c (by simp)
    cases fraction : l.fraction with
    | none =>
      have eq : l.unsigned ++ rest = c :: (ds ++ (l.exponentChars ++ rest)) := by
        simp [Literal.unsigned, Literal.fractionChars, whole, fraction]
      rw [eq]
      generalize l.exponentChars ++ rest = tail at ending
      have dropped : (c :: (ds ++ tail)).dropWhile isDigit = tail :=
        dropWhile_digits all ending.head_not_digit
      rw [skip, zero_ends_whole formed whole ending.head_not_digit, dropped]
      cases ending with
      | nothing => simp [hc]
      | exponent mark skipped => simp [hc, mark, skipped, (ne_of_isExponentMark mark).2]
      | other apart =>
        obtain ⟨-, point, mark⟩ := isDigit_of_continuesNumber apart
        simp [hc, mark]
    | some fs =>
      obtain ⟨fne, fall⟩ := formed.fraction fs fraction
      cases fs with
      | nil => exact absurd rfl fne
      | cons f fs =>
        have hf : isDigit f = true := fall f (by simp)
        have eq : l.unsigned ++ rest = c :: (ds ++ '.' :: f :: (fs ++ (l.exponentChars ++ rest))) := by
          simp [Literal.unsigned, Literal.fractionChars, whole, fraction]
        rw [eq]
        generalize l.exponentChars ++ rest = tail at ending
        have point : ∀ d ∈ ('.' :: f :: (fs ++ tail)).head?, isDigit d = false := by simp [isDigit]
        have dropped : (c :: (ds ++ '.' :: f :: (fs ++ tail))).dropWhile isDigit =
            '.' :: f :: (fs ++ tail) := dropWhile_digits all point
        have dropped' : (fs ++ tail).dropWhile isDigit = tail :=
          dropWhile_digits (fun d hd => fall d (by simp [hd])) ending.head_not_digit
        rw [skip, zero_ends_whole formed whole point, dropped]
        cases ending with
        | nothing =>
          rw [List.append_nil] at dropped'
          simp [hc, hf, dropped']
        | exponent mark skipped => simp [hc, hf, dropped', mark, skipped]
        | other apart => simp [hc, hf, dropped', (isDigit_of_continuesNumber apart).2.2]

end Number

end TableQuery.Json
