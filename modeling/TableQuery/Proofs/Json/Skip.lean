import TableQuery.Proofs.Json.Tokens

/-! # Every value can be passed over

`Spells.skipValue`: a value of any kind, size and nesting is passed over up to its end. The clock of
`skipFrom` does not run out because it stays longer than the text (`Passes`): each round takes a
tick and at least one character. -/

namespace TableQuery.Json

theorem Token.length_lt {c : Char} {cs rest : List Char} (h : Token c cs rest) :
    rest.length < cs.length := by
  obtain ⟨blanks, -, rfl⟩ := h
  simp
  omega

theorem Token.length_lt_append {c : Char} {cs word rest : List Char} (h : Token c cs (word ++ rest)) :
    rest.length < cs.length := by
  have := h.length_lt
  rw [List.length_append] at this
  omega

theorem SpellsChars.length_lt {cs s rest : List Char} (h : SpellsChars cs s rest) :
    rest.length < cs.length := by
  induction h <;> simp only [List.length_cons] at * <;> omega

@[simp] theorem skipBlanks_skipBlanks (cs : List Char) : skipBlanks (skipBlanks cs) = skipBlanks cs := by
  induction cs with
  | nil => rfl
  | cons c cs ih =>
    by_cases h : isBlank c = true
    · have : skipBlanks (c :: cs) = skipBlanks cs := by simp [skipBlanks, h]
      rw [this, ih]
    · rw [skipBlanks_cons (by simpa using h), skipBlanks_cons (by simpa using h)]

section
variable {t : Char} {clock cs rest more inner : List Char} {c : Char} {bracket : Bracket}
  {brackets : List Bracket}

theorem skipFrom_value_skipBlanks :
    skipFrom clock .value brackets (skipBlanks cs) = skipFrom clock .value brackets cs := by
  cases clock with
  | nil => rfl
  | cons t clock => simp only [skipFrom, skipBlanks_skipBlanks]

theorem skipKey_skipBlanks : skipKey (skipBlanks cs) = skipKey cs := by
  simp only [skipKey, skipBlanks_skipBlanks]

theorem skipFrom_scalar (first : skipBlanks cs = c :: more) (scalar : Bracket.ofOpening? c = none)
    (skipped : skipScalar c more = .ok rest) :
    skipFrom (t :: clock) .value brackets cs = skipFrom clock .nextPart brackets rest := by
  simp [skipFrom, first, scalar, skipped, bind, Except.bind]

theorem skipFrom_empty (first : skipBlanks cs = c :: more) (opens : Bracket.ofOpening? c = some bracket)
    (closes : skipBlanks more = bracket.closing :: rest) :
    skipFrom (t :: clock) .value brackets cs = skipFrom clock .nextPart brackets rest := by
  simp [skipFrom, first, opens, closes]

theorem skipFrom_open (first : skipBlanks cs = c :: more) (opens : Bracket.ofOpening? c = some bracket)
    {d : Char} {after : List Char} (part : skipBlanks more = d :: after) (ne : d ≠ bracket.closing)
    (lead : bracket.skipLead (d :: after) = .ok inner) :
    skipFrom (t :: clock) .value brackets cs = skipFrom clock .value (bracket :: brackets) inner := by
  simp [skipFrom, first, opens, part, ne, lead, bind, Except.bind]

theorem skipFrom_comma (first : skipBlanks cs = ',' :: more) (lead : bracket.skipLead more = .ok inner) :
    skipFrom (t :: clock) .nextPart (bracket :: brackets) cs =
      skipFrom clock .value (bracket :: brackets) inner := by
  simp [skipFrom, first, lead, bind, Except.bind]

theorem skipFrom_close (first : skipBlanks cs = bracket.closing :: rest) :
    skipFrom (t :: clock) .nextPart (bracket :: brackets) cs = skipFrom clock .nextPart brackets rest := by
  have ne : bracket.closing ≠ ',' := by cases bracket <;> decide
  simp [skipFrom, first, ne]

end

/-- Passing on from `due` at `cs` comes to what is due after a part, at `rest`, with a clock that is
still longer than the text. -/
def Passes (due : Due) (inside outside : List Bracket) (cs rest : List Char) : Prop :=
  ∀ clock : List Char, cs.length < clock.length →
    ∃ clock' : List Char, rest.length < clock'.length ∧
      skipFrom clock due inside cs = skipFrom clock' .nextPart outside rest

namespace Passes
variable {due due' : Due} {inside inside' outside : List Bracket} {cs mid rest : List Char}

theorem round (step : ∀ t clock, skipFrom (t :: clock) due inside cs = skipFrom clock .nextPart outside rest)
    (shorter : rest.length < cs.length) : Passes due inside outside cs rest := by
  intro clock longer
  cases clock with
  | nil => exact absurd longer (by simp)
  | cons t clock => exact ⟨clock, by simp at longer; omega, step t clock⟩

theorem before (step : ∀ t clock, skipFrom (t :: clock) due inside cs = skipFrom clock due' inside' mid)
    (shorter : mid.length < cs.length) (h : Passes due' inside' outside mid rest) :
    Passes due inside outside cs rest := by
  intro clock longer
  cases clock with
  | nil => exact absurd longer (by simp)
  | cons t clock =>
    obtain ⟨clock', longer', eq⟩ := h clock (by simp at longer; omega)
    exact ⟨clock', longer', (step t clock).trans eq⟩

theorem trans (h : Passes due inside inside' cs mid) (h' : Passes .nextPart inside' outside mid rest) :
    Passes due inside outside cs rest := by
  intro clock longer
  obtain ⟨clock', longer', eq⟩ := h clock longer
  obtain ⟨clock'', longer'', eq'⟩ := h' clock' longer'
  exact ⟨clock'', longer'', eq.trans eq'⟩

end Passes

theorem skipKey_eq {inner body s colon value : List Char} (quote : Token '\x22' inner body)
    (key : SpellsChars body s colon) (token : Token ':' colon value) : skipKey inner = .ok value := by
  simp [skipKey, quote.skipBlanks_eq rfl, key.skipString, token.skipBlanks_eq rfl, bind, Except.bind]

theorem skipScalar_number {c : Char} {more rest : List Char} {l : Number.Literal} (formed : l.Formed)
    (stops : ∀ c ∈ rest.head?, Number.continuesNumber c = false) (chars : l.chars ++ rest = c :: more) :
    Bracket.ofOpening? c = none ∧ skipScalar c more = .ok rest := by
  have skipped := Number.skip_append formed stops
  cases sign : l.negative with
  | true =>
    have eq : '-' :: (l.unsigned ++ rest) = c :: more := by
      simpa [Number.Literal.chars, sign] using chars
    obtain ⟨rfl, rfl⟩ := List.cons.inj eq
    exact ⟨rfl, by simpa [skipScalar] using skipped⟩
  | false =>
    have eq : l.unsigned ++ rest = c :: more := by simpa [Number.Literal.chars, sign] using chars
    have digit : isDigit c = true := by
      obtain ⟨ne, all⟩ := formed.whole
      cases whole : l.whole with
      | nil => exact absurd whole ne
      | cons d ds =>
        have hd : d = c := by
          simp only [Number.Literal.unsigned, whole, List.cons_append, List.cons.injEq] at eq
          exact eq.1
        exact hd ▸ all d (by simp [whole])
    rw [eq] at skipped
    have ne {d : Char} (hd : isDigit d = false) : c ≠ d := by
      rintro rfl
      exact absurd digit (by simp [hd])
    constructor
    · simp [Bracket.ofOpening?, ne (d := '[') rfl, ne (d := '\x7b') rfl]
    · simp [skipScalar, ne (d := 'n') rfl, ne (d := 't') rfl, ne (d := 'f') rfl, ne (d := '-') rfl,
        digit, skipped]

theorem skipFrom_array {t : Char} {clock cs inner more : List Char} {d : Document}
    {brackets : List Bracket} (token : Token '[' cs inner) (value : Spells inner d more) :
    skipFrom (t :: clock) .value brackets cs = skipFrom clock .value (.array :: brackets) inner := by
  obtain ⟨c, after, first, kind⟩ := value.exists_first
  have ne : c ≠ Bracket.array.closing := by
    rintro rfl
    cases kind
  rw [skipFrom_open (token.skipBlanks_eq rfl) rfl first ne rfl, ← first, skipFrom_value_skipBlanks]

theorem skipFrom_object {t : Char} {clock cs inner body s colon value : List Char}
    {brackets : List Bracket} (token : Token '\x7b' cs inner) (quote : Token '\x22' inner body)
    (key : SpellsChars body s colon) (separator : Token ':' colon value) :
    skipFrom (t :: clock) .value brackets cs = skipFrom clock .value (.object :: brackets) value := by
  have first := quote.skipBlanks_eq rfl
  have lead : Bracket.object.skipLead ('\x22' :: body) = .ok value := by
    rw [Bracket.skipLead, ← first, skipKey_skipBlanks, skipKey_eq quote key separator]
  exact skipFrom_open (token.skipBlanks_eq rfl) rfl first (by decide) lead

theorem length_lt_of_key {inner body s colon value : List Char} (quote : Token '\x22' inner body)
    (key : SpellsChars body s colon) (separator : Token ':' colon value) :
    value.length < inner.length := by
  have := quote.length_lt
  have := key.length_lt
  have := separator.length_lt
  omega

theorem passes_word {c : Char} {cs rest word : List Char} (brackets : List Bracket)
    (token : Token c cs (word ++ rest)) (blank : isBlank c = false)
    (scalar : Bracket.ofOpening? c = none) (skips : ∀ cs, skipScalar c cs = readWord word cs) :
    Passes .value brackets brackets cs rest := by
  refine .round (fun _ _ => skipFrom_scalar (token.skipBlanks_eq blank) scalar ?_) token.length_lt_append
  rw [skips, readWord_append]

theorem passes_number {blanks rest : List Char} {l : Number.Literal} (brackets : List Bracket)
    (blank : ∀ b ∈ blanks, isBlank b = true) (formed : l.Formed)
    (stops : ∀ c ∈ rest.head?, Number.continuesNumber c = false) :
    Passes .value brackets brackets (blanks ++ (l.chars ++ rest)) rest := by
  obtain ⟨c, more, eq, notBlank, -⟩ := formed.exists_first
  have chars : l.chars ++ rest = c :: (more ++ rest) := by rw [eq, List.cons_append]
  obtain ⟨scalar, skipped⟩ := skipScalar_number formed stops chars
  have first : skipBlanks (blanks ++ (l.chars ++ rest)) = c :: (more ++ rest) := by
    rw [skipBlanks_append blank, chars, skipBlanks_cons notBlank]
  refine .round (fun _ _ => skipFrom_scalar first scalar skipped) ?_
  rw [chars]
  simp
  omega

mutual

theorem Spells.passes : (d : Document) → {cs rest : List Char} → Spells cs d rest →
    (brackets : List Bracket) → Passes .value brackets brackets cs rest
  | .null, _, _, .null token, brackets => passes_word brackets token rfl rfl fun _ => rfl
  | .boolean true, _, _, .yes token, brackets => passes_word brackets token rfl rfl fun _ => rfl
  | .boolean false, _, _, .no token, brackets => passes_word brackets token rfl rfl fun _ => rfl
  | .number _, _, _, .number blank formed _ chars stops, brackets =>
    chars ▸ passes_number brackets blank formed stops
  | .text s, _, _, h, _ => by
    cases h with
    | text token chars =>
      exact .round (fun _ _ => skipFrom_scalar (token.skipBlanks_eq rfl) rfl chars.skipString)
        (Nat.lt_trans chars.length_lt token.length_lt)
  | .array [], _, _, .array token (.close closing), _ =>
    .round (fun _ _ => skipFrom_empty (token.skipBlanks_eq rfl) rfl (closing.skipBlanks_eq rfl))
      (Nat.lt_trans closing.length_lt token.length_lt)
  | .array (d :: ds), _, _, .array token (.element rfl value tail), brackets =>
    .before (fun _ _ => skipFrom_array token value) token.length_lt
      ((Spells.passes d value _).trans (SpellsElements.passes ds tail brackets))
  | .object [], _, _, .object token (.close closing), _ =>
    .round (fun _ _ => skipFrom_empty (token.skipBlanks_eq rfl) rfl (closing.skipBlanks_eq rfl))
      (Nat.lt_trans closing.length_lt token.length_lt)
  | .object ((_, d) :: ms), _, _, .object token (.member rfl quote key colon value tail), brackets =>
    .before (fun _ _ => skipFrom_object token quote key colon)
      (Nat.lt_trans (length_lt_of_key quote key colon) token.length_lt)
      ((Spells.passes d value _).trans (SpellsMembers.passes ms tail brackets))

theorem SpellsElements.passes : (ds : List Document) → {cs rest : List Char} →
    SpellsElements false cs ds rest → (brackets : List Bracket) →
    Passes .nextPart (.array :: brackets) brackets cs rest
  | [], _, _, .close token, _ => .round (fun _ _ => skipFrom_close (token.skipBlanks_eq rfl)) token.length_lt
  | d :: ds, _, _, .element lead value tail, brackets =>
    .before (fun _ _ => skipFrom_comma (lead.skipBlanks_eq rfl) rfl) lead.length_lt
      ((Spells.passes d value _).trans (SpellsElements.passes ds tail brackets))

theorem SpellsMembers.passes : (ms : List (String × Document)) → {cs rest : List Char} →
    SpellsMembers false cs ms rest → (brackets : List Bracket) →
    Passes .nextPart (.object :: brackets) brackets cs rest
  | [], _, _, .close token, _ => .round (fun _ _ => skipFrom_close (token.skipBlanks_eq rfl)) token.length_lt
  | (_, d) :: ms, _, _, .member lead quote key colon value tail, brackets =>
    .before (fun _ _ => skipFrom_comma (lead.skipBlanks_eq rfl) (skipKey_eq quote key colon))
      (Nat.lt_trans (length_lt_of_key quote key colon) lead.length_lt)
      ((Spells.passes d value _).trans (SpellsMembers.passes ms tail brackets))

end

theorem Spells.skipValue {cs rest : List Char} {d : Document} (h : Spells cs d rest) :
    skipValue cs = .ok ((), rest) := by
  obtain ⟨clock, longer, eq⟩ := Spells.passes d h [] (' ' :: cs) (by simp)
  cases clock with
  | nil => exact absurd longer (by simp)
  | cons t clock =>
    have done : skipFrom (t :: clock) .nextPart [] rest = .ok rest := by rw [skipFrom]
    rw [Json.skipValue, eq, done]
    rfl

end TableQuery.Json
