import TableQuery.Json.Document

/-! # The texts of a JSON value

`Spells cs d rest`: `cs` starts with a text of the value `d`, and `rest` follows it. Blanks may stand
before each token, a character of a string may be escaped in any way that JSON has, and members keep
their order and repetitions. A value is the whole of a text if nothing but blanks follows
(`IsText`). -/

namespace TableQuery.Json

/-- `cs` is blanks, then the character `c`, then `rest`. -/
def Token (c : Char) (cs rest : List Char) : Prop :=
  ∃ blanks, (∀ b ∈ blanks, isBlank b = true) ∧ cs = blanks ++ c :: rest

/-- `cs` is the rest of a string with the characters `s`, its closing quote, and `rest`. Half a
surrogate pair is no character: `skipString` passes over a string with one in it, where its value is of no
interest, but no document has a text with such a string, so what is said of texts of documents says nothing
of it. -/
inductive SpellsChars : List Char → List Char → List Char → Prop where
  | close {rest : List Char} : SpellsChars ('\x22' :: rest) [] rest
  | plain {c : Char} {cs s rest : List Char} (quote : c ≠ '\x22') (backslash : c ≠ '\\')
      (control : 0x20 ≤ c.toNat) (tail : SpellsChars cs s rest) : SpellsChars (c :: cs) (c :: s) rest
  | escape {c e : Char} {cs s rest : List Char} (escaped : escaped? c = some e)
      (tail : SpellsChars cs s rest) : SpellsChars ('\\' :: c :: cs) (e :: s) rest
  | code {a b c d : Char} {n : Nat} {cs s rest : List Char} (code : hexQuad? a b c d = some n)
      (high : isHighSurrogate n = false) (low : isLowSurrogate n = false)
      (tail : SpellsChars cs s rest) :
      SpellsChars ('\\' :: 'u' :: a :: b :: c :: d :: cs) (Char.ofNat n :: s) rest
  | pair {a b c d a' b' c' d' : Char} {n m : Nat} {cs s rest : List Char}
      (first : hexQuad? a b c d = some n) (high : isHighSurrogate n = true)
      (second : hexQuad? a' b' c' d' = some m) (low : isLowSurrogate m = true)
      (tail : SpellsChars cs s rest) :
      SpellsChars
        ('\\' :: 'u' :: a :: b :: c :: d :: '\\' :: 'u' :: a' :: b' :: c' :: d' :: cs)
        (Char.ofNat (0x10000 + (n - 0xD800) * 0x400 + (m - 0xDC00)) :: s) rest

def Digits (ds : List Char) : Prop := ds ≠ [] ∧ ∀ c ∈ ds, isDigit c = true

namespace Number

/-- The text of a number: a sign, digits without a superfluous zero, and parts for a fraction and an
exponent. -/
structure Literal where
  negative : Bool
  whole : List Char
  /-- The digits after the point. -/
  fraction : Option (List Char)
  /-- The mark, the sign and the digits of the exponent. -/
  exponent : Option (Char × List Char × List Char)

namespace Literal

def fractionChars (l : Literal) : List Char :=
  match l.fraction with
  | none => []
  | some ds => '.' :: ds

def exponentChars (l : Literal) : List Char :=
  match l.exponent with
  | none => []
  | some (mark, sign, ds) => mark :: (sign ++ ds)

def unsigned (l : Literal) : List Char := l.whole ++ (l.fractionChars ++ l.exponentChars)

def chars (l : Literal) : List Char := (if l.negative then ['-'] else []) ++ l.unsigned

structure Formed (l : Literal) : Prop where
  whole : Digits l.whole
  zero : l.whole.head? = some '0' → l.whole = ['0']
  fraction : ∀ ds ∈ l.fraction, Digits ds
  exponent : ∀ e ∈ l.exponent,
    isExponentMark e.1 = true ∧ (e.2.1 = [] ∨ e.2.1 = ['+'] ∨ e.2.1 = ['-']) ∧ Digits e.2.2

/-- `n` is what `l` is read as. A literal beyond the range of numbers has no value, and may stand for
any. -/
def HasValue (l : Literal) (n : Number) : Prop :=
  ∀ m rest, Number.read l.negative l.unsigned = .ok (m, rest) → m = n

end Literal

def continuesNumber (c : Char) : Bool := isDigit c || c == '.' || isExponentMark c

end Number

/-- What stands before a part inside brackets: a comma, except before the first. -/
def Lead : Bool → List Char → List Char → Prop
  | true, cs, rest => cs = rest
  | false, cs, rest => Token ',' cs rest

mutual

/-- `cs` starts with a text of the value `d`, and `rest` follows it. -/
inductive Spells : List Char → Document → List Char → Prop where
  | null {cs rest : List Char} (token : Token 'n' cs (['u', 'l', 'l'] ++ rest)) : Spells cs .null rest
  | yes {cs rest : List Char} (token : Token 't' cs (['r', 'u', 'e'] ++ rest)) :
      Spells cs (.boolean true) rest
  | no {cs rest : List Char} (token : Token 'f' cs (['a', 'l', 's', 'e'] ++ rest)) :
      Spells cs (.boolean false) rest
  | number {cs blanks rest : List Char} {l : Number.Literal} {n : Number}
      (blank : ∀ b ∈ blanks, isBlank b = true) (formed : l.Formed) (value : l.HasValue n)
      (chars : cs = blanks ++ (l.chars ++ rest))
      (stops : ∀ c ∈ rest.head?, Number.continuesNumber c = false) : Spells cs (.number n) rest
  | text {cs body s rest : List Char} (token : Token '\x22' cs body) (chars : SpellsChars body s rest) :
      Spells cs (.text (String.ofList s)) rest
  | array {cs inner rest : List Char} {ds : List Document} (token : Token '[' cs inner)
      (elements : SpellsElements true inner ds rest) : Spells cs (.array ds) rest
  | object {cs inner rest : List Char} {ms : List (String × Document)} (token : Token '\x7b' cs inner)
      (members : SpellsMembers true inner ms rest) : Spells cs (.object ms) rest

/-- `cs` goes on with the elements `ds` of an array, the first of them or later ones, up to its
closing bracket. -/
inductive SpellsElements : Bool → List Char → List Document → List Char → Prop where
  | close {first : Bool} {cs rest : List Char} (token : Token ']' cs rest) :
      SpellsElements first cs [] rest
  | element {first : Bool} {cs inner more rest : List Char} {d : Document} {ds : List Document}
      (lead : Lead first cs inner) (value : Spells inner d more)
      (tail : SpellsElements false more ds rest) : SpellsElements first cs (d :: ds) rest

/-- `cs` goes on with the members `ms` of an object up to its closing brace. -/
inductive SpellsMembers : Bool → List Char → List (String × Document) → List Char → Prop where
  | close {first : Bool} {cs rest : List Char} (token : Token '\x7d' cs rest) :
      SpellsMembers first cs [] rest
  | member {first : Bool} {cs inner body s colon value more rest : List Char} {d : Document}
      {ms : List (String × Document)} (lead : Lead first cs inner) (quote : Token '\x22' inner body)
      (key : SpellsChars body s colon) (token : Token ':' colon value) (spells : Spells value d more)
      (tail : SpellsMembers false more ms rest) :
      SpellsMembers first cs ((String.ofList s, d) :: ms) rest

end

/-- `text` is a JSON text of the value `d`, with blanks around it. -/
def IsText (text : String) (d : Document) : Prop :=
  ∃ rest, Spells text.toList d rest ∧ ∀ c ∈ rest, isBlank c = true

theorem skipBlanks_append {blanks cs : List Char} (h : ∀ b ∈ blanks, isBlank b = true) :
    skipBlanks (blanks ++ cs) = skipBlanks cs := List.dropWhile_append_of_pos h

theorem skipBlanks_cons {c : Char} (hc : isBlank c = false) (cs : List Char) :
    skipBlanks (c :: cs) = c :: cs := by simp [skipBlanks, hc]

theorem skipBlanks_eq_nil {cs : List Char} (h : ∀ c ∈ cs, isBlank c = true) : skipBlanks cs = [] := by
  have := @skipBlanks_append cs [] h
  rwa [List.append_nil] at this

theorem Token.skipBlanks_eq {c : Char} {cs rest : List Char} (h : Token c cs rest)
    (hc : isBlank c = false) : skipBlanks cs = c :: rest := by
  obtain ⟨blanks, blank, rfl⟩ := h
  rw [skipBlanks_append blank, skipBlanks_cons hc]

theorem Token.eq_of_first {c t : Char} {cs more rest : List Char} (h : Token t cs rest)
    (ht : isBlank t = false) (first : skipBlanks cs = c :: more) : c = t ∧ more = rest :=
  List.cons.inj (first.symm.trans (h.skipBlanks_eq ht))

theorem isBlank_of_isDigit {c : Char} (h : isDigit c = true) : isBlank c = false := by
  refine Bool.eq_false_iff.mpr fun blank => ?_
  simp only [isBlank, Bool.or_eq_true, beq_iff_eq] at blank
  rcases blank with ((rfl | rfl) | rfl) | rfl <;> exact absurd h (by decide)

/-- The kinds of values that differ in the first character of their texts. -/
inductive Kind where
  | null
  | boolean (b : Bool)
  | number
  | text
  | array
  | object
deriving DecidableEq

def Document.kind : Document → Kind
  | .null => .null
  | .boolean b => .boolean b
  | .number _ => .number
  | .text _ => .text
  | .array _ => .array
  | .object _ => .object

def Kind.ofFirst? (c : Char) : Option Kind :=
  if c = 'n' then some .null
  else if c = 't' then some (.boolean true)
  else if c = 'f' then some (.boolean false)
  else if c = '-' || isDigit c then some .number
  else if c = '\x22' then some .text
  else if c = '[' then some .array
  else if c = '\x7b' then some .object
  else none

theorem Kind.ofFirst?_of_isDigit {c : Char} (h : isDigit c = true) : ofFirst? c = some .number := by
  have ne {d : Char} (hd : isDigit d = false) : c ≠ d := by
    rintro rfl
    exact absurd h (by simp [hd])
  simp [ofFirst?, h, ne (d := 'n') rfl, ne (d := 't') rfl, ne (d := 'f') rfl]

theorem Number.Literal.Formed.exists_first {l : Literal} (h : l.Formed) :
    ∃ c more, l.chars = c :: more ∧ isBlank c = false ∧ Kind.ofFirst? c = some .number := by
  obtain ⟨ne, digits⟩ := h.whole
  cases sign : l.negative with
  | true => exact ⟨'-', l.unsigned, by simp [chars, sign], rfl, rfl⟩
  | false =>
    cases whole : l.whole with
    | nil => exact absurd whole ne
    | cons c ds =>
      have hc : isDigit c = true := digits c (by simp [whole])
      exact ⟨c, ds ++ (l.fractionChars ++ l.exponentChars), by simp [chars, unsigned, sign, whole],
        isBlank_of_isDigit hc, Kind.ofFirst?_of_isDigit hc⟩

theorem Spells.exists_first {cs rest : List Char} {d : Document} (h : Spells cs d rest) :
    ∃ c more, skipBlanks cs = c :: more ∧ Kind.ofFirst? c = some d.kind := by
  cases h with
  | null token => exact ⟨_, _, token.skipBlanks_eq rfl, rfl⟩
  | yes token => exact ⟨_, _, token.skipBlanks_eq rfl, rfl⟩
  | no token => exact ⟨_, _, token.skipBlanks_eq rfl, rfl⟩
  | text token chars => exact ⟨_, _, token.skipBlanks_eq rfl, rfl⟩
  | array token elements => exact ⟨_, _, token.skipBlanks_eq rfl, rfl⟩
  | object token members => exact ⟨_, _, token.skipBlanks_eq rfl, rfl⟩
  | number blank formed value chars stops =>
    subst chars
    obtain ⟨c, more, eq, notBlank, kind⟩ := formed.exists_first
    refine ⟨c, more ++ rest, ?_, kind⟩
    rw [skipBlanks_append blank, eq, List.cons_append, skipBlanks_cons notBlank]

theorem Token.blanks {c : Char} {cs rest : List Char} (h : Token c cs rest) (hc : isBlank c = false) :
    Token c (skipBlanks cs) rest := ⟨[], by simp, h.skipBlanks_eq hc⟩

theorem Spells.blanks {cs rest : List Char} {d : Document} (h : Spells cs d rest) :
    Spells (skipBlanks cs) d rest := by
  cases h with
  | null token => exact .null (token.blanks rfl)
  | yes token => exact .yes (token.blanks rfl)
  | no token => exact .no (token.blanks rfl)
  | text token chars => exact .text (token.blanks rfl) chars
  | array token elements => exact .array (token.blanks rfl) elements
  | object token members => exact .object (token.blanks rfl) members
  | @number _ blanks _ l _ blank formed value chars stops =>
    subst chars
    obtain ⟨c, more, eq, notBlank, -⟩ := formed.exists_first
    have chars : skipBlanks (blanks ++ (l.chars ++ rest)) = [] ++ (l.chars ++ rest) := by
      rw [skipBlanks_append blank, eq, List.cons_append, skipBlanks_cons notBlank, List.nil_append]
    exact .number (by simp) formed value chars stops

end TableQuery.Json
