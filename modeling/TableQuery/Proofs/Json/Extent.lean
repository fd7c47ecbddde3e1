import TableQuery.Proofs.Json.Returned
import TableQuery.Proofs.Json.Tokens

/-! # How far a reader looks

A reader that succeeds has taken some characters from its text and has looked at one more at most.
`Local read`: it gives the same when another text follows what it has taken, as long as the first
character of that text is the same. `ClosedBy c read`: what it takes ends in `c`, and what follows does
not count at all. -/

namespace TableQuery.Json

/-- Results that hold the text that is left, each in one of several forms. -/
class Remainder (ρ : Type) where
  Form : Type
  hold : Form → List Char → ρ
  hold_inj {form form' : Form} {rest rest' : List Char} (eq : hold form rest = hold form' rest') :
    form = form' ∧ rest = rest'

open Remainder (Form hold hold_inj)

instance : Remainder (List Char) where
  Form := Unit
  hold _ rest := rest
  hold_inj eq := ⟨rfl, eq⟩

instance {α ρ : Type} [Remainder ρ] : Remainder (α × ρ) where
  Form := α × Form ρ
  hold form rest := (form.1, hold form.2 rest)
  hold_inj eq :=
    have ⟨same, held⟩ := Prod.mk.inj eq
    have ⟨form, rest⟩ := hold_inj held
    ⟨Prod.ext same form, rest⟩

variable {α ρ τ : Type} [Remainder ρ] [Remainder τ] {cs more rest : List Char} {c : Char}

def Local (read : List Char → Except Fault ρ) : Prop :=
  ∀ ⦃cs r⦄, read cs = .ok r → ∃ form used rest, r = hold form rest ∧ cs = used ++ rest ∧
    ∀ rest', rest'.head? = rest.head? → read (used ++ rest') = .ok (hold form rest')

def ClosedBy (c : Char) (read : List Char → Except Fault ρ) : Prop :=
  ∀ ⦃cs r⦄, read cs = .ok r → ∃ form body rest, r = hold form rest ∧ cs = body ++ c :: rest ∧
    ∀ rest', read (body ++ c :: rest') = .ok (hold form rest')

/-- A local reader that takes one character at least. -/
structure Bounded (read : Reader α) : Prop where
  near : Local read
  advances : ∀ ⦃cs a rest⦄, read cs = .ok (a, rest) → rest.length < cs.length

/-- A check of what has been read, whatever text is left. -/
def Steady (check : List Char → Except Fault α) : Prop :=
  ∀ ⦃cs cs' a⦄, check cs = .ok a → check cs' = .ok a

theorem Local.exists_used {read : List Char → Except Fault ρ} (h : Local read) (form : Form ρ)
    (eq : read cs = .ok (hold form rest)) : ∃ used, cs = used ++ rest ∧
      ∀ rest', rest'.head? = rest.head? → read (used ++ rest') = .ok (hold form rest') := by
  obtain ⟨form', used, rest', held, rfl, other⟩ := h eq
  obtain ⟨rfl, rfl⟩ := hold_inj held
  exact ⟨used, rfl, other⟩

theorem head?_append_congr (used : List Char) {rest rest' : List Char} (same : rest'.head? = rest.head?) :
    (used ++ rest').head? = (used ++ rest).head? := by
  rw [List.head?_append, List.head?_append, same]

theorem ClosedBy.near {read : List Char → Except Fault ρ} (h : ClosedBy c read) : Local read := by
  intro cs r eq
  obtain ⟨form, body, rest, rfl, rfl, other⟩ := h eq
  refine ⟨form, body ++ [c], rest, rfl, by simp, fun rest' _ => ?_⟩
  simpa using other rest'

theorem local_error (f : List Char → Fault) : Local fun cs => (.error (f cs) : Except Fault ρ) :=
  fun _ _ eq => nomatch eq

theorem local_ok (form : Form ρ) : Local fun cs => (.ok (hold form cs) : Except Fault ρ) := by
  intro cs r eq
  cases eq
  exact ⟨form, [], cs, rfl, rfl, fun _ _ => rfl⟩

theorem Local.bind {read : List Char → Except Fault ρ} {next : ρ → Except Fault τ} (h : Local read)
    (hn : ∀ form, Local fun cs => next (hold form cs)) : Local fun cs => read cs >>= next := by
  intro cs r eq
  obtain ⟨_, first, second⟩ := bind_eq_ok_iff.mp eq
  obtain ⟨form, used, mid, rfl, rfl, other⟩ := h first
  obtain ⟨form', used', rest, rfl, rfl, other'⟩ := hn form second
  refine ⟨form', used ++ used', rest, rfl, by simp, fun rest' same => ?_⟩
  simp only [List.append_assoc, other _ (head?_append_congr used' same)]
  exact other' rest' same

theorem Steady.bind {check : List Char → Except Fault α} {next : α → List Char → Except Fault ρ}
    (h : Steady check) (hn : ∀ a, Local (next a)) : Local fun cs => check cs >>= fun a => next a cs := by
  intro cs r eq
  obtain ⟨a, checked, read⟩ := bind_eq_ok_iff.mp eq
  obtain ⟨form, used, rest, rfl, rfl, other⟩ := hn a read
  refine ⟨form, used, rest, rfl, rfl, fun rest' same => ?_⟩
  exact bind_eq_ok_iff.mpr ⟨a, h checked, other rest' same⟩

theorem Local.ite {p : Prop} [Decidable p] {read read' : List Char → Except Fault ρ} (h : p → Local read)
    (h' : ¬p → Local read') : Local fun cs => if p then read cs else read' cs := by
  by_cases hp : p
  · simpa only [if_pos hp] using h hp
  · simpa only [if_neg hp] using h' hp

theorem Local.within {read : List Char → Except Fault ρ} (h : Local read) (step : Step) :
    Local fun cs => within step (read cs) := by
  intro cs r eq
  obtain ⟨form, used, rest, rfl, rfl, other⟩ := h (within_eq_ok_iff.mp eq)
  exact ⟨form, used, rest, rfl, rfl, fun rest' same => within_eq_ok_iff.mpr (other rest' same)⟩

theorem Local.length_le {read : Reader α} (h : Local read) {a : α} (eq : read cs = .ok (a, rest)) :
    rest.length ≤ cs.length := by
  obtain ⟨used, rfl, -⟩ := h.exists_used (a, ()) eq
  simp

theorem Bounded.bind {β : Type} {read : Reader α} {next : α × List Char → Except Fault (β × List Char)}
    (h : Bounded read) (hn : ∀ a, Local fun cs => next (a, cs)) : Bounded fun cs => read cs >>= next := by
  refine ⟨h.near.bind fun form => hn form.1, fun cs b rest eq => ?_⟩
  obtain ⟨⟨a, mid⟩, first, second⟩ := bind_eq_ok_iff.mp eq
  calc rest.length ≤ mid.length := (hn a).length_le second
    _ < cs.length := h.advances first

theorem bounded_error (f : List Char → Fault) : Bounded fun cs => (.error (f cs) : Except Fault (α × List Char)) :=
  ⟨local_error f, nofun⟩

theorem Bounded.ite {p : Prop} [Decidable p] {read read' : Reader α} (h : p → Bounded read)
    (h' : ¬p → Bounded read') : Bounded fun cs => if p then read cs else read' cs := by
  by_cases hp : p
  · simpa only [if_pos hp] using h hp
  · simpa only [if_neg hp] using h' hp

theorem token_of_skipBlanks (h : skipBlanks cs = c :: more) : isBlank c = false ∧ Token c cs more := by
  refine ⟨?_, cs.takeWhile isBlank, List.all_eq_true.mp List.all_takeWhile, ?_⟩
  · have := List.head?_dropWhile_not isBlank cs
    rw [← skipBlanks, h] at this
    simpa using this
  · rw [← h, skipBlanks, List.takeWhile_append_dropWhile]

theorem Token.exists_used (h : Token c cs rest) :
    ∃ used, cs = used ++ c :: rest ∧ ∀ rest', Token c (used ++ c :: rest') rest' := by
  obtain ⟨blanks, blank, rfl⟩ := h
  exact ⟨blanks, rfl, fun _ => ⟨blanks, blank, rfl⟩⟩

/-- A reader of what starts with the first character that is no blank. -/
theorem local_first {read : Char → List Char → Except Fault ρ} (f : Fault) (h : ∀ c, Local (read c)) :
    Local fun cs => match skipBlanks cs with
      | [] => .error f
      | c :: rest => read c rest := by
  intro cs r eq
  dsimp only at eq
  split at eq
  · cases eq
  · rename_i c more start
    obtain ⟨blank, token⟩ := token_of_skipBlanks start
    obtain ⟨form, used, rest, rfl, rfl, other⟩ := h c eq
    obtain ⟨blanks, rfl, other'⟩ := token.exists_used
    refine ⟨form, blanks ++ c :: used, rest, rfl, by simp, fun rest' same => ?_⟩
    have start' : skipBlanks (blanks ++ c :: used ++ rest') = c :: (used ++ rest') := by
      simpa using (other' (used ++ rest')).skipBlanks_eq blank
    simp only [start']
    exact other rest' same

theorem bounded_startingAt {read : Char → Reader α} (h : ∀ c, Local (read c)) : Bounded (startingAt read) := by
  refine ⟨local_first _ h, fun cs a rest eq => ?_⟩
  unfold startingAt at eq
  split at eq
  · cases eq
  · rename_i c more first
    obtain ⟨-, blanks, -, rfl⟩ := token_of_skipBlanks first
    obtain ⟨form, used, rest', held, rfl, -⟩ := h c eq
    obtain rfl : rest = rest' := congrArg Prod.snd held
    simp
    omega

/-- What starts with `c` is read on from `c`. -/
theorem Bounded.at_cons {read : Reader α} (h : Bounded read) (c : Char) : Local fun cs => read (c :: cs) := by
  intro cs r eq
  obtain ⟨a, rest⟩ := r
  have shorter := h.advances eq
  obtain ⟨form, used, rest', held, split, other⟩ := h.near eq
  obtain rfl : rest = rest' := congrArg Prod.snd held
  cases used with
  | nil =>
    obtain rfl : c :: cs = rest := split
    exact absurd shorter (Nat.lt_irrefl _)
  | cons d used =>
    obtain ⟨rfl, rfl⟩ := List.cons.inj split
    exact ⟨form, used, rest, held, rfl, other⟩

theorem readWord_eq_ok_iff {word : List Char} : readWord word cs = .ok rest ↔ cs = word ++ rest := by
  refine ⟨fun h => ?_, fun h => h ▸ readWord_append word rest⟩
  induction word generalizing cs with
  | nil =>
    cases cs <;> cases h <;> rfl
  | cons e word ih =>
    cases cs with
    | nil => cases h
    | cons c cs =>
      rw [readWord] at h
      split at h
      · subst c
        rw [ih h, List.cons_append]
      · cases h

theorem local_readWord (word : List Char) : Local (readWord word) := by
  intro cs rest eq
  obtain rfl := readWord_eq_ok_iff.mp eq
  exact ⟨(), word, rest, rfl, rfl, fun _ _ => readWord_append word _⟩

/-- A character that starts no escape, neither one with a letter nor one that is cut off. -/
theorem ne_backslash (last : c = '\\' → cs = [] → False)
    (escape : ∀ d more, c = '\\' → cs = d :: more → False) : c ≠ '\\' := by
  intro eq
  cases cs with
  | nil => exact last eq rfl
  | cons d more => exact escape d more eq rfl

/-- A string is read from no other text than those that spell it. -/
theorem spellsChars_of_readStringFrom {read s : List Char} (h : readStringFrom read cs = .ok (s, rest)) :
    ∃ s', s = read.reverse ++ s' ∧ SpellsChars cs s' rest := by
  fun_induction readStringFrom read cs
  case case2 =>
    cases h
    exact ⟨[], by simp, .close⟩
  case case6 first _ high _ _ _ _ _ _ second low ih =>
    obtain ⟨s', rfl, tail⟩ := ih h
    exact ⟨_ :: s', by simp, .pair first high second low tail⟩
  case case9 code low high ih =>
    obtain ⟨s', rfl, tail⟩ := ih h
    exact ⟨_ :: s', by simp, .code code (by simpa using high) (by simpa using low) tail⟩
  case case12 escaped ih =>
    obtain ⟨s', rfl, tail⟩ := ih h
    exact ⟨_ :: s', by simp, .escape escaped tail⟩
  case case15 cs quote _ _ last escape control ih =>
    obtain ⟨s', rfl, tail⟩ := ih h
    have backslash := ne_backslash last escape
    exact ⟨_ :: s', by simp, .plain quote backslash (Nat.le_of_not_lt control) tail⟩
  all_goals cases h

/-- The characters of a string stand up to its closing quote, whatever follows that. -/
theorem SpellsChars.exists_body {s : List Char} (h : SpellsChars cs s rest) :
    ∃ body, cs = body ++ '\x22' :: rest ∧ ∀ rest', SpellsChars (body ++ '\x22' :: rest') s rest' := by
  induction h with
  | close => exact ⟨[], rfl, fun _ => .close⟩
  | @plain c _ _ _ quote backslash control tail ih =>
    obtain ⟨body, rfl, other⟩ := ih
    exact ⟨c :: body, rfl, fun rest' => .plain quote backslash control (other rest')⟩
  | @escape c _ _ _ _ escaped tail ih =>
    obtain ⟨body, rfl, other⟩ := ih
    exact ⟨'\\' :: c :: body, rfl, fun rest' => .escape escaped (other rest')⟩
  | @code a b c d _ _ _ _ code high low tail ih =>
    obtain ⟨body, rfl, other⟩ := ih
    exact ⟨'\\' :: 'u' :: a :: b :: c :: d :: body, rfl, fun rest' => .code code high low (other rest')⟩
  | @pair a b c d a' b' c' d' _ _ _ _ _ first high second low tail ih =>
    obtain ⟨body, rfl, other⟩ := ih
    exact ⟨'\\' :: 'u' :: a :: b :: c :: d :: '\\' :: 'u' :: a' :: b' :: c' :: d' :: body, rfl,
      fun rest' => .pair first high second low (other rest')⟩

theorem closedBy_readString : ClosedBy '\x22' readString := by
  intro cs r eq
  unfold readString at eq
  split at eq
  · rename_i s rest found
    cases eq
    obtain ⟨s', rfl, spells⟩ := spellsChars_of_readStringFrom found
    obtain ⟨body, rfl, other⟩ := spells.exists_body
    exact ⟨(_, ()), body, rest, rfl, rfl, fun rest' => (other rest').readString⟩
  · cases eq

theorem closedBy_skipString : ClosedBy '\x22' skipString := by
  intro cs rest eq
  fun_induction skipString cs
  case case2 cs =>
    cases eq
    exact ⟨(), [], _, rfl, rfl, fun rest' => skipString.eq_2 rest'⟩
  case case4 a b c d cs n code ih =>
    obtain ⟨form, body, rest, rfl, rfl, other⟩ := ih eq
    refine ⟨form, '\\' :: 'u' :: a :: b :: c :: d :: body, rest, rfl, rfl, fun rest' => ?_⟩
    simpa [skipString, code] using other rest'
  case case7 c cs _ notCode e escaped ih =>
    obtain ⟨form, body, rest, rfl, rfl, other⟩ := ih eq
    refine ⟨form, '\\' :: c :: body, rest, rfl, rfl, fun rest' => ?_⟩
    rw [List.cons_append, List.cons_append, skipString, escaped]
    · exact other rest'
    all_goals simp_all
  case case10 c cs quote _ _ last escape control ih =>
    have backslash := ne_backslash last escape
    obtain ⟨form, body, rest, rfl, rfl, other⟩ := ih eq
    refine ⟨form, c :: body, rest, rfl, rfl, fun rest' => ?_⟩
    rw [List.cons_append, skipString, if_neg control]
    · exact other rest'
    all_goals simp_all
  all_goals cases eq

/-! ### Numbers -/

theorem local_dropWhile (p : Char → Bool) : Local fun cs => (.ok (cs.dropWhile p) : Except Fault (List Char)) := by
  intro cs rest eq
  cases eq
  refine ⟨(), cs.takeWhile p, cs.dropWhile p, rfl, List.takeWhile_append_dropWhile.symm, fun rest' same => ?_⟩
  have taken : ∀ c ∈ cs.takeWhile p, p c = true := List.all_eq_true.mp List.all_takeWhile
  have stops : rest'.dropWhile p = rest' := by
    have head := List.head?_dropWhile_not p cs
    rw [← same] at head
    cases rest' with
    | nil => rfl
    | cons c rest' =>
      have out : p c = false := by simpa using head
      simp [out]
  simp only [List.dropWhile_append_of_pos taken, stops]
  rfl

/-- A reader that needs a first character is local if it is so after each. -/
theorem Local.of_cons {read : List Char → Except Fault ρ} (empty : ∀ r, read [] ≠ .ok r)
    (h : ∀ c, Local fun cs => read (c :: cs)) : Local read := by
  intro cs r eq
  cases cs with
  | nil => exact absurd eq (empty r)
  | cons c cs =>
    obtain ⟨form, used, rest, rfl, rfl, other⟩ := h c eq
    exact ⟨form, c :: used, rest, rfl, rfl, other⟩

namespace Number

/-- Passes over the digits in front of a fraction. -/
def skipWhole : List Char → Except Fault (List Char)
  | [] => .error (.before .invalidNumber [])
  | c :: more =>
    if !isDigit c then .error (.atNext .invalidNumber (c :: more))
    else if c = '0' && more.head?.any isDigit then .error (.atNext .invalidNumber more)
    else .ok (more.dropWhile isDigit)

/-- Passes over a fraction, if there is one. -/
def skipFraction : List Char → Except Fault (List Char)
  | '.' :: rest =>
    if !rest.head?.any isDigit then .error (.atNext .invalidNumber rest) else .ok (rest.dropWhile isDigit)
  | cs => .ok cs

/-- Passes over an exponent, if there is one. -/
def skipPower : List Char → Except Fault (List Char)
  | c :: after => if isExponentMark c then skipExponent after else .ok (c :: after)
  | [] => .ok []

/-- The parts of a number one after the other. -/
theorem skip_eq (cs : List Char) :
    skip cs = skipWhole cs >>= fun cs => skipFraction cs >>= skipPower := by
  cases cs with
  | nil => rfl
  | cons c more =>
    rw [skip, skipWhole]
    split
    · rfl
    split
    · rfl
    rename_i digit _
    have digit : isDigit c = true := by simpa using digit
    rw [List.dropWhile_cons_of_pos digit]
    generalize more.dropWhile isDigit = tail
    change _ = skipFraction tail >>= skipPower
    split
    · rename_i rest
      rw [skipFraction]
      split
      · rfl
      · change _ = skipPower (rest.dropWhile isDigit)
        cases rest.dropWhile isDigit <;> rfl
    · rename_i c after point
      rw [skipFraction]
      · rfl
      · rintro rest eq
        exact point (List.cons.inj eq).1
    · rfl

theorem local_skipWhole (c : Char) : Local fun cs => skipWhole (c :: cs) := by
  intro cs r eq
  simp only [skipWhole] at eq
  split at eq
  · cases eq
  split at eq
  · cases eq
  rename_i digit zero
  obtain ⟨form, used, rest, held, rfl, other⟩ := local_dropWhile isDigit eq
  refine ⟨form, used, rest, held, rfl, fun rest' same => ?_⟩
  rw [← head?_append_congr used same] at zero
  simp only [skipWhole, if_neg digit, if_neg zero]
  exact other rest' same

/-- A reader that leaves its text alone unless it starts with one of some characters. -/
theorem local_of_head {read : List Char → Except Fault (List Char)} {p : Char → Bool}
    (empty : read [] = .ok []) (stay : ∀ c cs, p c = false → read (c :: cs) = .ok (c :: cs))
    (go : ∀ c, p c = true → Local fun cs => read (c :: cs)) : Local read := by
  intro cs r eq
  cases cs with
  | nil =>
    obtain rfl : [] = r := Except.ok.inj (empty.symm.trans eq)
    refine ⟨(), [], [], rfl, rfl, fun rest' same => ?_⟩
    obtain rfl : rest' = [] := by simpa using same
    exact empty
  | cons c cs =>
    cases hc : p c with
    | true =>
      obtain ⟨form, used, rest, held, rfl, other⟩ := go c hc eq
      exact ⟨form, c :: used, rest, held, rfl, other⟩
    | false =>
      obtain rfl : c :: cs = r := Except.ok.inj ((stay c cs hc).symm.trans eq)
      refine ⟨(), [], c :: cs, rfl, rfl, fun rest' same => ?_⟩
      obtain ⟨cs', rfl⟩ : ∃ cs', rest' = c :: cs' := List.head?_eq_some_iff.mp same
      exact stay c cs' hc

theorem local_skipFraction : Local skipFraction := by
  refine local_of_head (p := (· == '.')) rfl (fun c cs hc => ?_) fun c hc => ?_
  · rw [skipFraction]
    rintro rest eq
    simp [(List.cons.inj eq).1] at hc
  · obtain rfl : c = '.' := by simpa using hc
    intro cs r eq
    simp only [skipFraction] at eq
    split at eq
    · cases eq
    rename_i digit
    obtain ⟨form, used, rest, held, rfl, other⟩ := local_dropWhile isDigit eq
    refine ⟨form, used, rest, held, rfl, fun rest' same => ?_⟩
    rw [← head?_append_congr used same] at digit
    simp only [skipFraction, if_neg digit]
    exact other rest' same

def isSign (c : Char) : Bool := c == '-' || c == '+'

/-- Passes over a sign, if there is one. -/
def skipSign (cs : List Char) : Except Fault (List Char) := .ok (Decimal.splitSign cs).2

def skipDigits : List Char → Except Fault (List Char)
  | [] => .error (.before .invalidNumber [])
  | c :: rest => if isDigit c then .ok (rest.dropWhile isDigit) else .error (.atNext .invalidNumber (c :: rest))

theorem skipExponent_eq (cs : List Char) : skipExponent cs = skipSign cs >>= skipDigits := by
  change _ = skipDigits (Decimal.splitSign cs).2
  rw [skipExponent]
  split <;> rename_i eq <;> rw [eq] <;> rfl

theorem local_skipSign : Local skipSign := by
  refine local_of_head (p := isSign) rfl (fun c cs hc => ?_) fun c hc => ?_
  · have ne : c ≠ '-' ∧ c ≠ '+' := by simpa [isSign] using hc
    rw [skipSign, Decimal.splitSign]
    all_goals simp_all
  · have sign : c = '-' ∨ c = '+' := by simpa [isSign] using hc
    rcases sign with rfl | rfl
    · exact local_ok ()
    · exact local_ok ()

theorem local_skipDigits : Local skipDigits :=
  .of_cons nofun fun _ => .ite (fun _ => local_dropWhile isDigit) fun _ => local_error _

theorem local_skipExponent : Local skipExponent := by
  simp only [funext skipExponent_eq]
  exact local_skipSign.bind fun _ => local_skipDigits

theorem local_skipPower : Local skipPower := by
  refine local_of_head (p := isExponentMark) rfl (fun c cs hc => ?_) fun c hc => ?_
  · simp [skipPower, hc]
  · simp only [skipPower, if_pos hc]
    exact local_skipExponent

theorem local_skip (c : Char) : Local fun cs => skip (c :: cs) := by
  simp only [skip_eq]
  exact (local_skipWhole c).bind fun _ => local_skipFraction.bind fun _ => local_skipPower

end Number

end TableQuery.Json
