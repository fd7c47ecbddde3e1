import TableQuery.Proofs.Json.Extent
import TableQuery.Proofs.Json.Parts

/-! # Arrays and objects end at their brackets

What is read of an array or an object is taken up to the closing bracket, and what follows that does
not count (`closedBy_elements`, `closedBy_members`). The clock does not count either: another text has
another one, and all that matters is that it is longer than the text. -/

namespace TableQuery.Json

open Remainder (Form hold)

variable {α β σ ρ : Type} [Remainder ρ] {cs inner body more rest : List Char} {c : Char} {first : Bool}

instance : Remainder NextElement where
  Form := Bool
  hold closed rest := if closed then .closed rest else .element rest
  hold_inj {closed closed'} _ _ eq := by
    cases closed <;> cases closed' <;> cases eq <;> exact ⟨rfl, rfl⟩

instance : Remainder NextKey where
  Form := Option String
  hold key rest := match key with
    | none => .closed rest
    | some key => .member key rest
  hold_inj {key key'} _ _ eq := by
    cases key <;> cases key' <;> cases eq <;> exact ⟨rfl, rfl⟩

theorem Lead.exists_used (h : Lead first cs rest) :
    ∃ used, cs = used ++ rest ∧ ∀ rest', Lead first (used ++ rest') rest' := by
  cases first with
  | true => exact ⟨[], h, fun _ => rfl⟩
  | false =>
    obtain ⟨used, rfl, other⟩ := Token.exists_used h
    exact ⟨used ++ [','], by simp, fun rest' => by
      rw [List.append_assoc]
      exact other rest'⟩

theorem nextElement_first {d : Char} (lead : Lead first cs inner) (token : Token d inner more)
    (blank : isBlank d = false) (ne : d ≠ ']') : nextElement first cs = .ok (.element (d :: more)) := by
  have start := token.skipBlanks_eq blank
  cases first with
  | true =>
    obtain rfl : cs = inner := lead
    simp [nextElement, start, ne]
  | false => simp [nextElement, Token.skipBlanks_eq lead rfl, start, ne]

theorem nextElement_cases {next : NextElement} (h : nextElement first cs = .ok next) :
    (∃ rest, next = .closed rest ∧ Token ']' cs rest) ∨
      ∃ inner d more, next = .element (d :: more) ∧ Lead first cs inner ∧ Token d inner more ∧
        isBlank d = false ∧ d ≠ ']' := by
  unfold nextElement at h
  split at h
  · cases h
  rename_i c more start
  obtain ⟨blank, token⟩ := token_of_skipBlanks start
  split at h
  · subst c
    cases h
    exact .inl ⟨more, rfl, token⟩
  rename_i ne
  split at h
  · rename_i isFirst
    subst isFirst
    cases h
    exact .inr ⟨cs, c, more, rfl, rfl, token, blank, ne⟩
  split at h
  · subst c
    split at h
    · cases h
    rename_i d after start'
    obtain ⟨blank', token'⟩ := token_of_skipBlanks start'
    split at h
    · cases h
    · rename_i notFirst _ ne'
      cases h
      obtain rfl : first = false := by simpa using notFirst
      exact .inr ⟨more, d, after, rfl, token, token', blank', ne'⟩
  · cases h

theorem local_nextElement (first : Bool) : Local (nextElement first) := by
  intro cs next eq
  rcases nextElement_cases eq with ⟨rest, rfl, token⟩ | ⟨inner, d, more, rfl, lead, token, blank, ne⟩
  · obtain ⟨used, rfl, other⟩ := token.exists_used
    refine ⟨true, used ++ [']'], rest, rfl, by simp, fun rest' _ => ?_⟩
    rw [List.append_assoc]
    exact nextElement_close (other rest')
  · obtain ⟨used, rfl, other⟩ := lead.exists_used
    obtain ⟨used', rfl, other'⟩ := token.exists_used
    refine ⟨false, used ++ used', d :: more, rfl, by simp, fun rest' same => ?_⟩
    obtain ⟨more', rfl⟩ : ∃ more', rest' = d :: more' := List.head?_eq_some_iff.mp same
    rw [List.append_assoc]
    exact nextElement_first (other _) (other' more') blank ne

theorem keyAt_cases {d : Char} {next : NextKey} (h : keyAt (d :: more) = .ok next) :
    d = '\x22' ∧ ∃ s rest, next = .member (String.ofList s) rest ∧ SpellsChars more s rest := by
  unfold keyAt at h
  split at h
  · rename_i after eq
    obtain ⟨rfl, rfl⟩ := List.cons.inj eq
    obtain ⟨⟨key, rest⟩, string, h⟩ := bind_eq_ok_iff.mp h
    cases h
    unfold readString at string
    split at string
    · rename_i found
      cases string
      obtain ⟨s, rfl, spells⟩ := spellsChars_of_readStringFrom found
      exact ⟨rfl, _, _, rfl, spells⟩
    · cases string
  · cases h

theorem nextKey_cases {next : NextKey} (h : nextKey first cs = .ok next) :
    (∃ rest, next = .closed rest ∧ Token '\x7d' cs rest) ∨
      ∃ inner body s rest, next = .member (String.ofList s) rest ∧ Lead first cs inner ∧
        Token '\x22' inner body ∧ SpellsChars body s rest := by
  replace h := within_eq_ok_iff.mp h
  unfold nextKeyUnlocated at h
  split at h
  · cases h
  rename_i c more start
  obtain ⟨blank, token⟩ := token_of_skipBlanks start
  split at h
  · subst c
    cases h
    exact .inl ⟨more, rfl, token⟩
  split at h
  · rename_i isFirst
    subst isFirst
    obtain ⟨rfl, s, rest, rfl, spells⟩ := keyAt_cases h
    exact .inr ⟨cs, more, s, rest, rfl, rfl, token, spells⟩
  split at h
  · subst c
    split at h
    · cases h
    rename_i d after start'
    obtain ⟨blank', token'⟩ := token_of_skipBlanks start'
    split at h
    · cases h
    · rename_i notFirst _ _ _
      obtain rfl : first = false := by simpa using notFirst
      obtain ⟨rfl, s, rest, rfl, spells⟩ := keyAt_cases h
      exact .inr ⟨more, after, s, rest, rfl, token, token', spells⟩
  · cases h

theorem local_nextKey (first : Bool) : Local (nextKey first) := by
  intro cs next eq
  rcases nextKey_cases eq with ⟨rest, rfl, token⟩ | ⟨inner, body, s, rest, rfl, lead, quote, key⟩
  · obtain ⟨used, rfl, other⟩ := token.exists_used
    refine ⟨none, used ++ ['\x7d'], rest, rfl, by simp, fun rest' _ => ?_⟩
    rw [List.append_assoc]
    exact nextKey_close (other rest')
  · obtain ⟨used, rfl, other⟩ := lead.exists_used
    obtain ⟨used', rfl, other'⟩ := quote.exists_used
    obtain ⟨chars, rfl, other''⟩ := key.exists_body
    refine ⟨some (String.ofList s), used ++ (used' ++ '\x22' :: (chars ++ ['\x22'])), rest, rfl, by simp,
      fun rest' _ => ?_⟩
    simp only [List.append_assoc, List.cons_append]
    exact nextKey_member (other _) (other' _) (other'' rest')

theorem token_of_skipColon (h : skipColon cs = .ok rest) : Token ':' cs rest := by
  unfold skipColon at h
  split at h
  · cases h
  rename_i c more start
  split at h
  · subst c
    cases h
    exact (token_of_skipBlanks start).2
  · cases h

theorem local_skipColon : Local skipColon :=
  local_first _ fun _ => .ite (fun _ => local_ok ()) fun _ => local_error _

theorem bounded_memberValue {read : Reader α} (h : Local read) (key : String) :
    Bounded (memberValue key read) := by
  refine ⟨local_skipColon.bind fun _ => h.within _, fun cs a rest eq => ?_⟩
  obtain ⟨value, colon, eq⟩ := bind_eq_ok_iff.mp eq
  calc rest.length ≤ value.length := h.length_le (within_eq_ok_iff.mp eq)
    _ < cs.length := (token_of_skipColon colon).length_lt

/-- Whatever the clock, if it outlasts the text, `run` takes a text up to a `c` and gives `a`, and what
follows does not count. -/
def TakesUpTo (c : Char) (run : List Char → Reader α) (cs : List Char) (a : α) (rest : List Char) : Prop :=
  ∃ body, cs = body ++ c :: rest ∧ ∀ rest' clock, (body ++ c :: rest').length < clock.length →
    run clock (body ++ c :: rest') = .ok (a, rest')

namespace TakesUpTo
variable {a : α} {run run' : List Char → Reader α} {mid : List Char}

theorem close (token : Token c cs rest)
    (step : ∀ t clock cs rest, Token c cs rest → run (t :: clock) cs = .ok (a, rest)) :
    TakesUpTo c run cs a rest := by
  obtain ⟨body, rfl, other⟩ := token.exists_used
  refine ⟨body, rfl, fun rest' clock longer => ?_⟩
  cases clock with
  | nil => exact absurd longer (Nat.not_lt_zero _)
  | cons t clock => exact step t clock _ rest' (other rest')

/-- A round takes what leads to a part and the part itself, and at least one character with them. -/
theorem part {lead : List Char → Except Fault ρ} {read : Reader β} {b : β} (next : Local lead) (form : Form ρ)
    (found : lead cs = .ok (hold form inner)) (h : Bounded read) (value : read inner = .ok (b, mid))
    (step : ∀ t clock cs inner mid, lead cs = .ok (hold form inner) → read inner = .ok (b, mid) →
      run (t :: clock) cs = run' clock mid)
    (later : TakesUpTo c run' mid a rest) : TakesUpTo c run cs a rest := by
  obtain ⟨front, rfl, other⟩ := next.exists_used form found
  obtain ⟨used, rfl, other'⟩ := h.near.exists_used (b, ()) value
  obtain ⟨body, rfl, rounds⟩ := later
  refine ⟨front ++ (used ++ body), by simp, fun rest' clock longer => ?_⟩
  cases clock with
  | nil => exact absurd longer (Nat.not_lt_zero _)
  | cons t clock =>
    have same : (body ++ c :: rest').head? = (body ++ c :: rest).head? := head?_append_congr body rfl
    have value' : read (used ++ (body ++ c :: rest')) = .ok (b, body ++ c :: rest') := other' _ same
    have found' := other (used ++ (body ++ c :: rest')) (head?_append_congr used same)
    have shorter := h.advances value'
    simp only [List.append_assoc]
    rw [step t clock _ _ _ found' value']
    exact rounds rest' clock (by simp at longer shorter ⊢; omega)

end TakesUpTo

theorem takesUpTo_of_elementsFrom {element : Reader α} (h : Bounded element) {clock : List Char} {index : Nat}
    {done as : List α} (eq : elementsFrom element clock index done cs = .ok (as, rest)) :
    TakesUpTo ']' (fun clock => elementsFrom element clock index done) cs as rest := by
  induction clock generalizing cs index done with
  | nil => cases eq
  | cons t clock ih =>
    obtain ⟨next, found, after⟩ := bind_eq_ok_iff.mp eq
    rcases nextElement_cases found with ⟨_, rfl, token⟩ | ⟨inner, d, more, rfl, -⟩
    · cases after
      refine .close token fun t clock cs rest token => ?_
      rw [elementsFrom, nextElement_close token]
      rfl
    · obtain ⟨⟨a, mid⟩, value, later⟩ := bind_eq_ok_iff.mp after
      refine .part (local_nextElement _) false found h (within_eq_ok_iff.mp value) ?_ (ih later)
      intro t clock cs inner mid found value
      rw [elementsFrom, found]
      simp [value, within, hold, bind, Except.bind]

theorem closedBy_elements {element : Reader α} (h : Bounded element) : ClosedBy ']' (elements element) := by
  intro cs r eq
  obtain ⟨as, rest⟩ := r
  obtain ⟨body, rfl, other⟩ := takesUpTo_of_elementsFrom h eq
  exact ⟨(as, ()), body, rest, rfl, rfl, fun rest' => other rest' _ (by simp)⟩

theorem takesUpTo_of_membersFrom {member : σ → String → Reader σ} (h : ∀ state key, Bounded (member state key))
    {clock : List Char} {state last : σ} (eq : membersFrom member clock first state cs = .ok (last, rest)) :
    TakesUpTo '\x7d' (fun clock => membersFrom member clock first state) cs last rest := by
  induction clock generalizing cs first state with
  | nil => cases eq
  | cons t clock ih =>
    obtain ⟨next, found, after⟩ := bind_eq_ok_iff.mp eq
    rcases nextKey_cases found with ⟨_, rfl, token⟩ | ⟨_, _, s, colon, rfl, -⟩
    · cases after
      refine .close token fun t clock cs rest token => ?_
      rw [membersFrom, nextKey_close token]
      rfl
    · obtain ⟨⟨state', mid⟩, changed, later⟩ := bind_eq_ok_iff.mp after
      refine .part (local_nextKey _) (some (String.ofList s)) found (h _ _) changed ?_ (ih later)
      intro t clock cs inner mid found changed
      rw [membersFrom, found]
      simp [changed, hold, bind, Except.bind]

theorem closedBy_members {member : σ → String → Reader σ} (h : ∀ state key, Bounded (member state key))
    (state : σ) : ClosedBy '\x7d' (members member state) := by
  intro cs r eq
  obtain ⟨last, rest⟩ := r
  obtain ⟨body, rfl, other⟩ := takesUpTo_of_membersFrom h eq
  exact ⟨(last, ()), body, rest, rfl, rfl, fun rest' => other rest' _ (by simp)⟩

/-! ### Values that are passed over -/

theorem local_skipScalar (c : Char) : Local (skipScalar c) := by
  have number : Local Number.skip := .of_cons nofun Number.local_skip
  exact .ite (fun _ => local_readWord _) fun _ => .ite (fun _ => local_readWord _) fun _ =>
    .ite (fun _ => local_readWord _) fun _ => .ite (fun _ => number) fun _ =>
    .ite (fun _ => Number.local_skip c) fun _ => .ite (fun _ => closedBy_skipString.near) fun _ =>
    local_error _

theorem local_skipKey : Local skipKey :=
  local_first _ fun _ => .ite
    (fun _ => closedBy_skipString.near.bind fun _ => local_first _ fun _ =>
      .ite (fun _ => local_ok ()) fun _ => local_error _)
    fun _ => local_error _

theorem local_skipLead : (bracket : Bracket) → Local bracket.skipLead
  | .array => local_ok ()
  | .object => local_skipKey

/-- From `cs` as far as `rest`, passing on takes the same from every text that goes on like `rest`. -/
def PassesOn (due : Due) (brackets : List Bracket) (cs rest : List Char) : Prop :=
  ∃ used, cs = used ++ rest ∧ ∀ rest' clock, rest'.head? = rest.head? → (used ++ rest').length < clock.length →
    skipFrom clock due brackets (used ++ rest') = .ok rest'

namespace PassesOn
variable {due due' : Due} {bracket : Bracket} {brackets brackets' : List Bracket} {mid after : List Char}

theorem before {front : List Char} (h : PassesOn due' brackets' mid rest) (ne : front ≠ [])
    (step : ∀ mid', mid'.head? = mid.head? → ∀ t clock,
      skipFrom (t :: clock) due brackets (front ++ mid') = skipFrom clock due' brackets' mid') :
    PassesOn due brackets (front ++ mid) rest := by
  obtain ⟨used, rfl, other⟩ := h
  refine ⟨front ++ used, by simp, fun rest' clock same longer => ?_⟩
  have taken := List.length_pos_iff.mpr ne
  cases clock with
  | nil => exact absurd longer (Nat.not_lt_zero _)
  | cons t clock =>
    rw [List.append_assoc, step _ (head?_append_congr used same)]
    exact other rest' clock same (by simp at longer ⊢; omega)

theorem scalar (token : Token c cs more) (blank : isBlank c = false)
    (scalar : Bracket.ofOpening? c = none) (skipped : skipScalar c more = .ok mid)
    (h : PassesOn .nextPart brackets mid rest) : PassesOn .value brackets cs rest := by
  obtain ⟨blanks, rfl, other⟩ := token.exists_used
  obtain ⟨used, rfl, other'⟩ := (local_skipScalar c).exists_used () skipped
  have split : blanks ++ c :: (used ++ mid) = (blanks ++ c :: used) ++ mid := by simp
  rw [split]
  refine h.before (by simp) fun mid' same t clock => ?_
  have skipped' : skipScalar c (used ++ mid') = .ok mid' := other' mid' same
  simpa using skipFrom_scalar ((other (used ++ mid')).skipBlanks_eq blank) scalar skipped'

theorem empty (token : Token c cs more) (blank : isBlank c = false)
    (opens : Bracket.ofOpening? c = some bracket) (closes : Token bracket.closing more mid)
    (h : PassesOn .nextPart brackets mid rest) : PassesOn .value brackets cs rest := by
  obtain ⟨blanks, rfl, other⟩ := token.exists_used
  obtain ⟨blanks', rfl, other'⟩ := closes.exists_used
  have blank' : isBlank bracket.closing = false := by cases bracket <;> rfl
  have split : blanks ++ c :: (blanks' ++ bracket.closing :: mid) =
      (blanks ++ c :: (blanks' ++ [bracket.closing])) ++ mid := by simp
  rw [split]
  refine h.before (by simp) fun mid' _ t clock => ?_
  have start := (other (blanks' ++ bracket.closing :: mid')).skipBlanks_eq blank
  simpa using skipFrom_empty start opens ((other' mid').skipBlanks_eq blank')

theorem opened {d : Char} (token : Token c cs more) (blank : isBlank c = false)
    (opens : Bracket.ofOpening? c = some bracket) (part : Token d more after) (blank' : isBlank d = false)
    (ne : d ≠ bracket.closing) (lead : bracket.skipLead (d :: after) = .ok mid)
    (h : PassesOn .value (bracket :: brackets) mid rest) : PassesOn .value brackets cs rest := by
  obtain ⟨blanks, rfl, other⟩ := token.exists_used
  obtain ⟨blanks', rfl, other'⟩ := part.exists_used
  obtain ⟨used, split, other''⟩ := (local_skipLead bracket).exists_used () lead
  have split' : blanks ++ c :: (blanks' ++ d :: after) = (blanks ++ c :: (blanks' ++ used)) ++ mid := by
    simp [split]
  rw [split']
  refine h.before (by simp) fun mid' same t clock => ?_
  -- an array has nothing to pass over in front of its first element
  obtain ⟨after', split''⟩ : ∃ after', used ++ mid' = d :: after' := by
    refine List.head?_eq_some_iff.mp ?_
    rw [head?_append_congr used same, ← split, List.head?_cons]
  have lead' : bracket.skipLead (d :: after') = .ok mid' := split'' ▸ other'' mid' same
  have start := (other (blanks' ++ d :: after')).skipBlanks_eq blank
  simpa [split''] using skipFrom_open start opens ((other' after').skipBlanks_eq blank') ne lead'

theorem comma (token : Token ',' cs more) (lead : bracket.skipLead more = .ok mid)
    (h : PassesOn .value (bracket :: brackets) mid rest) :
    PassesOn .nextPart (bracket :: brackets) cs rest := by
  obtain ⟨blanks, rfl, other⟩ := token.exists_used
  obtain ⟨used, rfl, other'⟩ := (local_skipLead bracket).exists_used () lead
  have split : blanks ++ ',' :: (used ++ mid) = (blanks ++ ',' :: used) ++ mid := by simp
  rw [split]
  refine h.before (by simp) fun mid' same t clock => ?_
  have lead' : bracket.skipLead (used ++ mid') = .ok mid' := other' mid' same
  simpa using skipFrom_comma ((other (used ++ mid')).skipBlanks_eq rfl) lead'

theorem close (token : Token bracket.closing cs mid) (h : PassesOn .nextPart brackets mid rest) :
    PassesOn .nextPart (bracket :: brackets) cs rest := by
  obtain ⟨blanks, rfl, other⟩ := token.exists_used
  have blank : isBlank bracket.closing = false := by cases bracket <;> rfl
  have split : blanks ++ bracket.closing :: mid = (blanks ++ [bracket.closing]) ++ mid := by simp
  rw [split]
  refine h.before (by simp) fun mid' _ t clock => ?_
  simpa using skipFrom_close ((other mid').skipBlanks_eq blank)

theorem done : PassesOn .nextPart [] rest rest := by
  refine ⟨[], rfl, fun rest' clock _ longer => ?_⟩
  cases clock with
  | nil => exact absurd longer (Nat.not_lt_zero _)
  | cons t clock => rw [List.nil_append, skipFrom]

end PassesOn

theorem passesOn_of_skipFrom {clock : List Char} {due : Due} {brackets : List Bracket}
    (eq : skipFrom clock due brackets cs = .ok rest) : PassesOn due brackets cs rest := by
  fun_induction skipFrom clock due brackets cs
  case case3 start scalar ih =>
    obtain ⟨blank, token⟩ := token_of_skipBlanks start
    obtain ⟨mid, skipped, later⟩ := bind_eq_ok_iff.mp eq
    exact .scalar token blank scalar skipped (ih _ later)
  case case5 start _ opens _ closes ih =>
    obtain ⟨blank, token⟩ := token_of_skipBlanks start
    exact .empty token blank opens (token_of_skipBlanks closes).2 (ih eq)
  case case6 start _ opens _ _ part ne ih =>
    obtain ⟨blank, token⟩ := token_of_skipBlanks start
    obtain ⟨blank', part⟩ := token_of_skipBlanks part
    obtain ⟨mid, lead, later⟩ := bind_eq_ok_iff.mp eq
    exact .opened token blank opens part blank' ne lead (ih _ later)
  case case7 =>
    cases eq
    exact .done
  case case9 start ih =>
    obtain ⟨mid, lead, later⟩ := bind_eq_ok_iff.mp eq
    exact .comma (token_of_skipBlanks start).2 lead (ih _ later)
  case case10 start _ ih => exact .close (token_of_skipBlanks start).2 (ih eq)
  all_goals cases eq

theorem local_skipValue : Local skipValue := by
  intro cs r eq
  obtain ⟨rest, skipped, eq⟩ := bind_eq_ok_iff.mp eq
  cases eq
  obtain ⟨used, rfl, other⟩ := passesOn_of_skipFrom skipped
  refine ⟨((), ()), used, rest, rfl, rfl, fun rest' same => ?_⟩
  rw [skipValue, other rest' _ same (by simp)]
  rfl

end TableQuery.Json
