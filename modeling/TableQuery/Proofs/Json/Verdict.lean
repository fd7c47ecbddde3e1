import TableQuery.Proofs.Json.Tokens
import TableQuery.Json.Shape

/-! # Reading a text by its value

A `Verdict` says what reading comes to: something, or a refusal, with its cause where that is told.
`Follows read verdict`: from every text of a value `d`, the reader gives what `verdict d` says and ends
where the text does. The readers for texts, booleans, lists and objects follow the verdicts that are
put together from those of the parts, so what a reader accepts can be said of JSON values
alone. -/

namespace TableQuery.Json

variable {α β γ δ : Type}

abbrev Verdict (α : Type) := Except (Option Cause) α

/-- A result is as a verdict says, where `agree` relates what is read. -/
def Gives (agree : α → β → Prop) : Verdict α → Except Fault β → Prop
  | .ok a, result => ∃ b, result = .ok b ∧ agree a b
  | .error none, result => ∃ f, result = .error f
  | .error (some cause), result => ∃ f, result = .error f ∧ f.cause = cause

namespace Gives
variable {agree : α → β → Prop} {agree' : γ → δ → Prop} {x : Verdict α} {r : Except Fault β}

theorem pure {a : α} {b : β} (h : agree a b) : Gives agree (.ok a) (.ok b) := ⟨b, rfl, h⟩

theorem bind {f : α → Verdict γ} {k : β → Except Fault δ} (h : Gives agree x r)
    (hk : ∀ a b, agree a b → Gives agree' (f a) (k b)) : Gives agree' (x >>= f) (r >>= k) := by
  match x with
  | .ok a =>
    obtain ⟨b, rfl, hb⟩ := h
    exact hk a b hb
  | .error none =>
    obtain ⟨e, rfl⟩ := h
    exact ⟨e, rfl⟩
  | .error (some cause) =>
    obtain ⟨e, rfl, he⟩ := h
    exact ⟨e, rfl, he⟩

theorem within (step : Step) (h : Gives agree x r) : Gives agree x (within step r) := by
  match x with
  | .ok a =>
    obtain ⟨b, rfl, hb⟩ := h
    exact ⟨b, rfl, hb⟩
  | .error none =>
    obtain ⟨e, rfl⟩ := h
    exact ⟨e.within step, rfl⟩
  | .error (some cause) =>
    obtain ⟨e, rfl, he⟩ := h
    exact ⟨e.within step, rfl, he⟩

theorem exists_error {cause : Option Cause} (h : Gives agree (.error cause) r) : ∃ f, r = .error f := by
  match cause with
  | none => exact h
  | some cause =>
    obtain ⟨f, eq, -⟩ := h
    exact ⟨f, eq⟩

end Gives

def Leaves (rest : List Char) (a : α) (b : α × List Char) : Prop := b = (a, rest)

/-- From every text of a value the reader gives what the verdict on the value says. -/
def Follows (read : Reader α) (verdict : Document → Verdict α) : Prop :=
  ∀ ⦃cs d rest⦄, Spells cs d rest → Gives (Leaves rest) (verdict d) (read cs)

section
variable {read : Reader α} {verdict : Document → Verdict α} {text : String} {d : Document}

theorem ofTail_eq_none {rest : List Char} (h : ∀ c ∈ rest, isBlank c = true) :
    Fault.ofTail rest = none := by
  simp [Fault.ofTail, skipBlanks_eq_nil h]

theorem Follows.readWhole_eq_ok_iff (h : Follows read verdict) (is : IsText text d) {a : α} :
    readWhole read text = .ok a ↔ verdict d = .ok a := by
  obtain ⟨rest, spells, blank⟩ := is
  have given := h spells
  cases found : verdict d with
  | ok a' =>
    rw [found] at given
    obtain ⟨_, eq, rfl⟩ := given
    simp [readWhole, eq, ofTail_eq_none blank]
  | error cause =>
    rw [found] at given
    obtain ⟨f, eq⟩ := given.exists_error
    simp [readWhole, eq]

theorem Follows.exists_fault (h : Follows read verdict) (is : IsText text d) {cause : Cause}
    (refused : verdict d = .error (some cause)) : ∃ f, read text.toList = .error f ∧ f.cause = cause := by
  obtain ⟨rest, spells, -⟩ := is
  have given := h spells
  rwa [refused] at given

theorem Follows.readWhole_eq_error (h : Follows read verdict) (is : IsText text d) {cause : Cause}
    (refused : verdict d = .error (some cause)) :
    ∃ c, readWhole read text = .error c ∧ c.cause = cause := by
  obtain ⟨f, eq, rfl⟩ := h.exists_fault is refused
  exact ⟨f.complaint text.toList, by simp [readWhole, eq], rfl⟩

theorem Follows.readFirst_eq_error (h : Follows read verdict) (is : IsText text d) {cause : Cause}
    (refused : verdict d = .error (some cause)) :
    ∃ c, readFirst read text = .error c ∧ c.cause = cause := by
  obtain ⟨f, eq, rfl⟩ := h.exists_fault is refused
  exact ⟨f.complaint text.toList, by simp [readFirst, eq], rfl⟩

end

namespace Verdict

def text : Document → Verdict String
  | .text s => .ok s
  | _ => .error none

def boolean : Document → Verdict Bool
  | .boolean b => .ok b
  | _ => .error none

/-- The elements of an array, in order up to the first that is refused. -/
def list (element : Document → Verdict α) : Document → Verdict (List α)
  | .array ds => ds.mapM element
  | _ => .error none

def optional (value : Document → Verdict α) : Document → Verdict (Option α)
  | .null => .ok none
  | d => do return some (← value d)

end Verdict

theorem startingAt_eq {read : Char → Reader α} {cs more : List Char} {c : Char}
    (first : skipBlanks cs = c :: more) : startingAt read cs = read c more := by
  simp [startingAt, first]

theorem exists_refuse (wanted : String) (c : Char) (rest : List Char) :
    ∃ f, (refuse wanted c rest : Except Fault (α × List Char)) = .error f := by
  unfold refuse
  split
  · exact ⟨_, rfl⟩
  · exact ⟨_, rfl⟩

theorem follows_readText : Follows readText Verdict.text := by
  intro cs d rest h
  obtain ⟨c, more, first, kind⟩ := h.exists_first
  rw [readText, startingAt_eq first]
  cases h with
  | text token chars =>
    obtain ⟨rfl, rfl⟩ := token.eq_of_first rfl first
    rw [if_pos rfl, chars.readString]
    exact .pure rfl
  | _ =>
    have ne : c ≠ '\x22' := by
      rintro rfl
      cases kind
    rw [if_neg ne]
    exact exists_refuse _ _ _

theorem follows_readBoolean : Follows readBoolean Verdict.boolean := by
  intro cs d rest h
  obtain ⟨c, more, first, kind⟩ := h.exists_first
  rw [readBoolean, startingAt_eq first]
  cases h with
  | yes token =>
    obtain ⟨rfl, rfl⟩ := token.eq_of_first rfl first
    rw [if_pos rfl, readWord_append]
    exact .pure rfl
  | no token =>
    obtain ⟨rfl, rfl⟩ := token.eq_of_first rfl first
    rw [if_neg (by decide), if_pos rfl, readWord_append]
    exact .pure rfl
  | _ =>
    have ne : c ≠ 't' ∧ c ≠ 'f' := by
      constructor <;> rintro rfl <;> cases kind
    rw [if_neg ne.1, if_neg ne.2]
    exact exists_refuse _ _ _

end TableQuery.Json
