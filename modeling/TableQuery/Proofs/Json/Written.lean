import Mathlib.Data.List.Forall2
import TableQuery.Json.Writer
import TableQuery.Proofs.Json.Grammar
import TableQuery.Proofs.Text.Separated

/-! # What is written is a text

`Written w d`: the characters `w`, whatever follows them, are a text of the value `d`. Each writer
gives such characters when the parts do, so nothing of a value is lost in writing. -/

namespace TableQuery.Json

variable {cs s rest : List Char} {w : List Char} {d : Document}

/-- Whatever follows, `w` is a text of the value `d`. A number is not written alone: a digit that
follows would go on with it. -/
def Written (w : List Char) (d : Document) : Prop := ∀ rest, Spells (w ++ rest) d rest

theorem Written.isText (h : Written w d) : IsText (String.ofList w) d :=
  ⟨[], by simpa using h [], by simp⟩

theorem token_cons (c : Char) (rest : List Char) : Token c (c :: rest) rest := ⟨[], by simp, rfl⟩

theorem SpellsChars.written (c : Char) (tail : SpellsChars cs s rest) :
    SpellsChars (writtenChar c ++ cs) (c :: s) rest := by
  unfold writtenChar
  iterate 7
    split
    · subst c
      exact .escape rfl tail
  split
  · rename_i control
    have high : isHighSurrogate c.toNat = false := by simp [isHighSurrogate]; omega
    have low : isLowSurrogate c.toNat = false := by simp [isLowSurrogate]; omega
    have code := SpellsChars.code (hexQuad?_hexDigit control) high low tail
    rwa [Char.ofNat_toNat] at code
  · exact .plain ‹_› ‹_› (Nat.le_of_not_lt ‹_›) tail

theorem spellsChars_flatMap (s rest : List Char) :
    SpellsChars (s.flatMap writtenChar ++ '\x22' :: rest) s rest := by
  induction s with
  | nil => exact .close
  | cons c s ih =>
    rw [List.flatMap_cons, List.append_assoc]
    exact ih.written c

theorem token_writeText (s : String) (rest : List Char) :
    Token '\x22' (writeText s ++ rest) (s.toList.flatMap writtenChar ++ '\x22' :: rest) :=
  ⟨[], by simp, by simp [writeText]⟩

theorem written_text (s : String) : Written (writeText s) (.text s) := by
  intro rest
  have text := Spells.text (token_writeText s rest) (spellsChars_flatMap s.toList rest)
  rwa [String.ofList_toList] at text

theorem written_null : Written writeNull .null := fun _ => .null (token_cons _ _)

theorem written_boolean (b : Bool) : Written (writeBoolean b) (.boolean b) := by
  intro rest
  cases b with
  | true => exact .yes (token_cons _ _)
  | false => exact .no (token_cons _ _)

/-- Parts with a comma between neighbours are the first, and a comma before each other. -/
theorem spellsElements_flatMap {ws : List (List Char)} {ds : List Document}
    (h : List.Forall₂ Written ws ds) (rest : List Char) :
    SpellsElements false (ws.flatMap (',' :: ·) ++ ']' :: rest) ds rest := by
  induction h with
  | nil => exact .close (token_cons _ _)
  | cons first _ ih =>
    rw [List.flatMap_cons, List.append_assoc]
    exact .element (token_cons _ _) (first _) ih

theorem written_array {ws : List (List Char)} {ds : List Document} (h : List.Forall₂ Written ws ds) :
    Written (writeArray ws) (.array ds) := by
  intro rest
  rw [writeArray, List.cons_append, List.cons_append, List.append_assoc]
  refine .array (token_cons _ _) ?_
  cases h with
  | nil => exact .close (token_cons _ _)
  | cons first others =>
    rw [intercalate_cons, List.append_assoc]
    exact .element rfl (first _) (spellsElements_flatMap others rest)

def WrittenMember (w : String × List Char) (m : String × Document) : Prop :=
  w.1 = m.1 ∧ Written w.2 m.2

theorem Written.member (key : String) (h : Written w d) : WrittenMember (key, w) (key, d) := ⟨rfl, h⟩

theorem WrittenMember.spells {m : String × List Char} {m' : String × Document}
    {ms : List (String × Document)} {first : Bool} (h : WrittenMember m m')
    (lead : Lead first cs (writeMember m.1 m.2 ++ rest)) {after : List Char}
    (tail : SpellsMembers false rest ms after) : SpellsMembers first cs (m' :: ms) after := by
  obtain ⟨key, w⟩ := m
  obtain ⟨key', d⟩ := m'
  obtain ⟨rfl, value⟩ : key = key' ∧ Written w d := h
  rw [writeMember, List.append_assoc] at lead
  have member := SpellsMembers.member lead (token_writeText key _) (spellsChars_flatMap key.toList _)
    (token_cons ':' _) (value rest) tail
  rwa [String.ofList_toList] at member

theorem spellsMembers_flatMap {ws : List (String × List Char)} {ms : List (String × Document)}
    (h : List.Forall₂ WrittenMember ws ms) (rest : List Char) :
    SpellsMembers false ((ws.map fun (key, value) => writeMember key value).flatMap (',' :: ·) ++
      '\x7d' :: rest) ms rest := by
  induction h with
  | nil => exact .close (token_cons _ _)
  | cons first _ ih =>
    rw [List.map_cons, List.flatMap_cons, List.append_assoc]
    refine first.spells ?_ ih
    exact token_cons _ _

theorem written_object {ws : List (String × List Char)} {ms : List (String × Document)}
    (h : List.Forall₂ WrittenMember ws ms) : Written (writeObject ws) (.object ms) := by
  intro rest
  rw [writeObject, List.cons_append, List.cons_append, List.append_assoc]
  refine .object (token_cons _ _) ?_
  cases h with
  | nil => exact .close (token_cons _ _)
  | cons first others =>
    rw [List.map_cons, intercalate_cons, List.append_assoc]
    refine first.spells ?_ (spellsMembers_flatMap others rest)
    exact rfl

end TableQuery.Json
