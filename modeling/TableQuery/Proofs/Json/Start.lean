import TableQuery.Json.Shape
import TableQuery.Proofs.Json.Enclosed

/-! # What a text starts with

A text is read as a whole or only its first value is (`readWhole`, `readFirst`). The two differ in
what may follow the value. Where a value ends in a closing bracket the text up to there is a text of
the value itself (`ClosedBy.readFirst_eq_ok_iff`). -/

namespace TableQuery.Json

open Remainder (hold)

variable {α : Type} {text front : String} {read : Reader α} {a : α} {c : Char}

theorem local_return (a : α) : Local fun cs => (return (a, cs) : Except Fault (α × List Char)) :=
  local_ok (ρ := α × List Char) (a, ())

theorem local_refuse (wanted : String) (c : Char) : Local (refuse wanted c : Reader α) := by
  intro cs r eq
  unfold refuse at eq
  split at eq <;> cases eq

theorem bounded_readText : Bounded readText :=
  bounded_startingAt fun c => .ite (fun _ => closedBy_readString.near) fun _ => local_refuse _ c

theorem bounded_readBoolean : Bounded readBoolean :=
  bounded_startingAt fun c => .ite (fun _ => (local_readWord _).bind fun _ => local_return true) fun _ =>
    .ite (fun _ => (local_readWord _).bind fun _ => local_return false) fun _ => local_refuse _ c

theorem bounded_readList (h : Bounded read) : Bounded (readList read) :=
  bounded_startingAt fun c => .ite (fun _ => (closedBy_elements h).near) fun _ => local_refuse _ c

theorem bounded_readOptional (h : Bounded read) : Bounded (readOptional read) :=
  bounded_startingAt fun c =>
    .ite (fun _ => (local_readWord _).bind fun _ => local_return none) fun _ =>
      (h.at_cons c).bind fun (a, _) => local_return (some a)

theorem closedBy_readList (h : Bounded read) : ClosedBy ']' (readList read) := by
  intro cs r eq
  unfold readList startingAt at eq
  split at eq
  · cases eq
  rename_i c more start
  obtain ⟨blank, token⟩ := token_of_skipBlanks start
  dsimp only at eq
  split at eq
  · subst c
    obtain ⟨form, body, rest, rfl, rfl, other⟩ := closedBy_elements h eq
    obtain ⟨blanks, rfl, other'⟩ := token.exists_used
    refine ⟨form, blanks ++ '[' :: body, rest, rfl, by simp, fun rest' => ?_⟩
    have start' : skipBlanks (blanks ++ '[' :: body ++ ']' :: rest') = '[' :: (body ++ ']' :: rest') := by
      simpa using (other' (body ++ ']' :: rest')).skipBlanks_eq blank
    simpa only [readList, startingAt, start', ↓reduceIte] using other rest'
  · obtain ⟨f, refused⟩ := exists_refuse "a sequence" c more
    cases refused.symm.trans eq

instance : Remainder Places where
  Form := Bool
  hold closed rest := if closed then .closed rest else .inside rest
  hold_inj {closed closed'} _ _ eq := by
    cases closed <;> cases closed' <;> cases eq <;> exact ⟨rfl, rfl⟩

theorem local_placeAt (h : Local read) (index : Nat) :
    (closed : Bool) → Local fun cs => placeAt index read (hold (ρ := Places) closed cs)
  | true => local_ok (ρ := Option α × Places) (none, true)
  | false => (local_nextElement _).bind fun closed => by
    cases closed with
    | true => exact local_ok (ρ := Option α × Places) (none, true)
    | false => exact (h.within _).bind fun (a, _) => local_ok (ρ := Option α × Places) (some a, false)

theorem local_close : (closed : Bool) → Local fun cs => (hold (ρ := Places) closed cs).close
  | true => local_ok ()
  | false => local_first _ fun _ => .ite (fun _ => local_ok ()) fun _ =>
    .ite (fun _ => local_first _ fun _ => local_error _) fun _ => local_error _

theorem steady_required (length : Nat) (wanted : String) (closed : Bool) (found : Option α) :
    Steady fun cs => required length wanted (hold (ρ := Places) closed cs) found := by
  intro cs cs' a eq
  exact required_eq_ok_iff.mpr (required_eq_ok_iff.mp eq)

/-- What stands before a message that tells the way to the fault. -/
def Complaint.way (c : Complaint) : String :=
  if c.path.all (· == .unread) then "" else describePath c.path ++ ": "

theorem Complaint.messageWithPath_eq (c : Complaint) : c.messageWithPath = c.way ++ c.message := by
  unfold messageWithPath way
  split
  · rw [String.empty_append]
  · rfl

theorem readFirst_eq_ok_iff : readFirst read text = .ok a ↔ ∃ rest, read text.toList = .ok (a, rest) := by
  unfold readFirst
  split
  · rename_i found
    simp [found]
  · rename_i found
    simp [found]

theorem ofTail_eq_none_iff {rest : List Char} :
    Fault.ofTail rest = none ↔ ∀ c ∈ rest, isBlank c = true := by
  refine ⟨fun h => ?_, ofTail_eq_none⟩
  have none_left : skipBlanks rest = [] := by
    unfold Fault.ofTail at h
    split at h
    · assumption
    · cases h
  have taken := List.takeWhile_append_dropWhile (p := isBlank) (l := rest)
  rw [← skipBlanks, none_left, List.append_nil] at taken
  rw [← taken]
  exact List.all_eq_true.mp List.all_takeWhile

theorem readWhole_eq_ok_iff :
    readWhole read text = .ok a ↔ ∃ rest, read text.toList = .ok (a, rest) ∧ ∀ c ∈ rest, isBlank c = true := by
  simp only [← ofTail_eq_none_iff]
  unfold readWhole
  split
  · rename_i found
    simp [found]
  · rename_i found
    simp only [found, Except.ok.injEq, Prod.mk.injEq]
    split
    · rename_i blank
      exact ⟨fun eq => ⟨_, ⟨Except.ok.inj eq, rfl⟩, blank⟩, fun ⟨_, ⟨eq, _⟩, _⟩ => congrArg _ eq⟩
    · rename_i tail
      refine ⟨nofun, ?_⟩
      rintro ⟨_, ⟨-, rfl⟩, blank⟩
      cases blank.symm.trans tail

theorem readFirst_of_readWhole (h : readWhole read text = .ok a) : readFirst read text = .ok a := by
  obtain ⟨rest, found, -⟩ := readWhole_eq_ok_iff.mp h
  exact readFirst_eq_ok_iff.mpr ⟨rest, found⟩

theorem readWhole_of_readFirst_error {complaint : Complaint} (h : readFirst read text = .error complaint) :
    readWhole read text = .error complaint := by
  unfold readFirst at h
  split at h
  · rename_i found
    simpa [readWhole, found] using h
  · cases h

theorem exists_position_of_error {complaint : Complaint} (h : readFirst read text = .error complaint) :
    ∃ p : Position, complaint.message =
      complaint.cause.message ++ " at line " ++ toString p.line ++ " column " ++ toString p.column := by
  unfold readFirst at h
  split at h
  · rename_i f _
    cases h
    exact ⟨f.position text.toList, by simp [Complaint.message, Fault.complaint, String.append_assoc]⟩
  · cases h

/-- What is read as a start alone is refused for what follows it. -/
theorem cause_of_readWhole_error {complaint : Complaint} (h : readWhole read text = .error complaint)
    (start : readFirst read text = .ok a) : complaint.cause = .trailingText := by
  obtain ⟨rest, found⟩ := readFirst_eq_ok_iff.mp start
  unfold readWhole at h
  rw [found] at h
  dsimp only at h
  split at h
  · cases h
  · rename_i f tail
    cases h
    unfold Fault.ofTail at tail
    split at tail
    · cases tail
    · cases tail
      rfl

/-! ### The text up to a closing bracket -/

/-- A text that is a value as a whole and ends in its closing bracket is all that is read where it is
a start. -/
theorem ClosedBy.read_append (h : ClosedBy c read) (blank : isBlank c = false)
    (whole : readWhole read (front.push c) = .ok a) (rest : String) :
    read (front.push c ++ rest).toList = .ok (a, rest.toList) := by
  obtain ⟨tail, found, allBlank⟩ := readWhole_eq_ok_iff.mp whole
  obtain ⟨form, body, tail', held, split, other⟩ := h found
  obtain ⟨rfl, rfl⟩ := Prod.mk.inj held
  -- the last character of the text is no blank, so nothing is left
  have nothing : tail = [] := by
    cases last : tail.getLast? with
    | none => exact List.getLast?_eq_none_iff.mp last
    | some d =>
      have ends : (body ++ c :: tail).getLast? = some c := by rw [← split, String.toList_push, List.getLast?_concat]
      have same : d = c := by simpa [List.getLast?_append, List.getLast?_cons, last] using ends
      have := allBlank d (List.mem_of_getLast? last)
      simp [same, blank] at this
  subst nothing
  have eq : front.toList = body := by simpa using split
  have read' : read (body ++ c :: rest.toList) = .ok (form.1, rest.toList) := other rest.toList
  simpa [eq] using read'

theorem ClosedBy.readFirst_eq_ok_iff (h : ClosedBy c read) (blank : isBlank c = false) :
    readFirst read text = .ok a ↔
      ∃ front rest : String, text = front.push c ++ rest ∧ readWhole read (front.push c) = .ok a := by
  constructor
  · intro start
    obtain ⟨tail, found⟩ := Json.readFirst_eq_ok_iff.mp start
    obtain ⟨form, body, rest, held, split, other⟩ := h found
    obtain ⟨rfl, rfl⟩ := Prod.mk.inj held
    refine ⟨String.ofList body, String.ofList tail, ?_, ?_⟩
    · rw [← String.toList_inj]
      simpa using split
    · have found' : read (body ++ [c]) = .ok (form.1, []) := other []
      exact readWhole_eq_ok_iff.mpr ⟨[], by simpa using found', by simp⟩
  · rintro ⟨front, rest, rfl, whole⟩
    exact Json.readFirst_eq_ok_iff.mpr ⟨rest.toList, h.read_append blank whole rest⟩

end TableQuery.Json
