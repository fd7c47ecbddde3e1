import TableQuery.Proofs.Command.Ddl
import TableQuery.Proofs.Table.Start

/-! # A file of definitions and what follows them

The command reads the array that its file starts with, and the library's reader the whole text. -/

namespace TableQuery.Command

open Json (isBlank Position)

theorem readDefinitions_eq_ok_iff {file text : String} {ds : List Definition} :
    readDefinitions file (.ok text.toUTF8) = .ok ds ↔ Definition.listOfJsonStart text = .ok ds := by
  rw [readDefinitions_toUTF8]
  cases Definition.listOfJsonStart text <;> simp [inContext]

theorem message_json (c : Json.Complaint) :
    Error.message ⟨.json c false, []⟩ = "JSON formatting error " ++ c.message := String.append_empty

theorem message_located_json (c : Json.Complaint) :
    Error.message ⟨.json c true, []⟩ = "JSON deserialization error " ++ c.way ++ c.message := by
  have path : Error.message ⟨.json c true, []⟩ = "JSON deserialization error " ++ c.messageWithPath :=
    String.append_empty
  rw [path, c.messageWithPath_eq, String.append_assoc]

/-- The two readers agree but for what follows the array: the command's accepts a text if and only if
the library's accepts the text up to the closing bracket, and an error of the command's is one of the
library's, of the same kind, with the same cause at the same place. -/
theorem readDefinitions_agrees (file text : String) :
    (∀ ds, readDefinitions file (.ok text.toUTF8) = .ok ds ↔
      ∃ array rest, text = array ++ "]" ++ rest ∧ Definition.listOfJson (array ++ "]") = .ok ds) ∧
    (∀ ds array rest, text = array ++ "]" ++ rest → Definition.listOfJson (array ++ "]") = .ok ds →
      Definition.readAll text.toList = .ok (ds, rest.toList)) ∧
    (∀ ds, Definition.listOfJson text = .ok ds → readDefinitions file (.ok text.toUTF8) = .ok ds) ∧
    (∀ ds c, readDefinitions file (.ok text.toUTF8) = .ok ds → Definition.listOfJson text = .error c →
      c.cause.message = "trailing characters") ∧
    ∀ e, readDefinitions file (.ok text.toUTF8) = .error e →
      ∃ (c : Json.Complaint) (p : Position) (told : String), Definition.listOfJson text = .error c ∧
        told = c.cause.message ++ " at line " ++ toString p.line ++ " column " ++ toString p.column ∧
        let located : Error := ⟨.json c true, []⟩
        let library : Error := ⟨.json c false, []⟩
        e = located.inContext ("Failed to parse table definitions in " ++ file) ∧
        located.kind = .json ∧ library.kind = .json ∧
        library.message = "JSON formatting error " ++ told ∧
        located.message = "JSON deserialization error " ++ c.way ++ told := by
  refine ⟨fun ds => ?_, ?_, fun ds whole => ?_, fun ds c read refused => ?_, fun e read => ?_⟩
  · rw [readDefinitions_eq_ok_iff]
    exact Definition.listOfJsonStart_eq_ok_iff
  · rintro ds array rest rfl whole
    exact Definition.readAll_append whole rest
  · exact readDefinitions_eq_ok_iff.mpr (Json.readFirst_of_readWhole whole)
  · have start := readDefinitions_eq_ok_iff.mp read
    have cause : c.cause = .trailingText := Json.cause_of_readWhole_error refused start
    rw [cause]
    rfl
  · cases start : Definition.listOfJsonStart text with
    | ok ds => cases (readDefinitions_eq_ok_iff.mpr start).symm.trans read
    | error c =>
      obtain ⟨p, told⟩ := Json.exists_position_of_error start
      rw [readDefinitions_toUTF8, start] at read
      exact ⟨c, p, c.message, Json.readWhole_of_readFirst_error start, told, (Except.error.inj read).symm, rfl,
        rfl, message_json c, message_located_json c⟩

variable {file text array rest : String} {strict : Bool} {ds : List Definition}

/-- Definitions that are all printed: an error would stop the command. -/
theorem admitted_of_printStatements (h : (printStatements strict ds).failure = none) :
    ∀ d ∈ ds, Admitted strict d := by
  induction ds with
  | nil => simp
  | cons d ds ih =>
    have admitted : Admitted strict d := by
      rintro rfl
      cases valid : d.validate with
      | ok u => rfl
      | error e =>
        rw [printStatements, declare_of_error valid] at h
        cases h
    rw [failure_printStatements_cons admitted] at h
    exact List.forall_mem_cons.mpr ⟨admitted, ih h⟩

theorem exitCode_ddl_eq_zero_iff :
    (ddl file (.ok text.toUTF8) strict).exitCode = 0 ↔
      ∃ ds, Definition.listOfJsonStart text = .ok ds ∧ ∀ d ∈ ds, Admitted strict d := by
  cases start : Definition.listOfJsonStart text with
  | error c =>
    have failed : (ddl file (.ok text.toUTF8) strict).exitCode = 1 := congrArg Prod.snd (shown_ddl_of_unread file start)
    rw [failed]
    exact ⟨nofun, fun ⟨_, read, _⟩ => nomatch read⟩
  | ok ds =>
    constructor
    · intro exits
      rw [ddl_of_read file start, Outcome.exitCode, Outcome.failure_logged] at exits
      refine ⟨ds, rfl, admitted_of_printStatements ?_⟩
      cases failure : (printStatements strict ds).failure with
      | none => rfl
      | some e => simp [failure] at exits
    · rintro ⟨ds', read, admitted⟩
      obtain rfl := Except.ok.inj read
      exact congrArg Prod.snd (shown_ddl_of_admitted file start admitted)

/-- The command succeeds on a text that starts with an array of definitions none of which it rejects.
It prints the statements of that array, and the library's reader takes the whole text if and only if
blanks alone follow. -/
theorem ddl_succeeds_on_start (file text : String) (strict : Bool) :
    ((ddl file (.ok text.toUTF8) strict).exitCode = 0 ↔
      ∃ array rest ds, text = array ++ "]" ++ rest ∧ Definition.listOfJson (array ++ "]") = .ok ds ∧
        ∀ d ∈ ds, Admitted strict d) ∧
    ∀ array rest ds, text = array ++ "]" ++ rest → Definition.listOfJson (array ++ "]") = .ok ds →
      (∀ d ∈ ds, Admitted strict d) →
        (ddl file (.ok text.toUTF8) strict).output = statementLines ds ∧
        ((∃ ds', Definition.listOfJson text = .ok ds') ↔ ∀ c ∈ rest.toList, isBlank c = true) := by
  refine ⟨?_, ?_⟩
  · rw [exitCode_ddl_eq_zero_iff]
    simp only [Definition.listOfJsonStart_eq_ok_iff]
    exact ⟨fun ⟨ds, ⟨array, rest, split, whole⟩, admitted⟩ => ⟨array, rest, ds, split, whole, admitted⟩,
      fun ⟨array, rest, ds, split, whole, admitted⟩ => ⟨ds, ⟨array, rest, split, whole⟩, admitted⟩⟩
  · rintro array rest ds rfl whole admitted
    have start := Definition.listOfJsonStart_eq_ok_iff.mpr ⟨array, rest, rfl, whole⟩
    have read := Definition.readAll_append whole rest
    refine ⟨congrArg Prod.fst (shown_ddl_of_admitted file start admitted), ?_⟩
    constructor
    · rintro ⟨ds', taken⟩
      obtain ⟨rest', read', blank⟩ := Json.readWhole_eq_ok_iff.mp taken
      cases read.symm.trans read'
      exact blank
    · intro blank
      exact ⟨ds, Json.readWhole_eq_ok_iff.mpr ⟨rest.toList, read, blank⟩⟩

/-- A second array is not looked at: the command succeeds on a text that the library's reader refuses,
and the table in it is not printed. -/
theorem ddl_ignores_second_array :
    let text := "[\x7b\"name\":\"a\",\"schema\":\x7b\x7d\x7d] [\x7b\"name\":\"b\",\"schema\":\x7b\x7d\x7d]"
    (ddl "-" (.ok text.toUTF8) false).shown = ("CREATE TABLE IF NOT EXISTS a ()\n", 0) ∧
      (Definition.listOfJson text).toOption = none := by
  intro text
  have read : (Definition.listOfJsonStart text).toOption = some [⟨"a", [], none, [], false⟩] := by decide +kernel
  have refused : (Definition.listOfJson text).toOption = none := by decide +kernel
  cases start : Definition.listOfJsonStart text with
  | error c =>
    rw [start] at read
    cases read
  | ok ds =>
    rw [start] at read
    obtain rfl := Option.some.inj read
    have admitted : ∀ d ∈ [(⟨"a", [], none, [], false⟩ : Definition)], Admitted false d := fun _ _ on => nomatch on
    exact ⟨(shown_ddl_of_admitted "-" start admitted).trans (by decide), refused⟩

end TableQuery.Command
