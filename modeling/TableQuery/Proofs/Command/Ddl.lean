import TableQuery.Command.Run
import TableQuery.Proofs.Command.Settings
import TableQuery.Proofs.Table.Kept

/-! # Printing the statements of the tables of a file

Definitions that are not rejected are printed whatever comes after them, so the lines before a
rejected one stay: `printStatements_append` says what a run over the definitions in front adds to
the run over the others. `ddl_prints_statements` is about the whole request, from what is on the standard
input, in the files and in the environment. -/

namespace TableQuery.Command

/-- The statements of definitions, each with a line feed. -/
def statementLines (ds : List Definition) : String := String.join (ds.map (·.statement ++ "\n"))

/-- What is seen of an outcome from outside, the log apart: the printed text and the exit code. -/
def Outcome.shown (o : Outcome) : String × Nat := (o.output, o.exitCode)

def rejection (d : Definition) (e : Error) : Error :=
  e.inContext ("Table " ++ d.name ++ " rejected")

/-- A definition is not rejected: it is valid, or that is not asked for. -/
def Admitted (strict : Bool) (d : Definition) : Prop := strict = true → d.validate = .ok ()

variable {strict : Bool} {d : Definition} {e : Error}

@[simp] theorem Outcome.output_logged (r : Record) (o : Outcome) : (o.logged r).output = o.output := rfl

@[simp] theorem Outcome.failure_logged (r : Record) (o : Outcome) : (o.logged r).failure = o.failure := rfl

theorem declare_of_admitted (h : Admitted strict d) : declare strict d = .ok (.ofDefinition d) := by
  cases strict with
  | false => rfl
  | true =>
    have built : Table.ofValid d = .ok (.ofDefinition d) := Table.ofValid_eq_ok_iff.mpr ⟨h rfl, rfl⟩
    rw [declare, if_pos rfl, built]
    rfl

theorem declare_of_error (h : d.validate = .error e) : declare true d = .error (rejection d e) := by
  have refused : Table.ofValid d = .error e := by
    rw [Table.ofValid, h]
    rfl
  rw [declare, if_pos rfl, refused]
  rfl

theorem render_rejection (d : Definition) (e : Error) : (rejection d e).render =
    "Error (" ++ e.kind.describe ++ "), " ++ e.message ++ ", Table " ++ d.name ++ " rejected" := by
  have opening : ", Table " = ", " ++ "Table " := rfl
  rw [Error.render, rejection, Error.kind_inContext, Error.message_inContext, opening]
  simp only [String.append_assoc]

theorem output_printStatements_cons (h : Admitted strict d) (rest : List Definition) :
    (printStatements strict (d :: rest)).output =
      d.statement ++ "\n" ++ (printStatements strict rest).output := by
  rw [printStatements, declare_of_admitted h]
  simp [Outcome.output, Table.ofDefinition]

theorem failure_printStatements_cons (h : Admitted strict d) (rest : List Definition) :
    (printStatements strict (d :: rest)).failure = (printStatements strict rest).failure := by
  rw [printStatements, declare_of_admitted h]

theorem printStatements_append {before : List Definition} (h : ∀ d ∈ before, Admitted strict d)
    (rest : List Definition) :
    (printStatements strict (before ++ rest)).output =
        statementLines before ++ (printStatements strict rest).output ∧
      (printStatements strict (before ++ rest)).failure = (printStatements strict rest).failure := by
  induction before with
  | nil => simp [statementLines]
  | cons d before ih =>
    obtain ⟨first, others⟩ := List.forall_mem_cons.mp h
    obtain ⟨output, failure⟩ := ih others
    constructor
    · rw [List.cons_append, output_printStatements_cons first, output]
      simp [statementLines, String.append_assoc]
    · rw [List.cons_append, failure_printStatements_cons first, failure]

theorem printStatements_of_admitted {ds : List Definition} (h : ∀ d ∈ ds, Admitted strict d) :
    (printStatements strict ds).output = statementLines ds ∧
      (printStatements strict ds).failure = none := by
  obtain ⟨output, failure⟩ := printStatements_append h []
  rw [List.append_nil] at output failure
  rw [output, failure]
  simp [printStatements, Outcome.output]

theorem printStatements_of_error {before : List Definition}
    (valid : ∀ d ∈ before, d.validate = .ok ()) (h : d.validate = .error e) (after : List Definition) :
    (printStatements true (before ++ d :: after)).output = statementLines before ∧
      (printStatements true (before ++ d :: after)).failure = some (rejection d e) := by
  obtain ⟨output, failure⟩ := printStatements_append (fun b hb _ => valid b hb) (d :: after)
  rw [output, failure, printStatements, declare_of_error h]
  simp [Outcome.output, Outcome.failed]

theorem quiet_printStatements (strict : Bool) (ds : List Definition) :
    ∀ r ∈ (printStatements strict ds).log, r.level ≠ .error := by
  induction ds with
  | nil => simp [printStatements]
  | cons d rest ih =>
    rw [printStatements]
    cases declare strict d with
    | error e => simp [Outcome.failed]
    | ok t => simpa using ih

theorem Outcome.errors_eq {o : Outcome} (quiet : ∀ r ∈ o.log, r.level ≠ .error)
    (h : o.failure = some e) : o.records.filter (·.level = .error) = [⟨.error, e.render⟩] := by
  have none_before : o.log.filter (·.level = .error) = [] := by
    simpa [List.filter_eq_nil_iff] using quiet
  rw [records, h, List.filter_append, none_before]
  rfl

theorem readDefinitions_toUTF8 (file text : String) :
    readDefinitions file (.ok text.toUTF8) =
      inContext ("Failed to parse table definitions in " ++ file)
        (match Definition.listOfJsonStart text with
          | .ok ds => .ok ds
          | .error c => .error ⟨.json c true, []⟩) := by
  have read : readText (.ok text.toUTF8) = .ok text := by
    rw [readText, fromUTF8?_toUTF8]
  rw [readDefinitions, read]
  rfl

section
variable (file : String) {text : String}

theorem shown_ddl_of_unread {c : Json.Complaint} (h : Definition.listOfJsonStart text = .error c) :
    (ddl file (.ok text.toUTF8) strict).shown = ("", 1) := by
  rw [ddl, readDefinitions_toUTF8, h]
  rfl

theorem ddl_of_read {ds : List Definition} (h : Definition.listOfJsonStart text = .ok ds) :
    ddl file (.ok text.toUTF8) strict =
      (printStatements strict ds).logged ⟨.info, "Read " ++ toString ds.length ++ " table definitions"⟩ := by
  rw [ddl, readDefinitions_toUTF8, h]
  rfl

theorem shown_ddl_eq (file' text : String) (strict : Bool) :
    (ddl file (.ok text.toUTF8) strict).shown = (ddl file' (.ok text.toUTF8) strict).shown := by
  cases h : Definition.listOfJsonStart text with
  | error c => rw [shown_ddl_of_unread file h, shown_ddl_of_unread file' h]
  | ok ds => rw [ddl_of_read file h, ddl_of_read file' h]

theorem shown_ddl_of_admitted {ds : List Definition} (h : Definition.listOfJsonStart text = .ok ds)
    (admitted : ∀ d ∈ ds, Admitted strict d) :
    (ddl file (.ok text.toUTF8) strict).shown = (statementLines ds, 0) := by
  obtain ⟨output, failure⟩ := printStatements_of_admitted admitted
  rw [ddl_of_read file h, Outcome.shown, Outcome.output_logged, Outcome.exitCode, Outcome.failure_logged, output,
    failure]
  rfl

theorem ddl_of_error {before after : List Definition}
    (h : Definition.listOfJsonStart text = .ok (before ++ d :: after))
    (valid : ∀ b ∈ before, b.validate = .ok ()) (invalid : d.validate = .error e) :
    (ddl file (.ok text.toUTF8) true).shown = (statementLines before, 1) ∧
      (ddl file (.ok text.toUTF8) true).records.filter (·.level = .error) =
        [⟨.error, (rejection d e).render⟩] := by
  obtain ⟨output, failure⟩ := printStatements_of_error valid invalid after
  rw [ddl_of_read file h]
  constructor
  · rw [Outcome.shown, Outcome.output_logged, Outcome.exitCode, Outcome.failure_logged, output, failure]
    rfl
  · -- before the error only the count and the declared tables are logged
    refine Outcome.errors_eq ?_ failure
    intro r hr
    rcases List.mem_cons.mp hr with rfl | hr
    · simp
    · exact quiet_printStatements _ _ r hr

end

/-! ### The source and the checks -/

/-- The name `-`, also with slashes after it that have nothing or a single point between them. -/
def NamesStandardInput (file : String) : Prop :=
  ∃ parts : List (List Char), (∀ part ∈ parts, part = [] ∨ part = ['.']) ∧
    file.toList = '-' :: parts.flatMap ('/' :: ·)

theorem onlySelf_eq_true_iff {cs : List Char} : isStandardInput.onlySelf cs = true ↔
    ∃ parts : List (List Char), (∀ part ∈ parts, part = [] ∨ part = ['.']) ∧ cs = parts.flatMap ('/' :: ·) := by
  constructor
  · intro h
    fun_induction isStandardInput.onlySelf cs with
    | case1 => exact ⟨[], by simp, rfl⟩
    | case2 cs ih =>
      obtain ⟨parts, each, rfl⟩ := ih h
      exact ⟨['.'] :: parts, by simpa using each, rfl⟩
    | case3 cs _ ih =>
      obtain ⟨parts, each, rfl⟩ := ih h
      exact ⟨[] :: parts, by simpa using each, rfl⟩
    | case4 => cases h
  · rintro ⟨parts, each, rfl⟩
    induction parts with
    | nil => rfl
    | cons part parts ih =>
      obtain ⟨first, others⟩ := List.forall_mem_cons.mp each
      rcases first with rfl | rfl
      · -- the slash is followed by another one or by nothing, so by no point
        cases parts with
        | nil => rfl
        | cons part' parts => exact ih others
      · exact ih others

theorem isStandardInput_eq_true_iff {file : String} : isStandardInput file = true ↔ NamesStandardInput file := by
  unfold isStandardInput NamesStandardInput
  split
  · rename_i cs eq
    simp only [onlySelf_eq_true_iff, eq, List.cons.injEq, true_and]
  · rename_i other
    simp only [Bool.false_eq_true, false_iff, not_exists, not_and]
    exact fun parts _ eq => other _ eq

/-- The text is read if `file` is the argument: from the standard input if that is what it names, and
otherwise from the file. -/
def Supplies (standardInput : Except String ByteArray) (files : String → Except String ByteArray)
    (file text : String) : Prop :=
  NamesStandardInput file ∧ standardInput = .ok text.toUTF8 ∨
    ¬NamesStandardInput file ∧ files file = .ok text.toUTF8

/-- Tables are to be checked: the flag is given, or a setting that does not spell off. -/
def AsksStrict (environment : String → Option ByteArray) (flag : Bool) : Prop :=
  flag = true ∨ ∃ value : String, environment "TABLESQL_STRICT" = some value.toUTF8 ∧ ¬SpellsOff value

section
variable {standardInput : Except String ByteArray} {files : String → Except String ByteArray}
  {environment : String → Option ByteArray} {file text : String} {flag : Bool}

theorem source_of_supplies (h : Supplies standardInput files file text) :
    source standardInput files file = .ok text.toUTF8 := by
  rcases h with ⟨named, content⟩ | ⟨other, content⟩
  · rw [source, if_pos (isStandardInput_eq_true_iff.mpr named), content]
  · rw [source, if_neg (mt isStandardInput_eq_true_iff.mp other), content]

theorem asksStrict_iff :
    AsksStrict environment flag ↔ (flag || strictSetting (environment strictVariable)) = true := by
  rw [Bool.or_eq_true, strictSetting_eq_true_iff]
  simp only [AsksStrict, ← isOn_eq_false_iff, Bool.not_eq_false]
  rfl

/-- In any monad that does no more than give these answers, a request leads to the same. -/
theorem perform_pure {m : Type → Type} [Monad m] [LawfulMonad m] (r : Request) :
    perform (m := m) (pure standardInput) (pure ∘ files) (pure ∘ environment) r =
      pure (outcome standardInput files environment r) := by
  cases r with
  | params query arguments => rfl
  | ddl file flag =>
    have content : source (pure standardInput) (pure ∘ files) file =
        (pure (source standardInput files file) : m _) := by
      unfold source
      split <;> rfl
    simp only [perform, Function.comp_apply, content, pure_bind]
    rfl

/-- The request comes to the command with the text that is supplied. -/
theorem outcome_ddl (h : Supplies standardInput files file text) :
    outcome standardInput files environment (.ddl file flag) =
      ddl file (.ok text.toUTF8) (flag || strictSetting (environment strictVariable)) := by
  rw [← source_of_supplies h]
  rfl

end

/-- What a request for the statements of a text prints, whether the text is on the standard input or in a
file, its exit code, and the error that a rejected definition ends it with. -/
theorem ddl_prints_statements {standardInput : Except String ByteArray}
    {files : String → Except String ByteArray} {file text : String}
    (supplied : Supplies standardInput files file text) (environment : String → Option ByteArray)
    (flag : Bool) :
    let run := outcome standardInput files environment (.ddl file flag)
    (∀ standardInput' files' file', Supplies standardInput' files' file' text →
      (outcome standardInput' files' environment (.ddl file' flag)).shown = run.shown) ∧
    match Definition.listOfJsonStart text with
    | .error _ => run.shown = ("", 1)
    | .ok ds =>
      (¬AsksStrict environment flag → run.shown = (statementLines ds, 0)) ∧
      (AsksStrict environment flag → (∀ d ∈ ds, d.validate = .ok ()) →
        run.shown = (statementLines ds, 0) ∧
        run.shown = (outcome standardInput files (fun _ => none) (.ddl file false)).shown) ∧
      (AsksStrict environment flag → ∀ before d after e, ds = before ++ d :: after →
        (∀ b ∈ before, b.validate = .ok ()) → d.validate = .error e →
          run.shown = (statementLines before, 1) ∧
          run.records.filter (·.level = .error) = [⟨.error,
            "Error (" ++ e.kind.describe ++ "), " ++ e.message ++ ", Table " ++ d.name ++ " rejected"⟩]) := by
  intro run
  have read : run = ddl file (.ok text.toUTF8) (flag || strictSetting (environment strictVariable)) :=
    outcome_ddl supplied
  rw [read, asksStrict_iff, outcome_ddl supplied]
  refine ⟨fun standardInput' files' file' supplied' => ?_, ?_⟩
  · rw [outcome_ddl supplied']
    exact shown_ddl_eq file' file text _
  generalize (flag || strictSetting (environment strictVariable)) = strict
  split
  · rename_i h
    exact shown_ddl_of_unread file h
  · rename_i ds h
    refine ⟨fun off => ?_, fun _ valid => ?_, ?_⟩
    · exact shown_ddl_of_admitted file h fun d _ on => absurd on off
    · have printed : (ddl file (.ok text.toUTF8) strict).shown = (statementLines ds, 0) :=
        shown_ddl_of_admitted file h fun d hd _ => valid d hd
      have permissive : (ddl file (.ok text.toUTF8) false).shown = (statementLines ds, 0) :=
        shown_ddl_of_admitted file h fun _ _ on => nomatch on
      exact ⟨printed, printed.trans permissive.symm⟩
    · rintro rfl before d after e rfl valid invalid
      obtain ⟨shown, logged⟩ := ddl_of_error file h valid invalid
      exact ⟨shown, by rw [logged, render_rejection]⟩

/-- Of two tables on the standard input the second is rejected, since the environment asks for it. -/
theorem ddl_rejects_digit :
    let text := "[[\"a\",\x7b\x7d],[\"1\",\x7b\x7d]]"
    let environment (name : String) : Option ByteArray := if name = "TABLESQL_STRICT" then some "yes".toUTF8 else none
    let run := outcome (.ok text.toUTF8) (fun _ => .error "") environment (.ddl "-/" false)
    Supplies (.ok text.toUTF8) (fun _ => .error "") "-/" text ∧ AsksStrict environment false ∧
      run.shown = ("CREATE TABLE IF NOT EXISTS a ()\n", 1) ∧
      run.records.filter (·.level = .error) = [⟨.error,
        "Error (invalid identifier), Table 1 is invalid, Identifier \"1\" does not satisfy the format " ++
          "^[_a-zA-Z][_a-zA-Z0-9]*$, Table 1 rejected"⟩] := by
  intro text environment run
  have supplied : Supplies (.ok text.toUTF8) (fun _ => .error "") "-/" text :=
    .inl ⟨⟨[[]], by simp, rfl⟩, rfl⟩
  have on : AsksStrict environment false := asksStrict_iff.mpr (by decide +kernel)
  have read : (Definition.listOfJsonStart text).toOption =
      some [⟨"a", [], none, [], false⟩, ⟨"1", [], none, [], false⟩] := by decide +kernel
  have valid : ∀ d ∈ [(⟨"a", [], none, [], false⟩ : Definition)], d.validate = .ok () := by
    intro d hd
    obtain rfl := List.mem_singleton.mp hd
    rfl
  have printed := (ddl_prints_statements supplied environment false).2
  cases found : Definition.listOfJsonStart text with
  | error c =>
    rw [found] at read
    cases read
  | ok ds =>
    rw [found] at read printed
    obtain rfl := Option.some.inj read
    obtain ⟨shown, logged⟩ := printed.2.2 on [⟨"a", [], none, [], false⟩] ⟨"1", [], none, [], false⟩ []
      ⟨.invalidIdentifier "1" (some .table), []⟩ rfl valid rfl
    exact ⟨supplied, on, shown, logged.trans (by decide +kernel)⟩

end TableQuery.Command
