import TableQuery.Command.Line
import TableQuery.Command.Settings
import TableQuery.Query.Basic
import TableQuery.Table.Reader
import TableQuery.Table.Reference

/-! # What the commands do

Each command is a function from its input to an `Outcome`: the lines it prints, what it logs, and the
error it ends with, if any. Lines printed before an error stay printed. `perform` finds the input of a
command: it is the whole program but for the reading of its command line and the printing. -/

namespace TableQuery.Command

structure Outcome where
  lines : List String
  log : List Record
  failure : Option Error
deriving DecidableEq

namespace Outcome

def exitCode (o : Outcome) : Nat := if o.failure.isSome then 1 else 0

def output (o : Outcome) : String := String.join (o.lines.map (· ++ "\n"))

def records (o : Outcome) : List Record :=
  o.log ++ o.failure.toList.map fun e => ⟨.error, e.render⟩

/-- The lines of the log at a verbosity. -/
def logLines (o : Outcome) (v : Verbosity) : List String := (o.records.filter v.admits).map Record.render

def logged (r : Record) (o : Outcome) : Outcome := { o with log := r :: o.log }

def failed (e : Error) : Outcome := ⟨[], [], some e⟩

end Outcome

/-- Whether a file argument stands for the standard input: the name `-`, also with slashes and
single points after it. -/
def isStandardInput (file : String) : Bool :=
  match file.toList with
  | '-' :: cs => onlySelf cs
  | _ => false
where
  /-- Whether a path leads no further: it consists of slashes and of points between them. -/
  onlySelf : List Char → Bool
    | [] => true
    | '/' :: '.' :: cs => onlySelf cs
    | '/' :: cs => onlySelf cs
    | _ => false

/-- What a file argument stands for: the standard input or the file of that name. -/
def source {α : Type} (standardInput : α) (files : String → α) (file : String) : α :=
  if isStandardInput file then standardInput else files file

def describeSource (file : String) : String := source "standard input" id file

def readText (content : Except String ByteArray) : Except Error String :=
  match content with
  | .error reason => .error ⟨.io reason, []⟩
  | .ok bytes =>
    match String.fromUTF8? bytes with
    | some text => .ok text
    | none => .error ⟨.io "stream did not contain valid UTF-8", []⟩

def declare (strict : Bool) (d : Definition) : Except Error Table :=
  if strict then inContext ("Table " ++ d.name ++ " rejected") (Table.ofValid d)
  else .ok (.ofDefinition d)

/-- Prints the statements of definitions in order, up to the first that is rejected. -/
def printStatements (strict : Bool) : List Definition → Outcome
  | [] => ⟨[], [], none⟩
  | d :: rest =>
    match declare strict d with
    | .error e => .failed e
    | .ok t =>
      let o := printStatements strict rest
      ⟨t.statement :: o.lines,
        ⟨.debug, "Declared table " ++ t.name ++ ": " ++ t.statement⟩ :: o.log, o.failure⟩

def readDefinitions (file : String) (content : Except String ByteArray) :
    Except Error (List Definition) := do
  let text ← inContext ("Failed to read table definitions from " ++ describeSource file) (readText content)
  inContext ("Failed to parse table definitions in " ++ file) <|
    match Definition.listOfJsonStart text with
    | .ok ds => .ok ds
    | .error c => .error ⟨.json c true, []⟩

def ddl (file : String) (content : Except String ByteArray) (strict : Bool) : Outcome :=
  match readDefinitions file content with
  | .error e => .failed e
  | .ok ds =>
    (printStatements strict ds).logged
      ⟨.info, "Read " ++ toString ds.length ++ " table definitions"⟩

/-- Arguments by name; of those with one name the last stays, in the place of the first. -/
def collect (arguments : List (String × Value)) : List (String × Value) :=
  arguments.foldl (fun kept (name, v) =>
    if kept.any (·.1 == name) then kept.map fun p => if p.1 == name then (name, v) else p
    else kept ++ [(name, v)]) []

/-- Prints the parameters of a query, after checking arguments if any are given. -/
def params (text : String) (arguments : List (String × Value)) : Outcome :=
  match Query.ofText text with
  | .error e => .failed e
  | .ok q =>
    Outcome.logged ⟨.debug, q.describeParameters⟩ <|
      if arguments.isEmpty then ⟨q.parameters.toList, [], none⟩
      else
        match q.checkArguments (collect arguments) with
        | .error e => .failed e
        | .ok () =>
          ⟨q.parameters.toList,
            [⟨.info, "Arguments match all " ++ toString q.parameters.size ++ " parameters"⟩], none⟩

/-- Carries out a request. The arguments are how to read the standard input, a file, and a setting of the
environment; of the first two only the one that the request names is read. Tables are checked if the flag
or the environment asks for it. -/
def perform {m : Type → Type} [Monad m] (standardInput : m (Except String ByteArray))
    (files : String → m (Except String ByteArray)) (environment : String → m (Option ByteArray)) :
    Request → m Outcome
  | .params query arguments => return params query arguments
  | .ddl file flag => do
    let setting ← environment strictVariable
    let content ← source standardInput files file
    return ddl file content (flag || strictSetting setting)

/-- What a request leads to when this is what is read. -/
def outcome (standardInput : Except String ByteArray) (files : String → Except String ByteArray)
    (environment : String → Option ByteArray) (r : Request) : Outcome :=
  Id.run (perform standardInput files environment r)

end TableQuery.Command
