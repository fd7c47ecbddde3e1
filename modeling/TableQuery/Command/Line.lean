import TableQuery.Command.Similarity
import TableQuery.Query.Pair

/-! # The command line

The first word names a command; the words after it are the command's one operand, its flag or its
option with a value, in any order. After a lone `--` every word is an operand. A line that is no
request is refused with a reason. -/

namespace TableQuery.Command

inductive Request where
  | ddl (file : String) (strict : Bool)
  | params (query : String) (arguments : List (String × Value))
deriving DecidableEq, Repr

/-- Why a line is no request. Asking for help or the version is one of the reasons. -/
inductive Refusal where
  | help
  /-- The version, of a command if one was named before. -/
  | version (command : Option String)
  | missingCommand
  | similarCommand
  | unknownTopic
  | unknownWord
  | missingOperand
  | missingValue
  | malformedValue
  | repeatedFlag
deriving DecidableEq, Repr

/-- What the words of a command are taken for: the name of its flag and of its option. -/
structure Form where
  flag : Option String := none
  option : Option String := none

def ddlForm : Form := { flag := some "strict" }

def paramsForm : Form := { option := some "arg" }

/-- The words of a command taken so far. -/
structure Taken where
  operand : Option String := none
  flagCount : Nat := 0
  /-- The values of the option, last first. -/
  values : List String := []
  /-- Whether the option was named last and its value is due. -/
  awaiting : Bool := false
  /-- Whether a lone `--` came. -/
  literal : Bool := false

/-- The name in a word that starts with two hyphens, and the value after its first equals sign.
Hyphens in front of the name do not count, nor do equals signs in front of the value. -/
def splitLong (word : List Char) : String × Option String :=
  let cs := word.dropWhile (· == '-')
  let name := String.ofList (cs.takeWhile (· != '='))
  match cs.dropWhile (· != '=') with
  | _ :: value => (name, some (String.ofList (value.dropWhile (· == '='))))
  | [] => (name, none)

/-- What a word that starts with one hyphen asks for; its first letter decides. -/
def shortRefusal (command : Option String) (letters : List Char) : Refusal :=
  match letters with
  | 'h' :: _ => .help
  | 'V' :: _ => .version command
  | _ => .unknownWord

/-- What a word that starts with two hyphens asks for, when it names neither flag nor option. -/
def longRefusal (command : Option String) (name : String) : Refusal :=
  if name = "help" then .help else if name = "version" then .version command else .unknownWord

namespace Taken

def takeOperand (t : Taken) (word : String) : Except Refusal Taken :=
  match t.operand with
  | none => .ok { t with operand := some word }
  | some _ => .error .unknownWord

def takeLong (f : Form) (command : String) (t : Taken) (word : List Char) : Except Refusal Taken :=
  let (name, value) := splitLong word
  if f.flag = some name then .ok { t with flagCount := t.flagCount + 1, awaiting := false }
  else if f.option = some name then
    match value with
    | some v => .ok { t with values := v :: t.values, awaiting := false }
    | none => .ok { t with awaiting := true }
  else .error (longRefusal (some command) name)

def step (f : Form) (command : String) (t : Taken) (word : String) : Except Refusal Taken :=
  match word.toList with
  | ['-', '-'] => .ok { t with literal := true }
  | cs =>
    if t.literal then t.takeOperand word
    else
      match cs with
      | '-' :: '-' :: _ => t.takeLong f command cs
      | '-' :: c :: more => .error (shortRefusal (some command) (c :: more))
      | _ =>
        if t.awaiting then .ok { t with values := word :: t.values, awaiting := false }
        else t.takeOperand word

/-- What is still wrong at the end of the line, the operand given. An option without its value is
passed over if the option has a value from before. -/
def check (t : Taken) : Except Refusal Unit :=
  if t.awaiting && t.values.isEmpty then .error .missingValue
  else if 1 < t.flagCount then .error .repeatedFlag
  else .ok ()

def requireOperand (t : Taken) : Except Refusal String :=
  match t.operand with
  | some word => .ok word
  | none => .error .missingOperand

end Taken

def takeAll (f : Form) (command : String) (words : List String) : Except Refusal Taken :=
  words.foldlM (Taken.step f command) {}

def readArguments (values : List String) : Except Refusal (List (String × Value)) :=
  values.mapM fun v =>
    match Pair.readArgument v with
    | .ok p => .ok p
    | .error _ => .error .malformedValue

def readDdl (words : List String) : Except Refusal Request := do
  let t ← takeAll ddlForm "ddl" words
  let file ← t.requireOperand
  t.check
  return .ddl file (t.flagCount != 0)

def readParams (words : List String) : Except Refusal Request := do
  let t ← takeAll paramsForm "params" words
  let query ← t.requireOperand
  t.check
  return .params query (← readArguments t.values.reverse)

def commandNames : List String := ["ddl", "params", "help"]

def helpRefusal : List String → Refusal
  | [] => .help
  | [topic] => if commandNames.contains topic then .help else .unknownTopic
  | _ => .unknownTopic

/-- What a word in the place of the command asks for when it is none; after a lone `--` none is
looked for. -/
def strayRefusal (word : String) : Refusal :=
  if commandNames.any (areSimilar word) then .similarCommand else .unknownWord

/-- Reads a line; `literal` says whether a lone `--` came before. -/
def readLineFrom : Bool → List String → Except Refusal Request
  | _, [] => .error .missingCommand
  | literal, word :: rest =>
    match word.toList with
    | ['-', '-'] => readLineFrom true rest
    | cs =>
      if literal then .error (strayRefusal word)
      else if word = "ddl" then readDdl rest
      else if word = "params" then readParams rest
      else if word = "help" then .error (helpRefusal rest)
      else
        match cs with
        | '-' :: '-' :: _ => .error (longRefusal none (splitLong cs).1)
        | '-' :: c :: more => .error (shortRefusal none (c :: more))
        | _ => .error (strayRefusal word)

def readLine (words : List String) : Except Refusal Request := readLineFrom false words

def versionLine (command : Option String) : String :=
  match command with
  | none => "tablesql 0.1.0"
  | some c => "tablesql-" ++ c ++ " 0.1.0"

end TableQuery.Command
