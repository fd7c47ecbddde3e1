import TableQuery.Text

/-! # Settings from the environment

One setting asks for strict checks of tables, the other says how much is logged. -/

namespace TableQuery.Command

def strictVariable : String := "TABLESQL_STRICT"

/-- ASCII letters in lower case, other characters as they are. -/
def asciiLower (c : Char) : Char := if 'A' ≤ c && c ≤ 'Z' then Char.ofNat (c.toNat + 32) else c

/-- Whether a setting counts as on: anything but nothing, `0` or `false`, with blanks around it and
in any ASCII case. -/
def isOn (text : String) : Bool :=
  let cs := Text.trim text.toList
  !(cs.isEmpty || cs == ['0'] || cs.map asciiLower == ['f', 'a', 'l', 's', 'e'])

/-- Whether the environment asks for strict checks. A value that is no text does not. -/
def strictSetting : Option ByteArray → Bool
  | none => false
  | some bytes =>
    match String.fromUTF8? bytes with
    | some text => isOn text
    | none => false

def logVariable : String := "RUST_LOG"

inductive Level where
  | error
  | warn
  | info
  | debug
  | trace
deriving DecidableEq, Repr

namespace Level

def rank : Level → Nat
  | .error => 1
  | .warn => 2
  | .info => 3
  | .debug => 4
  | .trace => 5

def describe : Level → String
  | .error => "ERROR"
  | .warn => "WARN"
  | .info => "INFO"
  | .debug => "DEBUG"
  | .trace => "TRACE"

end Level

structure Record where
  level : Level
  text : String
deriving DecidableEq, Repr

def Record.render (r : Record) : String := "[" ++ r.level.describe ++ "] - " ++ r.text

/-- The most verbose level that is logged, if any. -/
abbrev Verbosity := Option Level

/-- The verbosity that a setting asks for: informative without one, errors alone for an empty one;
a word that is no level logs nothing. -/
def Verbosity.ofSetting : Option String → Verbosity
  | none => some .info
  | some word =>
    match String.ofList (word.toList.map Char.toLower) with
    | "" => some .error
    | "error" => some .error
    | "warn" => some .warn
    | "info" => some .info
    | "debug" => some .debug
    | "trace" => some .trace
    | _ => none

def Verbosity.admits (v : Verbosity) (r : Record) : Bool :=
  match v with
  | none => false
  | some level => r.level.rank ≤ level.rank

end TableQuery.Command
