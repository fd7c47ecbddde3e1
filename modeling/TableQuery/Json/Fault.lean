import TableQuery.Decimal.Layout
import TableQuery.Text

/-! # What can be wrong with a JSON text

A reader that stops gives a `Fault`: the cause, the text that was left, and the way from the whole
value down to the part where it arose. The line and column follow from the whole text
(`Fault.position`), so readers need not count. -/

namespace TableQuery.Json

/-- How numbers are written in JSON: without an exponent from a hundred-thousandth up to ten
quadrillions. -/
def numberLayout : Decimal.Layout := ⟨-5, 16⟩

def realText (x : Binary64) : String := String.ofList (numberLayout.renderBinary64 x)

/-- A value found where one of another type is due. -/
inductive Found where
  | null
  | boolean (b : Bool)
  | integer (n : Int)
  | real (x : Binary64)
  | text (s : String)
  | array
  | object
deriving DecidableEq, Repr

def Found.describe : Found → String
  | .null => "null"
  | .boolean b => "boolean `" ++ (if b then "true" else "false") ++ "`"
  | .integer n => "integer `" ++ toString n ++ "`"
  | .real x => "floating point `" ++ realText x ++ "`"
  | .text s => "string " ++ Text.quoted s
  | .array => "sequence"
  | .object => "map"

/-- Why a text is refused. The first group is about JSON, the second about the shape of its value. -/
inductive Cause where
  | endInValue
  | endInList
  | endInObject
  | endInString
  | expectedValue
  | expectedWord
  | expectedColon
  | expectedCommaOrBracket
  | expectedCommaOrBrace
  | trailingComma
  | keyNotString
  | trailingText
  | invalidNumber
  | numberTooLarge
  | controlCharacter
  | invalidEscape
  | loneSurrogate
  | unpairedSurrogate
  | tooDeep
  | unexpectedType (found : Found) (wanted : String)
  | wrongLength (length : Nat) (wanted : String)
  | missingField (name : String)
  | repeatedField (name : String)
  | unknownField (name : String) (known : List String)
  | repeatedColumn (name : String)
  | noSuchValue
deriving DecidableEq, Repr

def alternatives (names : List String) : String :=
  String.intercalate ", " (names.map fun name => "`" ++ name ++ "`")

def Cause.message : Cause → String
  | .endInValue => "EOF while parsing a value"
  | .endInList => "EOF while parsing a list"
  | .endInObject => "EOF while parsing an object"
  | .endInString => "EOF while parsing a string"
  | .expectedValue => "expected value"
  | .expectedWord => "expected ident"
  | .expectedColon => "expected `:`"
  | .expectedCommaOrBracket => "expected `,` or `]`"
  | .expectedCommaOrBrace => "expected `,` or `\x7d`"
  | .trailingComma => "trailing comma"
  | .keyNotString => "key must be a string"
  | .trailingText => "trailing characters"
  | .invalidNumber => "invalid number"
  | .numberTooLarge => "number out of range"
  | .controlCharacter => "control character (\\u0000-\\u001F) found while parsing a string"
  | .invalidEscape => "invalid escape"
  | .loneSurrogate => "lone leading surrogate in hex escape"
  | .unpairedSurrogate => "unexpected end of hex escape"
  | .tooDeep => "recursion limit exceeded"
  | .unexpectedType found wanted => "invalid type: " ++ found.describe ++ ", expected " ++ wanted
  | .wrongLength length wanted => "invalid length " ++ toString length ++ ", expected " ++ wanted
  | .missingField name => "missing field `" ++ name ++ "`"
  | .repeatedField name => "duplicate field `" ++ name ++ "`"
  | .unknownField name known =>
    "unknown field `" ++ name ++ "`, expected one of " ++ alternatives known
  | .repeatedColumn name => "duplicate column: column " ++ name ++ " is declared twice"
  | .noSuchValue => "data did not match any variant of untagged enum Value"

inductive Step where
  | element (index : Nat)
  | member (key : String)
  /-- A member whose key could not be read. -/
  | unread
deriving DecidableEq, Repr

def Step.describe : Step → String
  | .element index => "[" ++ toString index ++ "]"
  | .member key => key
  | .unread => "?"

def Step.isElement : Step → Bool
  | .element _ => true
  | _ => false

/-- The way to a part of a value: a point stands before each member, except at the start. -/
def describePath : List Step → String
  | [] => ""
  | first :: rest =>
    first.describe ++ String.join (rest.map fun s => (if s.isElement then "" else ".") ++ s.describe)

/-- A line, counted from one, and the bytes read since the line began. -/
structure Position where
  line : Nat
  column : Nat
deriving DecidableEq, Repr

namespace Position

def start : Position := ⟨1, 0⟩

def newLine (p : Position) : Position := ⟨p.line + 1, 0⟩

def after (p : Position) (c : Char) : Position :=
  if c = '\n' then p.newLine else ⟨p.line, p.column + c.utf8Size⟩

/-- The position `n` bytes into a text that starts at `p`, or at the end of a shorter text. -/
def afterBytes (p : Position) : Nat → List Char → Position
  | _, [] => p
  | n, c :: cs =>
    if n = 0 then p
    else if n < c.utf8Size then ⟨p.line, p.column + n⟩
    else (p.after c).afterBytes (n - c.utf8Size) cs

end Position

/-- Where and why reading stopped: `rest` was left, and `ahead` bytes of it count as read. -/
structure Fault where
  cause : Cause
  rest : List Char
  ahead : Nat
  path : List Step
deriving DecidableEq, Repr

namespace Fault

/-- Stopped just before `rest`. -/
def before (cause : Cause) (rest : List Char) : Fault := ⟨cause, rest, 0, []⟩

/-- Stopped at the first byte of `rest`, which counts as read. -/
def atNext (cause : Cause) (rest : List Char) : Fault := ⟨cause, rest, 1, []⟩

def within (step : Step) (f : Fault) : Fault := { f with path := step :: f.path }

def position (text : List Char) (f : Fault) : Position :=
  ((text.take (text.length - f.rest.length)).foldl Position.after .start).afterBytes f.ahead f.rest

end Fault

structure Complaint where
  cause : Cause
  position : Option Position
  path : List Step
deriving DecidableEq, Repr

def Fault.complaint (text : List Char) (f : Fault) : Complaint :=
  ⟨f.cause, some (f.position text), f.path⟩

def Complaint.message (c : Complaint) : String :=
  c.cause.message ++ match c.position with
    | some p => " at line " ++ toString p.line ++ " column " ++ toString p.column
    | none => ""

/-- The message after the way to the fault, which is left out at the top. -/
def Complaint.messageWithPath (c : Complaint) : String :=
  if c.path.all (· == .unread) then c.message else describePath c.path ++ ": " ++ c.message

/-- What a reader gives: a value and the text after it, or a fault. -/
abbrev Reader (α : Type) := List Char → Except Fault (α × List Char)

end TableQuery.Json
