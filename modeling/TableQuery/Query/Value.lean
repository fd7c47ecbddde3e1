import TableQuery.Decimal.Literal
import TableQuery.Error
import TableQuery.Json.Writer

/-! # Argument values

A value that a caller may supply for a parameter. A plain text is read as the narrowest kind that it
spells: boolean, integer of 64 bits, finite real, else text. In JSON the kind of the value decides,
and an integer beyond 64 bits with sign is a real. -/

namespace TableQuery

inductive Value where
  | boolean (b : Bool)
  | integer (n : Int64)
  | real (x : Binary64)
  | text (s : String)
deriving DecidableEq, Repr

namespace Value

def isInt64 (n : Int) : Bool := -0x8000000000000000 ≤ n && n < 0x8000000000000000

def readBoolean? (s : String) : Option Bool :=
  if s = "true" then some true else if s = "false" then some false else none

def readInteger? (s : String) : Option Int64 :=
  match Decimal.readInteger? s.toList with
  | some n => if isInt64 n then some (.ofInt n) else none
  | none => none

/-- The number nearest to the decimal that a text spells, if it is finite. -/
def readReal? (s : String) : Option Binary64 :=
  match Decimal.read? s.toList with
  | some (negative, d) =>
    let x := d.toBinary64 negative
    if x.isFinite then some x else none
  | none => none

def ofText (s : String) : Value :=
  match readBoolean? s with
  | some b => .boolean b
  | none =>
    match readInteger? s with
    | some n => .integer n
    | none =>
      match readReal? s with
      | some x => .real x
      | none => .text s

/-- The value that a JSON value stands for, if it is a boolean, a number or a string. -/
def ofDocument? : Json.Document → Option Value
  | .boolean b => some (.boolean b)
  | .number (.integer n) =>
    some (if isInt64 n then .integer (.ofInt n) else .real (.nearest (n < 0) n.natAbs 1))
  | .number (.real x) => some (.real x)
  | .text s => some (.text s)
  | _ => none

def noSuchValue : Json.Complaint := ⟨.noSuchValue, none, []⟩

/-- A JSON value read as a value. The whole of it is read before its kind is looked at. -/
def ofJson (text : String) : Except Json.Complaint Value :=
  match Json.readFirst Json.Document.read text with
  | .error c => .error c
  | .ok d =>
    match ofDocument? d with
    | none => .error noSuchValue
    | some v => (Json.readWhole Json.Document.read text).map fun _ => v

def toJson : Value → String
  | .boolean b => String.ofList (Json.writeBoolean b)
  | .integer n => String.ofList (Json.writeInteger n.toInt)
  | .real x => String.ofList (Json.writeReal x)
  | .text s => String.ofList (Json.writeText s)

end Value

end TableQuery
