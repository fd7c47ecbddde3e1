import TableQuery.Json.Shape

/-! # JSON values as trees

`Document` keeps the order of members and repeated members. Reading one keeps every part, so nesting
is limited. -/

namespace TableQuery.Json

inductive Document where
  | null
  | boolean (b : Bool)
  | number (n : Number)
  | text (s : String)
  | array (elements : List Document)
  | object (members : List (String × Document))
deriving Repr

namespace Document

def found : Document → Found
  | .null => .null
  | .boolean b => .boolean b
  | .number n => foundNumber n
  | .text s => .text s
  | .array _ => .array
  | .object _ => .object

/-- A value, given how the parts of arrays and objects are read, if they may occur. -/
def readUsing (part : Option (Reader Document)) : Reader Document :=
  startingAt fun c rest =>
    if c = 'n' then do return (.null, ← readWord ['u', 'l', 'l'] rest)
    else if c = 't' then do return (.boolean true, ← readWord ['r', 'u', 'e'] rest)
    else if c = 'f' then do return (.boolean false, ← readWord ['a', 'l', 's', 'e'] rest)
    else if c = '-' then do
      let (n, rest) ← Number.read true rest
      return (.number n, rest)
    else if isDigit c then do
      let (n, rest) ← Number.read false (c :: rest)
      return (.number n, rest)
    else if c = '\x22' then do
      let (s, rest) ← readString rest
      return (.text s, rest)
    else if c = '[' || c = '\x7b' then
      match part with
      | none => .error (.atNext .tooDeep (c :: rest))
      | some part =>
        if c = '[' then do
          let (parts, rest) ← elements part rest
          return (.array parts, rest)
        else do
          let member := fun (read : List (String × Document)) key cs => do
            let (value, cs) ← memberValue key part cs
            return ((key, value) :: read, cs)
          let (read, rest) ← members member [] rest
          return (.object read.reverse, rest)
    else .error (.atNext .expectedValue (c :: rest))

/-- A value in which at most `depth` brackets are open at a time. -/
def readWithin : Nat → Reader Document
  | 0 => readUsing none
  | depth + 1 => readUsing (some (readWithin depth))

/-- At the 128th open bracket reading stops. -/
def read : Reader Document := readWithin 127

end Document

end TableQuery.Json
