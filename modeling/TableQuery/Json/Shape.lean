import TableQuery.Json.Number
import TableQuery.Json.Traverse

/-! # Values of a wanted type

Readers for texts, booleans and lists. A value of another type is a fault: a scalar is read first, so
that the message can show it and its own faults come before; an array or object is not. -/

namespace TableQuery.Json

/-- A reader given the first character that is no blank, and what follows it. -/
def startingAt {α : Type} (read : Char → Reader α) : Reader α := fun cs =>
  match skipBlanks cs with
  | [] => .error (.atNext .endInValue [])
  | c :: rest => read c rest

def foundNumber : Number → Found
  | .integer n => .integer n
  | .real x => .real x

/-- The value that starts with `c`, as a message shows it, and the text after it; an array or an
object is left where it is. -/
def readFound (c : Char) : Reader Found := fun rest =>
  if c = 'n' then do return (.null, ← readWord ['u', 'l', 'l'] rest)
  else if c = 't' then do return (.boolean true, ← readWord ['r', 'u', 'e'] rest)
  else if c = 'f' then do return (.boolean false, ← readWord ['a', 'l', 's', 'e'] rest)
  else if c = '-' then do
    let (n, rest) ← Number.read true rest
    return (foundNumber n, rest)
  else if isDigit c then do
    let (n, rest) ← Number.read false (c :: rest)
    return (foundNumber n, rest)
  else if c = '\x22' then do
    let (s, rest) ← readString rest
    return (.text s, rest)
  else if c = '[' then .ok (.array, c :: rest)
  else if c = '\x7b' then .ok (.object, c :: rest)
  else .error (.atNext .expectedValue (c :: rest))

def refuse {α : Type} (wanted : String) (c : Char) : Reader α := fun rest =>
  match readFound c rest with
  | .ok (found, rest) => .error (.before (.unexpectedType found wanted) rest)
  | .error f => .error f

def readText : Reader String :=
  startingAt fun c rest => if c = '\x22' then readString rest else refuse "a string" c rest

def readBoolean : Reader Bool :=
  startingAt fun c rest =>
    if c = 't' then do return (true, ← readWord ['r', 'u', 'e'] rest)
    else if c = 'f' then do return (false, ← readWord ['a', 'l', 's', 'e'] rest)
    else refuse "a boolean" c rest

def readList {α : Type} (element : Reader α) : Reader (List α) :=
  startingAt fun c rest => if c = '[' then elements element rest else refuse "a sequence" c rest

def readOptional {α : Type} (value : Reader α) : Reader (Option α) :=
  startingAt fun c rest =>
    if c = 'n' then do return (none, ← readWord ['u', 'l', 'l'] rest)
    else do
      let (a, rest) ← value (c :: rest)
      return (some a, rest)

/-! ## Arrays with a fixed number of places -/

/-- How far an array is read: up to its end, with the text after the bracket, or not. -/
inductive Places where
  | closed (rest : List Char)
  | inside (rest : List Char)

/-- The element at place `index`, unless the array ends before it. -/
def placeAt {α : Type} (index : Nat) (element : Reader α) : Places → Except Fault (Option α × Places)
  | .closed rest => .ok (none, .closed rest)
  | .inside cs => do
    match ← nextElement (index == 0) cs with
    | .closed rest => return (none, .closed rest)
    | .element cs =>
      let (a, cs) ← within (.element index) (element cs)
      return (some a, .inside cs)

def Places.rest : Places → List Char
  | .closed rest => rest
  | .inside rest => rest

/-- The end of an array all of whose places are filled. -/
def Places.close : Places → Except Fault (List Char)
  | .closed rest => .ok rest
  | .inside cs =>
    match skipBlanks cs with
    | [] => .error (.atNext .endInList [])
    | c :: rest =>
      if c = ']' then .ok rest
      else if c = ',' then
        match skipBlanks rest with
        | [] => .error (.atNext .trailingText [])
        | d :: more => .error (.atNext (if d = ']' then .trailingComma else .trailingText) (d :: more))
      else .error (.atNext .trailingText (c :: rest))

/-- The value of a place that has to be filled; `length` places before it are. -/
def required {α : Type} (length : Nat) (wanted : String) (places : Places) : Option α → Except Fault α
  | some a => .ok a
  | none => .error (.before (.wrongLength length wanted) places.rest)

/-! ## Whole texts -/

/-- A complaint unless only blanks follow a value. -/
def Fault.ofTail (rest : List Char) : Option Fault :=
  match skipBlanks rest with
  | [] => none
  | c :: more => some (.atNext .trailingText (c :: more))

/-- The value of a text that holds one value and blanks. -/
def readWhole {α : Type} (value : Reader α) (text : String) : Except Complaint α :=
  match value text.toList with
  | .error f => .error (f.complaint text.toList)
  | .ok (a, rest) =>
    match Fault.ofTail rest with
    | none => .ok a
    | some f => .error (f.complaint text.toList)

/-- The first value of a text, whatever follows it. -/
def readFirst {α : Type} (value : Reader α) (text : String) : Except Complaint α :=
  match value text.toList with
  | .error f => .error (f.complaint text.toList)
  | .ok (a, _) => .ok a

end TableQuery.Json
