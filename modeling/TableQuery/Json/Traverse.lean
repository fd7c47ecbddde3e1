import TableQuery.Json.Lexical

/-! # Going through arrays and objects

`nextElement` and `nextKey` look for the next part of an array or object after its opening bracket
or after a part; `elements` and `members` go through all of them. A part takes at least one
character, so the text itself, with its opening bracket, is a clock that outlasts its parts. -/

namespace TableQuery.Json

/-- What comes next in an array: its end, with the text after the bracket, or an element. -/
inductive NextElement where
  | closed (rest : List Char)
  | element (rest : List Char)

def nextElement (first : Bool) (cs : List Char) : Except Fault NextElement :=
  match skipBlanks cs with
  | [] => .error (.atNext .endInList [])
  | c :: rest =>
    if c = ']' then .ok (.closed rest)
    else if first then .ok (.element (c :: rest))
    else if c = ',' then
      match skipBlanks rest with
      | [] => .error (.atNext .endInValue [])
      | d :: more => if d = ']' then .error (.atNext .trailingComma (d :: more)) else .ok (.element (d :: more))
    else .error (.atNext .expectedCommaOrBracket (c :: rest))

/-- What comes next in an object: its end, with the text after the brace, or a member, with its key
and the text after that. -/
inductive NextKey where
  | closed (rest : List Char)
  | member (key : String) (rest : List Char)

/-- The key whose opening quote is the first character of `cs`. -/
def keyAt (cs : List Char) : Except Fault NextKey :=
  match cs with
  | '\x22' :: rest => do
    let (key, rest) ← readString rest
    return .member key rest
  | cs => .error (.atNext .keyNotString cs)

def nextKeyUnlocated (first : Bool) (cs : List Char) : Except Fault NextKey :=
  match skipBlanks cs with
  | [] => .error (.atNext .endInObject [])
  | c :: rest =>
    if c = '\x7d' then .ok (.closed rest)
    else if first then keyAt (c :: rest)
    else if c = ',' then
      match skipBlanks rest with
      | [] => .error (.atNext .endInValue [])
      | d :: more => if d = '\x7d' then .error (.atNext .trailingComma (d :: more)) else keyAt (d :: more)
    else .error (.atNext .expectedCommaOrBrace (c :: rest))

def within {α : Type} (step : Step) : Except Fault α → Except Fault α
  | .ok a => .ok a
  | .error f => .error (f.within step)

/-- A fault here belongs to a member that has no key yet. -/
def nextKey (first : Bool) (cs : List Char) : Except Fault NextKey :=
  within .unread (nextKeyUnlocated first cs)

def skipColon (cs : List Char) : Except Fault (List Char) :=
  match skipBlanks cs with
  | [] => .error (.atNext .endInObject [])
  | c :: rest => if c = ':' then .ok rest else .error (.atNext .expectedColon (c :: rest))

def memberValue {α : Type} (key : String) (value : Reader α) : Reader α := fun cs => do
  let cs ← skipColon cs
  within (.member key) (value cs)

/-- The elements after the opening bracket; `read` holds those before, last first. There are fewer
of them to come than `clock` is long. -/
def elementsFrom {α : Type} (element : Reader α) : List Char → Nat → List α → Reader (List α)
  | [], _, _, _ => .error (.atNext .endInList [])
  | _ :: clock, index, read, cs => do
    match ← nextElement (index == 0) cs with
    | .closed rest => return (read.reverse, rest)
    | .element cs =>
      let (a, cs) ← within (.element index) (element cs)
      elementsFrom element clock (index + 1) (a :: read) cs

def elements {α : Type} (element : Reader α) : Reader (List α) := fun cs =>
  elementsFrom element ('[' :: cs) 0 [] cs

/-- The members after the opening brace, each of which changes a state. There are fewer of them to
come than `clock` is long. -/
def membersFrom {σ : Type} (member : σ → String → Reader σ) : List Char → Bool → σ → Reader σ
  | [], _, _, _ => .error (.atNext .endInObject [])
  | _ :: clock, first, state, cs => do
    match ← nextKey first cs with
    | .closed rest => return (state, rest)
    | .member key cs =>
      let (state, cs) ← member state key cs
      membersFrom member clock false state cs

/-- Goes through the members of an object after its opening brace. The reader of a member starts
after the key. -/
def members {σ : Type} (member : σ → String → Reader σ) (state : σ) : Reader σ := fun cs =>
  membersFrom member ('\x7b' :: cs) true state cs

/-- A fault in an object that shows only when reading leaves it: blanks, and a closing brace that
comes next, count as read. -/
def Fault.leaving (cause : Cause) (cs : List Char) : Fault :=
  match skipBlanks cs with
  | '\x7d' :: rest => .before cause rest
  | rest => .before cause rest

end TableQuery.Json
