import TableQuery.Json.Number
import TableQuery.Json.Lexical

/-! # Passing over a JSON value

A value that is not wanted is only checked for its form. The open brackets are kept in a list, so
nesting has no limit. -/

namespace TableQuery.Json

inductive Bracket where
  | array
  | object
deriving DecidableEq, Repr

namespace Bracket

def closing : Bracket → Char
  | .array => ']'
  | .object => '\x7d'

def endCause : Bracket → Cause
  | .array => .endInList
  | .object => .endInObject

def commaCause : Bracket → Cause
  | .array => .expectedCommaOrBracket
  | .object => .expectedCommaOrBrace

end Bracket

def Bracket.ofOpening? (c : Char) : Option Bracket :=
  if c = '[' then some .array else if c = '\x7b' then some .object else none

inductive Due where
  | value
  /-- A comma or the end of the innermost bracket, if one is open. -/
  | nextPart

def skipKey (cs : List Char) : Except Fault (List Char) :=
  match skipBlanks cs with
  | [] => .error (.atNext .endInObject [])
  | c :: rest =>
    if c = '\x22' then do
      let cs ← skipString rest
      match skipBlanks cs with
      | [] => .error (.atNext .endInObject [])
      | c :: rest => if c = ':' then .ok rest else .error (.atNext .expectedColon (c :: rest))
    else .error (.atNext .keyNotString (c :: rest))

/-- Passes over what comes before a value inside a bracket. -/
def Bracket.skipLead : Bracket → List Char → Except Fault (List Char)
  | .array, cs => .ok cs
  | .object, cs => skipKey cs

/-- Passes over a value that is neither array nor object; its first character is `c`. -/
def skipScalar (c : Char) (rest : List Char) : Except Fault (List Char) :=
  if c = 'n' then readWord ['u', 'l', 'l'] rest
  else if c = 't' then readWord ['r', 'u', 'e'] rest
  else if c = 'f' then readWord ['a', 'l', 's', 'e'] rest
  else if c = '-' then Number.skip rest
  else if isDigit c then Number.skip (c :: rest)
  else if c = '\x22' then skipString rest
  else .error (.atNext .expectedValue (c :: rest))

/-- Passes over the rest of a value inside `brackets`, innermost first. Each round but the last
reads a character, so there are at most as many rounds as `clock` is long. -/
def skipFrom : List Char → Due → List Bracket → List Char → Except Fault (List Char)
  | [], _, _, _ => .error (.atNext .endInValue [])
  | _ :: clock, .value, brackets, cs =>
    match skipBlanks cs with
    | [] => .error (.atNext .endInValue [])
    | c :: rest =>
      match Bracket.ofOpening? c with
      | none => do skipFrom clock .nextPart brackets (← skipScalar c rest)
      | some bracket =>
        match skipBlanks rest with
        | [] => .error (.atNext bracket.endCause [])
        | d :: more =>
          if d = bracket.closing then skipFrom clock .nextPart brackets more
          else do skipFrom clock .value (bracket :: brackets) (← bracket.skipLead (d :: more))
  | _ :: _, .nextPart, [], cs => .ok cs
  | _ :: clock, .nextPart, bracket :: brackets, cs =>
    match skipBlanks cs with
    | [] => .error (.atNext bracket.endCause [])
    | c :: rest =>
      if c = ',' then do skipFrom clock .value (bracket :: brackets) (← bracket.skipLead rest)
      else if c = bracket.closing then skipFrom clock .nextPart brackets rest
      else .error (.atNext bracket.commaCause (c :: rest))

def skipValue : Reader Unit := fun cs => do
  return ((), ← skipFrom (' ' :: cs) .value [] cs)

end TableQuery.Json
