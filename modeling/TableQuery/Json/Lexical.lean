import TableQuery.Json.Fault

/-! # Blanks, words and strings of JSON

The readers here start inside a token: after the first letter of a word, after the opening quote of a
string. `readString` keeps the characters of a string and checks its escapes, `skipString` only looks
for its end. -/

namespace TableQuery.Json

def isBlank (c : Char) : Bool := c == ' ' || c == '\n' || c == '\t' || c == '\r'

def skipBlanks (cs : List Char) : List Char := cs.dropWhile isBlank

def readWord : List Char → List Char → Except Fault (List Char)
  | [], cs => .ok cs
  | _ :: _, [] => .error (.before .endInValue [])
  | e :: expected, c :: cs =>
    if c = e then readWord expected cs else .error (.atNext .expectedWord (c :: cs))

def hexValue? (c : Char) : Option Nat :=
  if '0' ≤ c && c ≤ '9' then some (c.toNat - 48)
  else if 'a' ≤ c && c ≤ 'f' then some (c.toNat - 87)
  else if 'A' ≤ c && c ≤ 'F' then some (c.toNat - 55)
  else none

def hexQuad? (a b c d : Char) : Option Nat := do
  return 4096 * (← hexValue? a) + 256 * (← hexValue? b) + 16 * (← hexValue? c) + (← hexValue? d)

/-- The fault of an escape whose four digits would start at `cs`: they are four bytes, whatever
characters these belong to, and without four bytes the string has no end. -/
def hexFault (cs : List Char) : Fault :=
  if 4 ≤ (cs.take 4).foldr (fun c n => c.utf8Size + n) 0 then ⟨.invalidEscape, cs, 4, []⟩
  else .before .endInString []

/-- The character that a backslash and `c` stand for, other than `u`. -/
def escaped? (c : Char) : Option Char :=
  if c = '\x22' then some '\x22'
  else if c = '\\' then some '\\'
  else if c = '/' then some '/'
  else if c = 'b' then some '\x08'
  else if c = 'f' then some '\x0c'
  else if c = 'n' then some '\n'
  else if c = 'r' then some '\r'
  else if c = 't' then some '\t'
  else none

def isHighSurrogate (n : Nat) : Bool := 0xD800 ≤ n && n ≤ 0xDBFF

def isLowSurrogate (n : Nat) : Bool := 0xDC00 ≤ n && n ≤ 0xDFFF

/-- The fault of a high surrogate that `cs` follows, when no escape of four digits comes next. -/
def pairFault : List Char → Fault
  | [] => .before .endInString []
  | '\\' :: [] => .before .endInString []
  | '\\' :: 'u' :: cs => hexFault cs
  | '\\' :: cs => .atNext .unpairedSurrogate cs
  | cs => .atNext .unpairedSurrogate cs

/-- The characters of a string up to its closing quote; `read` holds those before, last first. -/
def readStringFrom (read : List Char) : Reader (List Char)
  | [] => .error (.before .endInString [])
  | '\x22' :: cs => .ok (read.reverse, cs)
  | '\\' :: 'u' :: a :: b :: c :: d :: cs =>
    match hexQuad? a b c d with
    | none => .error (hexFault (a :: b :: c :: d :: cs))
    | some n =>
      if isLowSurrogate n then .error (.before .loneSurrogate cs)
      else if isHighSurrogate n then
        match cs with
        | '\\' :: 'u' :: a :: b :: c :: d :: cs =>
          match hexQuad? a b c d with
          | none => .error (hexFault (a :: b :: c :: d :: cs))
          | some m =>
            if isLowSurrogate m then
              readStringFrom (Char.ofNat (0x10000 + (n - 0xD800) * 0x400 + (m - 0xDC00)) :: read) cs
            else .error (.before .loneSurrogate cs)
        | cs => .error (pairFault cs)
      else readStringFrom (Char.ofNat n :: read) cs
  | '\\' :: 'u' :: cs => .error (hexFault cs)
  | '\\' :: [] => .error (.before .endInString [])
  | '\\' :: c :: cs =>
    match escaped? c with
    | some e => readStringFrom (e :: read) cs
    | none => .error (.atNext .invalidEscape (c :: cs))
  | c :: cs =>
    if c.toNat < 0x20 then .error (.atNext .controlCharacter (c :: cs)) else readStringFrom (c :: read) cs

def readString : Reader String := fun cs =>
  match readStringFrom [] cs with
  | .ok (s, rest) => .ok (String.ofList s, rest)
  | .error f => .error f

/-- Passes over a string after its opening quote; surrogates may stand alone. -/
def skipString : List Char → Except Fault (List Char)
  | [] => .error (.before .endInString [])
  | '\x22' :: cs => .ok cs
  | '\\' :: 'u' :: a :: b :: c :: d :: cs =>
    match hexQuad? a b c d with
    | none => .error (hexFault (a :: b :: c :: d :: cs))
    | some _ => skipString cs
  | '\\' :: 'u' :: cs => .error (hexFault cs)
  | '\\' :: [] => .error (.before .endInString [])
  | '\\' :: c :: cs =>
    match escaped? c with
    | some _ => skipString cs
    | none => .error (.atNext .invalidEscape (c :: cs))
  | c :: cs =>
    if c.toNat < 0x20 then .error (.before .controlCharacter (c :: cs)) else skipString cs

end TableQuery.Json
