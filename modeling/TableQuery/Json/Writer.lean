import TableQuery.Json.Document

/-! # Writing JSON

Values are written without blanks. In strings the quote, the backslash and the characters below the
space are escaped, the common controls by a letter. -/

namespace TableQuery.Json

/-- The last hexadecimal digit of `n`, in lower case. -/
def hexDigit (n : Nat) : Char := Char.ofNat (if n % 16 < 10 then 48 + n % 16 else 87 + n % 16)

def writtenChar (c : Char) : List Char :=
  if c = '\x22' then ['\\', '\x22']
  else if c = '\\' then ['\\', '\\']
  else if c = '\x08' then ['\\', 'b']
  else if c = '\x0c' then ['\\', 'f']
  else if c = '\n' then ['\\', 'n']
  else if c = '\r' then ['\\', 'r']
  else if c = '\t' then ['\\', 't']
  else if c.toNat < 0x20 then ['\\', 'u', '0', '0', hexDigit (c.toNat / 16), hexDigit c.toNat]
  else [c]

def writeText (s : String) : List Char := '\x22' :: s.toList.flatMap writtenChar ++ ['\x22']

def writeBoolean (b : Bool) : List Char := if b then ['t', 'r', 'u', 'e'] else ['f', 'a', 'l', 's', 'e']

def writeNull : List Char := ['n', 'u', 'l', 'l']

/-- A real number; one that is not finite has no form of its own. -/
def writeReal (x : Binary64) : List Char :=
  if x.isFinite then numberLayout.renderBinary64 x else writeNull

def writeInteger (n : Int) : List Char := (if n < 0 then ['-'] else []) ++ digitsOf n.natAbs

def writeArray (elements : List (List Char)) : List Char :=
  '[' :: List.intercalate [','] elements ++ [']']

def writeMember (key : String) (value : List Char) : List Char := writeText key ++ ':' :: value

def writeObject (members : List (String × List Char)) : List Char :=
  '\x7b' :: List.intercalate [','] (members.map fun (key, value) => writeMember key value) ++ ['\x7d']

namespace Document

def writeNumber : Number → List Char
  | .integer n => writeInteger n
  | .real x => writeReal x

mutual

def write : Document → List Char
  | .null => writeNull
  | .boolean b => writeBoolean b
  | .number n => writeNumber n
  | .text s => writeText s
  | .array elements => writeArray (writeElements elements)
  | .object members => writeObject (writeMembers members)

def writeElements : List Document → List (List Char)
  | [] => []
  | d :: rest => write d :: writeElements rest

def writeMembers : List (String × Document) → List (String × List Char)
  | [] => []
  | (key, d) :: rest => (key, write d) :: writeMembers rest

end

end Document

/-! ## Escapes by number -/

theorem hexValue?_hexDigit (n : Nat) : hexValue? (hexDigit n) = some (n % 16) := by
  have digits : ∀ m : Fin 16, hexValue? (hexDigit m) = some m.val := by decide
  have h := digits ⟨n % 16, Nat.mod_lt _ (by decide)⟩
  simpa [hexDigit] using h

theorem hexQuad?_hexDigit {n : Nat} (h : n < 0x20) :
    hexQuad? '0' '0' (hexDigit (n / 16)) (hexDigit n) = some n := by
  simp [hexQuad?, hexValue?_hexDigit, show hexValue? '0' = some 0 from rfl]
  omega

end TableQuery.Json
