import TableQuery.Decimal.Binary64

/-! # Decimal numbers

A decimal is `coefficient · 10 ^ exponent`. Reading one into a binary number rounds its exact value
once. -/

namespace TableQuery

structure Decimal where
  coefficient : Nat
  exponent : Int
deriving DecidableEq, Repr

def isDigit (c : Char) : Bool := '0' ≤ c && c ≤ '9'

def digitValue (c : Char) : Nat := c.toNat - 48

/-- The number that digits spell, most significant first. -/
def ofDigits (digits : List Char) : Nat := digits.foldl (fun n c => 10 * n + digitValue c) 0

def digitsOf (n : Nat) : List Char := (Nat.toDigits 10 n)

namespace Decimal

/-- The binary number nearest to a decimal. Beyond the powers of ten of the largest and the smallest
numbers the answer is known without working the power out. -/
def toBinary64 (negative : Bool) (d : Decimal) : Binary64 :=
  if d.coefficient = 0 then .zero negative
  else
    let magnitude : Int := (digitsOf d.coefficient).length + d.exponent
    if 310 < magnitude then .infinity negative
    else if magnitude < -330 then .zero negative
    else .nearest negative (d.coefficient * Nat.pow 10 d.exponent.toNat) (Nat.pow 10 (-d.exponent).toNat)

/-- An optional `+` or `-`: whether it is a minus, and what follows. -/
def splitSign : List Char → Bool × List Char
  | '-' :: cs => (true, cs)
  | '+' :: cs => (false, cs)
  | cs => (false, cs)

/-- The whole number that an optional sign and one or more digits spell. -/
def readInteger? (cs : List Char) : Option Int :=
  let (negative, digits) := splitSign cs
  if digits.isEmpty || !digits.all isDigit then none
  else some (if negative then -(ofDigits digits : Int) else ofDigits digits)

/-- The exponent part of a literal: nothing, or a mark `e` or `E` and a whole number. -/
def readExponent? : List Char → Option Int
  | [] => some 0
  | c :: cs => if c = 'e' || c = 'E' then readInteger? cs else none

/-- The sign and magnitude of a decimal literal: an optional sign, digits with an optional point
among, before or after them, at least one digit, and an optional exponent part. -/
def read? (cs : List Char) : Option (Bool × Decimal) := do
  let (negative, cs) := splitSign cs
  let whole := cs.takeWhile isDigit
  let cs := cs.dropWhile isDigit
  let (fraction, cs) := match cs with
    | '.' :: rest => (rest.takeWhile isDigit, rest.dropWhile isDigit)
    | _ => ([], cs)
  if whole.isEmpty && fraction.isEmpty then none
  else
    let exponent ← readExponent? cs
    some (negative, ⟨ofDigits (whole ++ fraction), exponent - fraction.length⟩)

end Decimal

end TableQuery
