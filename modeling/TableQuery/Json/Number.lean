import TableQuery.Decimal.Literal
import TableQuery.Json.Fault

/-! # Numbers of JSON

A number without point and exponent is an integer if it fits into 64 bits, unsigned or signed. Any
other is a whole number of 64 bits, taken from the leading digits, times a power of ten; the two are
multiplied or divided as binary numbers, so the result can differ from the closest one in its last
bits.

The readers start after the sign. -/

namespace TableQuery.Json

inductive Number where
  | integer (n : Int)
  | real (x : Binary64)
deriving DecidableEq, Repr

namespace Number

/-- Appends digits to `n` as long as the result stays below `limit`; the digits left over follow. -/
def absorb (limit n : Nat) : List Char → Nat × List Char
  | [] => (n, [])
  | c :: cs =>
    if 10 * n + digitValue c < limit then absorb limit (10 * n + digitValue c) cs else (n, c :: cs)

def powerOfTen (n : Nat) : Binary64 := .ofNat (Nat.pow 10 n)

/-- `x · 10 ^ exponent`, with division by `10 ^ 308` first where the power is smaller than any
number. Two such divisions leave nothing of a number of 64 bits. -/
def scaleBy : Nat → Binary64 → Int → Option Binary64
  | 0, x, _ => some x
  | fuel + 1, x, exponent =>
    if exponent.natAbs ≤ 308 then
      if 0 ≤ exponent then
        let y := x.mul (powerOfTen exponent.natAbs)
        if y.isFinite then some y else none
      else some (x.div (powerOfTen exponent.natAbs))
    else if x.isZero then some x
    else if 0 ≤ exponent then none
    else scaleBy fuel (x.div (powerOfTen 308)) (exponent + 308)

/-- `significand · 10 ^ exponent` with a sign, unless it is too large. -/
def scaled (negative : Bool) (significand : Nat) (exponent : Int) : Option Binary64 :=
  (scaleBy 4 (.ofNat significand) exponent).map fun x => if negative then x.neg else x

def ofWhole (negative : Bool) (n : Nat) : Number :=
  if !negative then .integer n
  else if n = 0 || Nat.pow 2 63 < n then .real (.neg (.ofNat n))
  else .integer (-n)

def finish (negative : Bool) (significand : Nat) (exponent : Int) (rest : List Char) :
    Except Fault (Number × List Char) :=
  match scaled negative significand exponent with
  | some x => .ok (.real x, rest)
  | none => .error (.before .numberTooLarge rest)

def isExponentMark (c : Char) : Bool := c == 'e' || c == 'E'

/-- The exponent part after its mark. An exponent beyond 31 bits makes the number too large, unless
it is zero or the exponent negative: then the number is zero. -/
def readExponent (negative : Bool) (significand : Nat) (exponent : Int) : Reader Number := fun cs =>
  let (down, cs) := Decimal.splitSign cs
  match cs with
  | [] => .error (.before .endInValue [])
  | c :: _ =>
    if !isDigit c then .error (.atNext .invalidNumber cs)
    else
      let rest := cs.dropWhile isDigit
      let (e, left) := absorb (Nat.pow 2 31) 0 (cs.takeWhile isDigit)
      if !left.isEmpty then
        if significand ≠ 0 && !down then .error (.atNext .numberTooLarge (left ++ rest))
        else .ok (.real (.zero negative), rest)
      else finish negative significand (if down then exponent - e else exponent + e) rest

/-- The digits after the point, then the exponent part if there is one. Digits that the significand
has no room for are ignored. -/
def readFraction (negative : Bool) (significand : Nat) (exponent : Int) : Reader Number := fun cs =>
  let digits := cs.takeWhile isDigit
  let rest := cs.dropWhile isDigit
  if digits.isEmpty then
    .error (.atNext (if rest.isEmpty then .endInValue else .invalidNumber) rest)
  else
    let (significand, left) := absorb (Nat.pow 2 64) significand digits
    let exponent := exponent - (digits.length - left.length : Nat)
    match rest with
    | c :: more =>
      if isExponentMark c then readExponent negative significand exponent more
      else finish negative significand exponent rest
    | [] => finish negative significand exponent rest

/-- A number after its sign. Digits of the whole part that the significand has no room for count in
the exponent. -/
def read (negative : Bool) : Reader Number := fun cs =>
  match cs with
  | [] => .error (.before .endInValue [])
  | c :: more =>
    if !isDigit c then .error (.atNext .invalidNumber cs)
    else if c = '0' && more.head?.any isDigit then .error (.atNext .invalidNumber more)
    else
      let rest := cs.dropWhile isDigit
      let (significand, left) := absorb (Nat.pow 2 64) 0 (cs.takeWhile isDigit)
      match rest with
      | '.' :: rest => readFraction negative significand left.length rest
      | c :: after =>
        if isExponentMark c then readExponent negative significand left.length after
        else if left.isEmpty then .ok (ofWhole negative significand, rest)
        else finish negative significand left.length rest
      | [] =>
        if left.isEmpty then .ok (ofWhole negative significand, rest)
        else finish negative significand left.length rest

def skipExponent (cs : List Char) : Except Fault (List Char) :=
  match (Decimal.splitSign cs).2 with
  | [] => .error (.before .invalidNumber [])
  | c :: rest => if isDigit c then .ok (rest.dropWhile isDigit) else .error (.atNext .invalidNumber (c :: rest))

/-- Passes over a number after its sign, whatever its size. -/
def skip (cs : List Char) : Except Fault (List Char) :=
  match cs with
  | [] => .error (.before .invalidNumber [])
  | c :: more =>
    if !isDigit c then .error (.atNext .invalidNumber cs)
    else if c = '0' && more.head?.any isDigit then .error (.atNext .invalidNumber more)
    else
      match cs.dropWhile isDigit with
      | '.' :: rest =>
        if !rest.head?.any isDigit then .error (.atNext .invalidNumber rest)
        else
          match rest.dropWhile isDigit with
          | c :: after => if isExponentMark c then skipExponent after else .ok (c :: after)
          | [] => .ok []
      | c :: after => if isExponentMark c then skipExponent after else .ok (c :: after)
      | [] => .ok []

end Number

end TableQuery.Json
