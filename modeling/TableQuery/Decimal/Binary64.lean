/-! # Binary floating point numbers of 64 bits

A number is its bit pattern: a sign, eleven exponent bits and 52 fraction bits. A finite one is
`significand · 2 ^ scale`; arithmetic is exact on quotients of natural numbers and then rounded once
by `nearest`, to the closest number and to the even one of two that are equally close. -/

namespace TableQuery

structure Binary64 where
  bits : UInt64
deriving DecidableEq, Repr

namespace Binary64

/-- The pattern of infinity without its sign: all exponent bits. -/
def infinityPattern : Nat := 2047 * Nat.pow 2 52

def signPattern : Nat := Nat.pow 2 63

def isNegative (x : Binary64) : Bool := signPattern ≤ x.bits.toNat

/-- The bits without the sign; patterns are ordered as the magnitudes they stand for. -/
def pattern (x : Binary64) : Nat := x.bits.toNat % signPattern

def isFinite (x : Binary64) : Bool := x.pattern < infinityPattern

def isZero (x : Binary64) : Bool := x.pattern == 0

def ofPattern (negative : Bool) (pattern : Nat) : Binary64 :=
  ⟨UInt64.ofNat (if negative then signPattern + pattern else pattern)⟩

def zero (negative : Bool) : Binary64 := ofPattern negative 0

def infinity (negative : Bool) : Binary64 := ofPattern negative infinityPattern

/-- The whole number that is scaled: the fraction bits, below a leading one if the number is
normal. -/
def significand (x : Binary64) : Nat :=
  if x.pattern < Nat.pow 2 52 then x.pattern else Nat.pow 2 52 + x.pattern % Nat.pow 2 52

/-- The power of two that scales the significand. -/
def scale (x : Binary64) : Int :=
  if x.pattern < Nat.pow 2 52 then -1074 else (x.pattern / Nat.pow 2 52 : Nat) - 1075

/-- With `denominator` the exact magnitude of a finite number as a quotient. -/
def numerator (x : Binary64) : Nat := x.significand * Nat.pow 2 x.scale.toNat

def denominator (x : Binary64) : Nat := Nat.pow 2 (-x.scale).toNat

/-- `num / den` to the nearest whole number, a half to the even one. -/
def roundHalfEven (num den : Nat) : Nat :=
  let q := num / den
  let r := num % den
  if 2 * r < den then q else if den < 2 * r then q + 1 else q + q % 2

/-- The greatest `e` with `2 ^ e ≤ num / den`. -/
def binaryExponent (num den : Nat) : Int :=
  let e : Int := (Nat.log2 num : Int) - (Nat.log2 den : Int)
  if num * Nat.pow 2 (-e).toNat < den * Nat.pow 2 e.toNat then e - 1 else e

/-- The scale at which `num / den` has 53 binary digits before the point, but never below that of
the smallest numbers. -/
def scaleOf (num den : Nat) : Int := max (binaryExponent num den - 52) (-1074)

/-- `num / den` in units of `2 ^ e`, rounded. -/
def roundAt (num den : Nat) (e : Int) : Nat :=
  roundHalfEven (num * Nat.pow 2 (-e).toNat) (den * Nat.pow 2 e.toNat)

/-- The number closest to `num / den`, or infinity from half a unit above the largest number on.
The unit `2 ^ e` grows the pattern by `2 ^ 52` with each step of `e`, so a significand that rounds
up to `2 ^ 53` carries into the exponent by itself. -/
def nearest (negative : Bool) (num den : Nat) : Binary64 :=
  if num = 0 then zero negative
  else
    let e := scaleOf num den
    ofPattern negative (min ((e + 1074).toNat * Nat.pow 2 52 + roundAt num den e) infinityPattern)

def ofNat (n : Nat) : Binary64 := nearest false n 1

def neg (x : Binary64) : Binary64 := ofPattern (!x.isNegative) x.pattern

def mul (x y : Binary64) : Binary64 :=
  nearest (x.isNegative != y.isNegative) (x.numerator * y.numerator) (x.denominator * y.denominator)

def div (x y : Binary64) : Binary64 :=
  nearest (x.isNegative != y.isNegative) (x.numerator * y.denominator) (x.denominator * y.numerator)

end Binary64

end TableQuery
