import TableQuery.Decimal.Shortest

/-! # Writing decimals

A `Layout` holds the decisions of a number format; `Layout.render` carries them out for any decimal
other than zero. -/

namespace TableQuery.Decimal

/-- Numbers from `10 ^ least` up to, and not including, `10 ^ limit` are written without an exponent
and always with a point; others with an exponent that has a sign. -/
structure Layout where
  least : Int
  limit : Int

def zeros (n : Nat) : List Char := List.replicate n '0'

/-- The digits with a point after the first `whole` of them. -/
def Layout.positional (digits : List Char) (whole : Int) : List Char :=
  if whole ≤ 0 then ['0', '.'] ++ zeros (-whole).toNat ++ digits
  else if whole.toNat < digits.length then
    digits.take whole.toNat ++ '.' :: digits.drop whole.toNat
  else digits ++ zeros (whole.toNat - digits.length) ++ ['.', '0']

/-- The first digit, a point before any others, and the exponent with its sign. -/
def Layout.scientific (digits : List Char) (exponent : Int) : List Char :=
  digits.take 1 ++ (if digits.length ≤ 1 then [] else '.' :: digits.drop 1) ++
    'e' :: (if exponent < 0 then '-' else '+') :: digitsOf exponent.natAbs

def Layout.render (l : Layout) (d : Decimal) : List Char :=
  let digits := digitsOf d.coefficient
  let whole : Int := digits.length + d.exponent
  if l.least < whole && whole ≤ l.limit then positional digits whole
  else scientific digits (whole - 1)

/-- A finite number by its shortest decimal, with its sign; a zero has one place. -/
def Layout.renderBinary64 (l : Layout) (x : Binary64) : List Char :=
  (if x.isNegative then ['-'] else []) ++
    (if x.isZero then ['0', '.', '0'] else l.render x.shortest)

end TableQuery.Decimal
