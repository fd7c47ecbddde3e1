import TableQuery.Decimal.Literal

/-! # Shortest decimals

The decimals that `Binary64.nearest` rounds to a finite number `x` are those between the two
midpoints to its neighbours, the midpoints included when the significand of `x` is even. Of them
`shortest` takes one with the fewest digits, of those the closest to `x`, and of two equally close
ones the one that ends in an even digit. -/

namespace TableQuery.Binary64

/-- The exact magnitude of `x` and the midpoints to its neighbours, as numerators over `den`. Below
the smallest significand of a scale, except the lowest, numbers lie twice as close. -/
structure Span where
  low : Nat
  mid : Nat
  high : Nat
  den : Nat
  /-- Whether the midpoints round to the number. -/
  closed : Bool

def span (x : Binary64) : Span :=
  let up := Nat.pow 2 x.scale.toNat
  let closer := x.significand = Nat.pow 2 52 && x.scale ≠ -1074
  { low := (4 * x.significand - if closer then 1 else 2) * up
    mid := 4 * x.significand * up
    high := (4 * x.significand + 2) * up
    den := 4 * x.denominator
    closed := x.significand % 2 == 0 }

/-- Whether `num / den` lies in the span, for `num` over the span's own denominator times `k`. -/
def Span.holds (s : Span) (k num : Nat) : Bool :=
  if s.closed then s.low * k ≤ num && num ≤ s.high * k else s.low * k < num && num < s.high * k

/-- The multiples of `10 ^ e` next to the middle of the span that lie in the span, best first. -/
def Span.onGrid (s : Span) (e : Int) : List Nat :=
  let unit := s.den * Nat.pow 10 e.toNat
  let k := Nat.pow 10 (-e).toNat
  let below := s.mid * k / unit
  let part := s.mid * k % unit
  let first := 2 * part < unit || (2 * part == unit && below % 2 == 0)
  let candidates := if first then [below, below + 1] else [below + 1, below]
  candidates.filter fun n => s.holds k (n * unit)

/-- The first exponent with `10 ^ e ≤ num / den`, going down from `e` at most `fuel` times. -/
def decimalExponentFrom (num den : Nat) : Nat → Int → Int
  | 0, e => e
  | fuel + 1, e =>
    if den * Nat.pow 10 e.toNat ≤ num * Nat.pow 10 (-e).toNat then e else decimalExponentFrom num den fuel (e - 1)

/-- The greatest `e` with `10 ^ e ≤ num / den`. The search starts above it: a number below `2 ^ k`
is below `10 ^ (0.30103 * k + 1)`. -/
def decimalExponent (num den : Nat) : Int :=
  decimalExponentFrom num den 4 ((binaryExponent num den + 1) * 30103 / 100000 + 1)

/-- The first grid with a decimal in the span, among those of `digits` digits and more, for a number
whose leading digit counts `10 ^ top`. -/
def Span.shortestFrom (s : Span) (top : Int) : Nat → Nat → Option Decimal
  | 0, _ => none
  | fuel + 1, digits =>
    let e := top + 1 - digits
    match s.onGrid e with
    | n :: _ => some ⟨n, e⟩
    | [] => s.shortestFrom top fuel (digits + 1)

/-- The shortest decimal that reads back as the magnitude of the finite number `x`; seventeen digits
always suffice. A carry into a new leading digit leaves a zero at the end, which goes into the
exponent. -/
def shortest (x : Binary64) : Decimal :=
  if x.isZero then ⟨0, 0⟩
  else
    let s := x.span
    let top := decimalExponent s.mid s.den
    match s.shortestFrom top 17 1 with
    | some d => if d.coefficient = 10 then ⟨1, d.exponent + 1⟩ else d
    | none => ⟨0, 0⟩

end TableQuery.Binary64
