/-! # Similar words

How alike two words are, after Jaro and Winkler: the share of characters that match near their place,
less those that match out of order, raised for a common beginning. -/

namespace TableQuery.Command

/-- Matching characters found so far: the characters of the second word that are still free, how many
matched, how many of them stand before the match preceding, and the place of the latest. -/
structure Matching where
  free : List (Option Char)
  count : Nat := 0
  outOfOrder : Nat := 0
  latest : Nat := 0

/-- Matches `c`, at place `i` of the first word, with the first free equal character at most `reach`
places away. -/
def Matching.step (reach : Nat) (s : Matching) (p : Char × Nat) : Matching :=
  let (c, i) := p
  let near := fun j => i - reach ≤ j && j ≤ i + reach && s.free[j]? == some (some c)
  match (List.range s.free.length).find? near with
  | none => s
  | some j =>
    { free := s.free.set j none
      count := s.count + 1
      outOfOrder := if j < s.latest then s.outOfOrder + 1 else s.outOfOrder
      latest := j }

def matching (a b : List Char) : Matching :=
  let reach := max a.length b.length / 2 - 1
  a.zipIdx.foldl (Matching.step reach) { free := b.map some }

def commonStart : List Char → List Char → Nat
  | a :: as, b :: bs => if a = b then commonStart as bs + 1 else 0
  | _, _ => 0

/-- Whether the likeness of two words is above four fifths. -/
def areSimilar (a b : String) : Bool :=
  let (a, b) := (a.toList, b.toList)
  let m := matching a b
  let whole := 3 * a.length * b.length * m.count
  let part := m.count * b.length * m.count + m.count * a.length * m.count +
    (m.count - m.outOfOrder) * a.length * b.length
  m.count ≠ 0 && 8 * whole < 10 * part + commonStart a b * (whole - part)

end TableQuery.Command
