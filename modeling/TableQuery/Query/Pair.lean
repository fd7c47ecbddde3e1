import TableQuery.Query.Value

/-! # Name and value pairs

A pair is written with an equals sign: what stands before the first one is the name, what stands
after it the value, further equals signs included. -/

namespace TableQuery.Pair

/-- Splits a text at its first equals sign. -/
def split? (s : String) : Option (String × String) :=
  match s.toList.dropWhile (· != '=') with
  | _ :: value => some (String.ofList (s.toList.takeWhile (· != '=')), String.ofList value)
  | [] => none

def noEqualsSign (s : String) : String := "invalid KEY=value: no `=` found in `" ++ s ++ "`"

def read {α β : Type} (name : String → Except String α) (value : String → Except String β)
    (s : String) : Except String (α × β) :=
  match split? s with
  | none => .error (noEqualsSign s)
  | some (a, b) => do return (← name a, ← value b)

def readArgument (s : String) : Except String (String × Value) :=
  read .ok (fun t => .ok (.ofText t)) s

/-- An integer of 64 bits, or why a text is none. The text is judged from left to right: digits that
make it too large or too small come before a character that is no digit. -/
def readInteger (s : String) : Except String Int64 :=
  let (negative, cs) := Decimal.splitSign s.toList
  let n : Int := ofDigits (cs.takeWhile isDigit)
  let n := if negative then -n else n
  if s.isEmpty then .error "cannot parse integer from empty string"
  else if !Value.isInt64 n then
    .error (if negative then "number too small to fit in target type"
      else "number too large to fit in target type")
  else if cs.isEmpty || !cs.all isDigit then .error "invalid digit found in string"
  else .ok (.ofInt n)

def readBoolean (s : String) : Except String Bool :=
  match Value.readBoolean? s with
  | some b => .ok b
  | none => .error "provided string was not `true` or `false`"

end TableQuery.Pair
