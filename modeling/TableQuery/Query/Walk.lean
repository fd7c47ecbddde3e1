import TableQuery.Query.Scan
import TableQuery.Text

/-! # Scanning by byte positions

The scan of a query as two loops over its bytes. Both take characters, each with the byte at which it
starts, from the same reading of the query. The outer loop takes one character a round; at a sigil outside
literals the inner one goes on through the name, and leaves the character that ends it to the next round.
The name is then cut out of the query between the byte behind the sigil and the byte where the inner loop
stopped. `Query.scan` needs no cut, and gives the same answer. -/

namespace TableQuery.Query

/-- The characters of a text that starts at byte `offset`, each with its own byte. -/
def located (offset : Nat) : List Char → List (Nat × Char)
  | [] => []
  | c :: cs => (offset, c) :: located (offset + c.utf8Size) cs

/-- What the inner loop takes: the characters of a name, the byte at which it stops and what it leaves. -/
structure NameReading where
  read : List (Nat × Char)
  stop : Nat
  left : List (Nat × Char)

/-- The inner loop, in a query of `size` bytes. -/
def readName (size : Nat) : List (Nat × Char) → NameReading
  | [] => ⟨[], size, []⟩
  | (i, next) :: left =>
    if endsName next then ⟨[], i, (i, next) :: left⟩
    else
      let name := readName size left
      { name with read := (i, next) :: name.read }

theorem length_left_readName (size : Nat) (left : List (Nat × Char)) :
    (readName size left).left.length ≤ left.length := by
  induction left with
  | nil => simp [readName]
  | cons p left ih =>
    simp only [readName]
    split
    · simp
    · simp only [List.length_cons]
      omega

/-- One round of the outer loop. -/
inductive Round where
  | single (offset : Nat) (c : Char)
  /-- A sigil outside literals, the characters that the inner loop takes behind it, and the bytes between
  which the name is cut out. -/
  | mention (offset : Nat) (read : List (Nat × Char)) (start stop : Nat)
deriving DecidableEq, Repr

namespace Round

/-- The characters that a round takes, by either loop. -/
def visited : Round → List (Nat × Char)
  | .single offset c => [(offset, c)]
  | .mention offset read _ _ => (offset, sigil) :: read

def mention? : Round → Option Mention
  | .single _ _ => none
  | .mention offset read _ _ => some ⟨offset, read.map (·.2)⟩

end Round

/-- The rounds of the outer loop and what they come to. -/
structure Walk where
  rounds : List Round
  /-- The characters that neither loop takes. -/
  left : List (Nat × Char)
  /-- The names, or the byte of a sigil without one; nothing if a cut fails. -/
  answer : Option (Except Nat NameSet)

/-- The walk `w` behind a first round. -/
def Walk.behind (round : Round) (w : Walk) : Walk := { w with rounds := round :: w.rounds }

/-- The outer loop, where the literal that `literal` opened is not closed yet and `names` are found. -/
def walk (text : String) : Option Char → NameSet → List (Nat × Char) → Walk
  | _, names, [] => ⟨[], [], some (.ok names)⟩
  | some quote, names, (offset, c) :: left =>
    (walk text (if c = quote then none else some quote) names left).behind (.single offset c)
  | none, names, (offset, c) :: left =>
    if isQuote c then (walk text (some c) names left).behind (.single offset c)
    else if c = sigil then
      let start := offset + c.utf8Size
      let name := readName text.utf8ByteSize left
      let round := .mention offset name.read start name.stop
      match Text.slice? text start name.stop with
      | none => ⟨[round], name.left, none⟩
      | some cut =>
        if cut.isEmpty then ⟨[round], name.left, some (.error offset)⟩
        else (walk text none (names.insert cut) name.left).behind round
    else (walk text none names left).behind (.single offset c)
termination_by _ _ left => left.length
decreasing_by
  · exact Nat.lt_succ_self _
  · exact Nat.lt_succ_self _
  · exact Nat.lt_succ_of_le (length_left_readName _ _)
  · exact Nat.lt_succ_self _

/-- Both loops over the whole query. -/
def loops (text : String) : Walk := walk text none .empty (located 0 text.toList)

end TableQuery.Query
