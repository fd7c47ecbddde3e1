import TableQuery.NameSet
import TableQuery.Text

/-! # Scanning a query for its parameters

A query is read once from left to right. Outside quoted literals a sigil starts a parameter name,
which runs up to the first character that ends names; that character is looked at again as ordinary
text, so a quote there opens a literal. Inside a literal only its own quote counts, and a literal
left open runs to the end of the query.

`Mode.step` reads one character, so that scanning `a ++ b` is scanning `b` from where `a` ends
(`Mode.run_append`). -/

namespace TableQuery.Query

def sigil : Char := '$'

def isQuote (c : Char) : Bool := c == '\x27' || c == '\x22'

def isDelimiter (c : Char) : Bool := [',', ' ', ';', ')', '='].contains c

def endsName (c : Char) : Bool := isDelimiter c || Text.isBlank c || isQuote c

/-- A sigil outside literals: its byte offset in the query and the name that follows it. -/
structure Mention where
  offset : Nat
  name : List Char
deriving DecidableEq, Repr

/-- Where a scan stands between two characters. -/
inductive Mode where
  | plain
  | literal (quote : Char)
  /-- In a name whose sigil stands at byte `start`; `read` is the name so far, last character first. -/
  | name (start : Nat) (read : List Char)
deriving DecidableEq, Repr

namespace Mode

/-- The mode after `c` at byte `offset`, when `c` continues neither a literal nor a name. -/
def afterPlain (offset : Nat) (c : Char) : Mode :=
  if isQuote c then .literal c else if c = sigil then .name offset [] else .plain

/-- Reads the character `c` at byte `offset`; a name that ends there is given back. -/
def step (offset : Nat) (c : Char) : Mode → Mode × List Mention
  | .plain => (afterPlain offset c, [])
  | .literal quote => (if c = quote then .plain else .literal quote, [])
  | .name start read =>
    if endsName c then (afterPlain offset c, [⟨start, read.reverse⟩]) else (.name start (c :: read), [])

def run (offset : Nat) (m : Mode) : List Char → Mode × List Mention
  | [] => (m, [])
  | c :: cs =>
    let (m, found) := m.step offset c
    let (m, more) := m.run (offset + c.utf8Size) cs
    (m, found ++ more)

def finish : Mode → List Mention
  | .name start read => [⟨start, read.reverse⟩]
  | _ => []

end Mode

/-- Bytes of `cs` in UTF-8. -/
def byteLength (cs : List Char) : Nat := cs.foldr (fun c n => c.utf8Size + n) 0

theorem Mode.run_append (offset : Nat) (m : Mode) (a b : List Char) :
    m.run offset (a ++ b) =
      ((((m.run offset a).1.run (offset + byteLength a) b).1),
        (m.run offset a).2 ++ ((m.run offset a).1.run (offset + byteLength a) b).2) := by
  induction a generalizing offset m with
  | nil => simp [run, byteLength]
  | cons c a ih => simp [run, ih, byteLength, Nat.add_assoc]

/-- Every sigil outside literals with its name, in order. -/
def mentions (query : List Char) : List Mention :=
  let (m, found) := Mode.plain.run 0 query
  found ++ m.finish

/-- The names that a query mentions, or the byte offset of its first sigil without a name. -/
def scan (query : List Char) : Except Nat NameSet :=
  let found := mentions query
  match found.find? (·.name.isEmpty) with
  | some m => .error m.offset
  | none => .ok (.ofList (found.map fun m => String.ofList m.name))

end TableQuery.Query
