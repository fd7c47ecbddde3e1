import TableQuery.Error
import TableQuery.Table.Definition

/-! # Valid definitions

A definition is valid if the table and its columns have identifiers for names, no column is declared
twice, and all key columns are declared. `Definition.validate` gives the first violation: the table's
name, then the columns in order, then the primary key, then the foreign keys. -/

namespace TableQuery

def isAsciiLetter (c : Char) : Bool := ('a' ≤ c && c ≤ 'z') || ('A' ≤ c && c ≤ 'Z')

def startsIdentifier (c : Char) : Bool := c == '_' || isAsciiLetter c

def continuesIdentifier (c : Char) : Bool := startsIdentifier c || ('0' ≤ c && c ≤ '9')

/-- A letter or underscore, then letters, digits and underscores, all of them ASCII. -/
def isIdentifier (name : String) : Bool :=
  match name.toList with
  | [] => false
  | c :: cs => startsIdentifier c && cs.all continuesIdentifier

def checkIdentifier (name : String) (bearer : Option Bearer) : Except Error Unit :=
  if isIdentifier name then .ok () else .error ⟨.invalidIdentifier name bearer, []⟩

namespace Definition

/-- Checks columns, of which those named in `seen` came before. -/
def checkColumns (table : String) : List String → List Column → Except Error Unit
  | _, [] => .ok ()
  | seen, c :: rest => do
    checkIdentifier c.name (some (.column table))
    if seen.contains c.name then .error ⟨.duplicateColumn c.name table, []⟩
    else checkColumns table (c.name :: seen) rest

def checkKeys (d : Definition) (clause : KeyClause) : List String → Except Error Unit
  | [] => .ok ()
  | key :: rest =>
    if d.hasColumn key then d.checkKeys clause rest
    else .error ⟨.undeclaredKey clause key d.name, []⟩

def validate (d : Definition) : Except Error Unit := do
  checkIdentifier d.name (some .table)
  checkColumns d.name [] d.columns
  d.checkKeys .primary (d.primaryKeys.getD [])
  d.checkKeys .foreign (d.foreignKeys.flatMap (·.keys))

end Definition

end TableQuery
