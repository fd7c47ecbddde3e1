import TableQuery.Error
import TableQuery.Table.Statement
import TableQuery.Table.Validity

/-! # Tables and references to them

A table is a definition in use: its statement, its columns, and the references that were taken so
far. A reference is worked out when it is first taken and kept; taken again it is the same one, which
its place among the table's references shows. -/

namespace TableQuery

/-- What a reference names: a column with its table, a column alone, or joined columns of a table. -/
inductive ReferenceKey where
  | qualified (column : String)
  | bare (column : String)
  | grouped (columns : String)
deriving DecidableEq, Repr

def ReferenceKey.render (table : String) : ReferenceKey → String
  | .qualified column => table ++ "." ++ column
  | .bare column => column
  | .grouped columns => table ++ "(" ++ columns ++ ")"

/-- A reference: its text and its place among those that its table keeps. -/
structure Reference where
  place : Nat
  text : String
deriving DecidableEq, Repr

structure Table where
  definition : Definition
  statement : String
  columns : List String
  /-- The references kept so far, in the order in which they were first taken. -/
  kept : List (ReferenceKey × String)
deriving DecidableEq

namespace Table

def ofDefinition (d : Definition) : Table := ⟨d, d.statement, d.columnNames, []⟩

def ofValid (d : Definition) : Except Error Table := do
  d.validate
  return ofDefinition d

def name (t : Table) : String := t.definition.name

def hasColumn (t : Table) (column : String) : Bool := t.columns.contains column

/-- The reference for a key, looked up or else appended. -/
def reference (t : Table) (key : ReferenceKey) : Reference × Table :=
  match t.kept.findIdx? (·.1 == key) with
  | some place => (⟨place, (t.kept[place]?.map (·.2)).getD ""⟩, t)
  | none =>
    let text := key.render t.name
    (⟨t.kept.length, text⟩, { t with kept := t.kept ++ [(key, text)] })

def qualified (t : Table) (column : String) : Reference × Table := t.reference (.qualified column)

def bare (t : Table) (column : String) : Reference × Table := t.reference (.bare column)

def grouped (t : Table) (columns : List String) : Reference × Table :=
  t.reference (.grouped (commaJoined columns))

/-- Checks that all columns are declared; the error names the first that is not. -/
def checkColumns (t : Table) : List String → Except Error Unit
  | [] => .ok ()
  | column :: rest =>
    if t.hasColumn column then t.checkColumns rest
    else .error ⟨.undeclaredColumn column t.name, []⟩

def declared (t : Table) (columns : List String) : Except Error (List String) := do
  t.checkColumns columns
  return columns

inductive Request where
  | qualified (column : String)
  | bare (column : String)
  | grouped (columns : List String)
deriving DecidableEq, Repr

def Request.key : Request → ReferenceKey
  | .qualified column => .qualified column
  | .bare column => .bare column
  | .grouped columns => .grouped (commaJoined columns)

/-- Whether a request is about declared columns only, and about some column. -/
def checkRequest (t : Table) : Request → Except Error Unit
  | .qualified column => t.checkColumns [column]
  | .bare column => t.checkColumns [column]
  | .grouped [] => .error ⟨.noColumns t.name, []⟩
  | .grouped (column :: rest) => t.checkColumns (column :: rest)

def take (t : Table) (r : Request) : Reference × Table := t.reference r.key

/-- The reference that a request asks for, or why it is refused, with the table afterwards. -/
def takeChecked (t : Table) (r : Request) : Except Error Reference × Table :=
  match t.checkRequest r with
  | .error e => (.error e, t)
  | .ok () =>
    let (reference, t) := t.take r
    (.ok reference, t)

/-- A request carried out with or without a check before it. -/
def access (t : Table) (checked : Bool) (r : Request) : Except Error Reference × Table :=
  if checked then t.takeChecked r
  else
    let (reference, t) := t.take r
    (.ok reference, t)

end Table

end TableQuery
