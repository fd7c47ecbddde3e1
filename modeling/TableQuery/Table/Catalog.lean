import TableQuery.Table.Reference

/-! # Several tables in use

A catalog numbers tables in the order in which they were added. Two references from it are the same
shared text if and only if they come from the same table and place. -/

namespace TableQuery

/-- A reference with the number of its table. -/
structure SharedReference where
  table : Nat
  reference : Reference
deriving DecidableEq, Repr

structure Catalog where
  tables : List Table := []
deriving DecidableEq

namespace Catalog

/-- Adds a table; its number is the count of tables before. -/
def add (c : Catalog) (t : Table) : Nat × Catalog := (c.tables.length, ⟨c.tables ++ [t]⟩)

/-- One access to a table's references, checked or not. -/
structure Call where
  table : Nat
  request : Table.Request
  checked : Bool
deriving DecidableEq, Repr

/-- The answer of an access, and the catalog with what the access leaves of its table. There is no answer
for a number that no table has. -/
def call (c : Catalog) (a : Call) : Option (Except Error SharedReference) × Catalog :=
  match c.tables[a.table]? with
  | none => (none, c)
  | some t =>
    let (answer, t) := t.access a.checked a.request
    (some (answer.map (⟨a.table, ·⟩)), ⟨c.tables.set a.table t⟩)

def run (c : Catalog) : List Call → List (Option (Except Error SharedReference)) × Catalog
  | [] => ([], c)
  | a :: rest =>
    let (answer, c) := c.call a
    let (answers, c) := c.run rest
    (answer :: answers, c)

end Catalog

end TableQuery
