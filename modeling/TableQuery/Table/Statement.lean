import TableQuery.Table.Definition

/-! # The statement that creates a table

The clauses are the columns, then the primary key unless it is empty, then the foreign keys; one
comma stands between neighbours. Names and clauses are written as they are given. -/

namespace TableQuery.Definition

def columnClause (c : Column) : String := c.name ++ " " ++ c.clause

def primaryClause (keys : List String) : String := "PRIMARY KEY(" ++ commaJoined keys ++ ")"

def foreignClause (k : ForeignKey) : String :=
  "FOREIGN KEY(" ++ commaJoined k.keys ++ ") REFERENCES " ++ k.reference

/-- No clause is written for an absent or empty primary key. -/
def primaryClauses (d : Definition) : List String :=
  match d.primaryKeys with
  | none => []
  | some [] => []
  | some (key :: keys) => [primaryClause (key :: keys)]

def clauses (d : Definition) : List String :=
  d.columns.map columnClause ++ d.primaryClauses ++ d.foreignKeys.map foreignClause

def statement (d : Definition) : String :=
  "CREATE TABLE IF NOT EXISTS " ++ d.name ++ " (" ++ commaJoined d.clauses ++ ")" ++
    (if d.withoutRowid then " WITHOUT ROWID" else "")

end TableQuery.Definition
