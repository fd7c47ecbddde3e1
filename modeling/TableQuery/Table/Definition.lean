/-! # Table definitions

What a table is made of: columns with their clauses in order, the primary key if one is given, and
foreign keys. An absent primary key and an empty one are different definitions. -/

namespace TableQuery

/-- Names with one comma between neighbours. -/
def commaJoined (names : List String) : String := String.intercalate "," names

/-- A column and its type and constraints as they are to stand in the statement. -/
structure Column where
  name : String
  clause : String
deriving DecidableEq, Repr

/-- Key columns and the text of what they refer to. -/
structure ForeignKey where
  keys : List String
  reference : String
deriving DecidableEq, Repr

structure Definition where
  name : String
  columns : List Column := []
  primaryKeys : Option (List String) := none
  foreignKeys : List ForeignKey := []
  withoutRowid : Bool := false
deriving DecidableEq, Repr

namespace Definition

/-- The names of the fields in JSON, in order. -/
def fieldNames : List String := ["name", "schema", "primaryKeys", "foreignKeys", "withoutRowID"]

def addColumn (d : Definition) (name clause : String) : Definition :=
  { d with columns := d.columns ++ [⟨name, clause⟩] }

/-- Sets the primary key, in place of one set before. -/
def setPrimaryKeys (d : Definition) (keys : List String) : Definition :=
  { d with primaryKeys := some keys }

def addForeignKey (d : Definition) (keys : List String) (reference : String) : Definition :=
  { d with foreignKeys := d.foreignKeys ++ [⟨keys, reference⟩] }

def setWithoutRowid (d : Definition) (b : Bool) : Definition := { d with withoutRowid := b }

def columnNames (d : Definition) : List String := d.columns.map (·.name)

def hasColumn (d : Definition) (name : String) : Bool := d.columnNames.contains name

end Definition

end TableQuery
