import TableQuery.Json.Shape
import TableQuery.Json.Skip
import TableQuery.Table.Definition

/-! # Reading definitions from JSON

A definition is an object with the members of `Definition.fieldNames` in any order, each at most once
and no others, or an array of their values in that order. The name and the columns have to be there.
A foreign key is an object with two members, any others being passed over, or an array of the two. -/

namespace TableQuery

open Json

/-- The columns after the opening brace of their object; `read` holds those before, last first. -/
def Column.readMember (read : List Column) (key : String) : Reader (List Column) := fun cs => do
  let (clause, cs) ← memberValue key readText cs
  if read.any (·.name == key) then .error (.leaving (.repeatedColumn key) cs)
  else return (⟨key, clause⟩ :: read, cs)

/-- An object of clauses by column name; a name that comes again is refused. -/
def Column.readAll : Reader (List Column) :=
  startingAt fun c rest =>
    if c = '\x7b' then do
      let (read, rest) ← members Column.readMember [] rest
      return (read.reverse, rest)
    else refuse "an object mapping column names to type clauses" c rest

def readField {α : Type} (name : String) (old : Option α) (value : Reader α) : Reader α := fun cs =>
  if old.isSome then .error (.leaving (.repeatedField name) cs) else memberValue name value cs

/-- The value of a field that has to be there, when the object has been read up to `rest`. -/
def requireField {α : Type} (name : String) (rest : List Char) : Option α → Except Fault α
  | some a => .ok a
  | none => .error (.before (.missingField name) rest)

namespace ForeignKey

def readKeys : Reader (List String) := readList readText

structure Fields where
  keys : Option (List String) := none
  reference : Option String := none

def readMember (f : Fields) (key : String) : Reader Fields := fun cs =>
  if key = "keys" then do
    let (keys, cs) ← readField key f.keys readKeys cs
    return ({ f with keys := some keys }, cs)
  else if key = "ref" then do
    let (reference, cs) ← readField key f.reference readText cs
    return ({ f with reference := some reference }, cs)
  else do
    let ((), cs) ← memberValue key skipValue cs
    return (f, cs)

def readObject : Reader ForeignKey := fun cs => do
  let (f, rest) ← members readMember {} cs
  let keys ← requireField "keys" rest f.keys
  let reference ← requireField "ref" rest f.reference
  return (⟨keys, reference⟩, rest)

def readArray : Reader ForeignKey := fun cs => do
  let wanted := "struct ForeignKeyConstraint with 2 elements"
  let (keys, places) ← placeAt 0 readKeys (.inside cs)
  let keys ← required 0 wanted places keys
  let (reference, places) ← placeAt 1 readText places
  let reference ← required 1 wanted places reference
  return (⟨keys, reference⟩, ← places.close)

def read : Reader ForeignKey :=
  startingAt fun c rest =>
    if c = '\x7b' then readObject rest
    else if c = '[' then readArray rest
    else refuse "struct ForeignKeyConstraint" c rest

end ForeignKey

namespace Definition

structure Fields where
  name : Option String := none
  columns : Option (List Column) := none
  primaryKeys : Option (Option (List String)) := none
  foreignKeys : Option (List ForeignKey) := none
  withoutRowid : Option Bool := none

def readPrimaryKeys : Reader (Option (List String)) := readOptional (readList readText)

def readForeignKeys : Reader (List ForeignKey) := readList ForeignKey.read

def readMember (f : Fields) (key : String) : Reader Fields := fun cs =>
  if key = "name" then do
    let (name, cs) ← readField key f.name readText cs
    return ({ f with name := some name }, cs)
  else if key = "schema" then do
    let (columns, cs) ← readField key f.columns Column.readAll cs
    return ({ f with columns := some columns }, cs)
  else if key = "primaryKeys" then do
    let (keys, cs) ← readField key f.primaryKeys readPrimaryKeys cs
    return ({ f with primaryKeys := some keys }, cs)
  else if key = "foreignKeys" then do
    let (keys, cs) ← readField key f.foreignKeys readForeignKeys cs
    return ({ f with foreignKeys := some keys }, cs)
  else if key = "withoutRowID" then do
    let (b, cs) ← readField key f.withoutRowid readBoolean cs
    return ({ f with withoutRowid := some b }, cs)
  else .error ((Fault.leaving (.unknownField key fieldNames) cs).within (.member key))

/-- The definition of the fields read; the three that may be missing have defaults. -/
def ofFields (name : String) (columns : List Column) (f : Fields) : Definition :=
  ⟨name, columns, f.primaryKeys.getD none, f.foreignKeys.getD [], f.withoutRowid.getD false⟩

def readObject : Reader Definition := fun cs => do
  let (f, rest) ← members readMember {} cs
  let name ← requireField "name" rest f.name
  let columns ← requireField "schema" rest f.columns
  return (ofFields name columns f, rest)

def readArray : Reader Definition := fun cs => do
  let wanted := "struct TableOptions with 5 elements"
  let (name, places) ← placeAt 0 readText (.inside cs)
  let name ← required 0 wanted places name
  let (columns, places) ← placeAt 1 Column.readAll places
  let columns ← required 1 wanted places columns
  let (primaryKeys, places) ← placeAt 2 readPrimaryKeys places
  let (foreignKeys, places) ← placeAt 3 readForeignKeys places
  let (withoutRowid, places) ← placeAt 4 readBoolean places
  return (ofFields name columns { primaryKeys, foreignKeys, withoutRowid }, ← places.close)

def read : Reader Definition :=
  startingAt fun c rest =>
    if c = '\x7b' then readObject rest
    else if c = '[' then readArray rest
    else refuse "struct TableOptions" c rest

def readAll : Reader (List Definition) := readList read

/-- The definition that a text holds, with nothing but blanks around it. -/
def ofJson (text : String) : Except Complaint Definition := readWhole read text

/-- The definitions that a text holds as an array, with nothing but blanks around it. -/
def listOfJson (text : String) : Except Complaint (List Definition) := readWhole readAll text

/-- The definitions of the array that a text starts with, whatever follows it. -/
def listOfJsonStart (text : String) : Except Complaint (List Definition) := readFirst readAll text

end Definition

end TableQuery
