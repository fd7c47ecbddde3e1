import TableQuery.Json.Writer
import TableQuery.Table.Definition

/-! # Definitions written in JSON

An object with the name, the columns as an object, the primary key unless it is absent, the foreign
keys unless there are none, and whether rows go without identifiers. -/

namespace TableQuery

open Json (writeArray writeBoolean writeObject writeText)

def ForeignKey.write (k : ForeignKey) : List Char :=
  writeObject [("keys", writeArray (k.keys.map writeText)), ("ref", writeText k.reference)]

namespace Definition

def writtenMembers (d : Definition) : List (String × List Char) :=
  [("name", writeText d.name),
    ("schema", writeObject (d.columns.map fun c => (c.name, writeText c.clause)))] ++
  (match d.primaryKeys with
    | none => []
    | some keys => [("primaryKeys", writeArray (keys.map writeText))]) ++
  (if d.foreignKeys.isEmpty then []
    else [("foreignKeys", writeArray (d.foreignKeys.map ForeignKey.write))]) ++
  [("withoutRowID", writeBoolean d.withoutRowid)]

def write (d : Definition) : List Char := writeObject d.writtenMembers

def toJson (d : Definition) : String := String.ofList d.write

def listToJson (ds : List Definition) : String := String.ofList (writeArray (ds.map write))

end Definition

end TableQuery
