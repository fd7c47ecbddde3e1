import TableQuery.Json.Writer
import TableQuery.Table.Definition

/-! # Definitions as JSON values

Which JSON values stand for a definition, and for which one, said of the value as a whole. -/

namespace TableQuery

open Json (Document)

namespace Json.Document

def text? : Document → Option String
  | .text s => some s
  | _ => none

def boolean? : Document → Option Bool
  | .boolean b => some b
  | _ => none

/-- The elements of an array that all stand for something. -/
def list? {α : Type} (element? : Document → Option α) : Document → Option (List α)
  | .array ds => ds.mapM element?
  | _ => none

/-- `null` or a value that stands for something. -/
def optional? {α : Type} (value? : Document → Option α) : Document → Option (Option α)
  | .null => some none
  | d => (value? d).map some

/-- The value of the one member `key`. -/
def single? (members : List (String × Document)) (key : String) : Option Document :=
  match members.filter (·.1 == key) with
  | [(_, d)] => some d
  | _ => none

/-- What the member `key` stands for, or the default without it; it may not be repeated. -/
def atMostOne? {α : Type} (members : List (String × Document)) (key : String) (default : α)
    (value? : Document → Option α) : Option α :=
  match members.filter (·.1 == key) with
  | [] => some default
  | [(_, d)] => value? d
  | _ => none

end Json.Document

/-- An object of clauses with distinct keys. -/
def Column.listOfDocument? : Document → Option (List Column)
  | .object members =>
    if (members.map (·.1)).Nodup then members.mapM fun (name, d) => d.text?.map (Column.mk name)
    else none
  | _ => none

/-- An object with two members, any others aside, or an array of the two. -/
def ForeignKey.ofDocument? : Document → Option ForeignKey
  | .object members => do
    let keys ← (← Document.single? members "keys").list? Document.text?
    let reference ← (← Document.single? members "ref").text?
    return ⟨keys, reference⟩
  | .array [keys, reference] => do return ⟨← keys.list? Document.text?, ← reference.text?⟩
  | _ => none

namespace Definition

def keysOfDocument? : Document → Option (Option (List String)) :=
  Document.optional? (Document.list? Document.text?)

def foreignKeysOfDocument? : Document → Option (List ForeignKey) :=
  Document.list? ForeignKey.ofDocument?

/-- An object of the five members, the last three of which may be missing, and no others. -/
def ofMembers? (members : List (String × Document)) : Option Definition := do
  guard (members.all fun (key, _) => fieldNames.contains key)
  let name ← (← Document.single? members "name").text?
  let columns ← Column.listOfDocument? (← Document.single? members "schema")
  let primaryKeys ← Document.atMostOne? members "primaryKeys" none keysOfDocument?
  let foreignKeys ← Document.atMostOne? members "foreignKeys" [] foreignKeysOfDocument?
  let withoutRowid ← Document.atMostOne? members "withoutRowID" false Document.boolean?
  return ⟨name, columns, primaryKeys, foreignKeys, withoutRowid⟩

/-- An array of two to five values, the fields in order. -/
def ofElements? : List Document → Option Definition
  | name :: columns :: more => do
    guard (more.length ≤ 3)
    let name ← name.text?
    let columns ← Column.listOfDocument? columns
    let primaryKeys ← (more[0]?.map keysOfDocument?).getD (some none)
    let foreignKeys ← (more[1]?.map foreignKeysOfDocument?).getD (some [])
    let withoutRowid ← (more[2]?.map Document.boolean?).getD (some false)
    return ⟨name, columns, primaryKeys, foreignKeys, withoutRowid⟩
  | _ => none

/-- The definition that a JSON value stands for. -/
def ofDocument? : Document → Option Definition
  | .object members => ofMembers? members
  | .array elements => ofElements? elements
  | _ => none

end Definition

end TableQuery
