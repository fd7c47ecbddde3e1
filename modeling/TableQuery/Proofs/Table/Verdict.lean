import TableQuery.Proofs.Json.Parts
import TableQuery.Table.Reader

/-! # Definitions read by their value

The verdicts on columns, foreign keys and definitions go through the members or elements of a value
as the readers go through the text, and the readers follow them. -/

namespace TableQuery

open Json

variable {α : Type} {cs rest : List Char}

namespace Json.Verdict

def field (name : String) (old : Option α) (value : Document → Verdict α) (d : Document) : Verdict α :=
  if old.isSome then .error (some (.repeatedField name)) else value d

end Json.Verdict

namespace Column

/-- One more column, in front of those before; its clause is read before its name is looked for. -/
def verdictMember (read : List Column) (m : String × Document) : Verdict (List Column) := do
  let clause ← Verdict.text m.2
  if read.any (·.name == m.1) then .error (some (.repeatedColumn m.1)) else return ⟨m.1, clause⟩ :: read

def verdict : Document → Verdict (List Column)
  | .object ms => do return (← ms.foldlM verdictMember []).reverse
  | _ => .error none

theorem follows_readMember : FollowsMember readMember verdictMember := by
  intro read key colon value d rest token spells
  refine (follows_memberValue key follows_readText token spells).bind ?_
  rintro clause _ rfl
  by_cases repeated : read.any (·.name == key)
  · simp only [if_pos repeated]
    exact ⟨_, rfl, cause_leaving _ _⟩
  · simp only [if_neg repeated]
    exact .pure rfl

theorem follows_readAll : Follows readAll verdict := by
  intro cs d rest spells
  obtain ⟨c, more, first, kind⟩ := spells.exists_first
  rw [readAll, startingAt_eq first]
  cases spells with
  | object token spells =>
    obtain ⟨rfl, rfl⟩ := token.eq_of_first rfl first
    rw [if_pos rfl]
    refine (gives_members follows_readMember [] spells).bind ?_
    rintro read _ rfl
    exact .pure rfl
  | _ =>
    have ne : c ≠ '\x7b' := by
      rintro rfl
      cases kind
    rw [if_neg ne]
    exact exists_refuse _ _ _

end Column

theorem gives_readField {read : Reader α} {verdict : Document → Verdict α} (h : Follows read verdict)
    (key : String) (old : Option α) {colon value : List Char} {d : Document}
    (token : Token ':' colon value) (spells : Spells value d rest) :
    Gives (Leaves rest) (Verdict.field key old verdict d) (readField key old read colon) := by
  unfold Verdict.field readField
  split
  · exact ⟨_, rfl, cause_leaving _ _⟩
  · exact follows_memberValue key h token spells

theorem gives_requireField (name : String) (a : Option α) :
    Gives (fun a b => b = a) (Verdict.filled a) (requireField name rest a) := by
  cases a with
  | none => exact ⟨_, rfl⟩
  | some a => exact .pure rfl

theorem follows_skipValue : Follows skipValue fun _ => .ok () :=
  fun _ _ _ spells => ⟨_, spells.skipValue, rfl⟩

namespace ForeignKey

def verdictKeys : Document → Verdict (List String) := Verdict.list Verdict.text

/-- One of the two members, or any other, which leaves no trace. -/
def verdictMember (f : Fields) (m : String × Document) : Verdict Fields :=
  if m.1 = "keys" then do
    return { f with keys := some (← Verdict.field m.1 f.keys verdictKeys m.2) }
  else if m.1 = "ref" then do
    return { f with reference := some (← Verdict.field m.1 f.reference Verdict.text m.2) }
  else .ok f

def verdictMembers (ms : List (String × Document)) : Verdict ForeignKey := do
  let f ← ms.foldlM verdictMember {}
  let keys ← Verdict.filled f.keys
  let reference ← Verdict.filled f.reference
  return ⟨keys, reference⟩

def verdictElements (ds : List Document) : Verdict ForeignKey := do
  let keys ← Verdict.filled (← Verdict.place verdictKeys ds)
  let reference ← Verdict.filled (← Verdict.place Verdict.text ds.tail)
  Verdict.finished ds.tail.tail
  return ⟨keys, reference⟩

def verdict : Document → Verdict ForeignKey := Verdict.compound verdictMembers verdictElements

theorem follows_readKeys : Follows readKeys verdictKeys := follows_readList follows_readText

theorem follows_readMember : FollowsMember readMember verdictMember := by
  intro f key colon value d rest token spells
  unfold readMember verdictMember
  split
  · refine (gives_readField follows_readKeys key f.keys token spells).bind ?_
    rintro keys _ rfl
    exact .pure rfl
  split
  · refine (gives_readField follows_readText key f.reference token spells).bind ?_
    rintro reference _ rfl
    exact .pure rfl
  · obtain ⟨_, skipped, rfl⟩ := follows_memberValue key follows_skipValue token spells
    rw [skipped]
    exact .pure rfl

theorem gives_readObject {ms : List (String × Document)} (spells : SpellsMembers true cs ms rest) :
    Gives (Leaves rest) (verdictMembers ms) (readObject cs) := by
  refine (gives_members follows_readMember {} spells).bind ?_
  rintro f _ rfl
  refine (gives_requireField "keys" f.keys).bind ?_
  rintro keys _ rfl
  refine (gives_requireField "ref" f.reference).bind ?_
  rintro reference _ rfl
  exact .pure rfl

theorem gives_readArray {ds : List Document} (elements : SpellsElements true cs ds rest) :
    Gives (Leaves rest) (verdictElements ds) (readArray cs) := by
  have hold : Places.Hold 0 (.inside cs) ds rest := .inside elements
  refine (hold.gives_placeAt follows_readKeys).bind ?_
  rintro _ ⟨keys, places⟩ ⟨rfl, hold⟩
  refine (gives_required 0 _ places keys).bind ?_
  rintro keys _ rfl
  refine (hold.gives_placeAt follows_readText).bind ?_
  rintro _ ⟨reference, places⟩ ⟨rfl, hold⟩
  refine (gives_required 1 _ places reference).bind ?_
  rintro reference _ rfl
  refine hold.gives_close.bind ?_
  rintro _ _ rfl
  exact .pure rfl

theorem follows_read : Follows read verdict :=
  follows_compound _ (fun _ _ _ => gives_readObject) (fun _ _ _ => gives_readArray)

end ForeignKey

namespace Definition

def verdictPrimaryKeys : Document → Verdict (Option (List String)) :=
  Verdict.optional (Verdict.list Verdict.text)

def verdictForeignKeys : Document → Verdict (List ForeignKey) := Verdict.list ForeignKey.verdict

def verdictMember (f : Fields) (m : String × Document) : Verdict Fields :=
  if m.1 = "name" then do
    return { f with name := some (← Verdict.field m.1 f.name Verdict.text m.2) }
  else if m.1 = "schema" then do
    return { f with columns := some (← Verdict.field m.1 f.columns Column.verdict m.2) }
  else if m.1 = "primaryKeys" then do
    return { f with primaryKeys := some (← Verdict.field m.1 f.primaryKeys verdictPrimaryKeys m.2) }
  else if m.1 = "foreignKeys" then do
    return { f with foreignKeys := some (← Verdict.field m.1 f.foreignKeys verdictForeignKeys m.2) }
  else if m.1 = "withoutRowID" then do
    return { f with withoutRowid := some (← Verdict.field m.1 f.withoutRowid Verdict.boolean m.2) }
  else .error (some (.unknownField m.1 fieldNames))

def verdictMembers (ms : List (String × Document)) : Verdict Definition := do
  let f ← ms.foldlM verdictMember {}
  let name ← Verdict.filled f.name
  let columns ← Verdict.filled f.columns
  return ofFields name columns f

def verdictElements (ds : List Document) : Verdict Definition := do
  let name ← Verdict.filled (← Verdict.place Verdict.text ds)
  let columns ← Verdict.filled (← Verdict.place Column.verdict ds.tail)
  let primaryKeys ← Verdict.place verdictPrimaryKeys ds.tail.tail
  let foreignKeys ← Verdict.place verdictForeignKeys ds.tail.tail.tail
  let withoutRowid ← Verdict.place Verdict.boolean ds.tail.tail.tail.tail
  Verdict.finished ds.tail.tail.tail.tail.tail
  return ofFields name columns { primaryKeys, foreignKeys, withoutRowid }

def verdict : Document → Verdict Definition := Verdict.compound verdictMembers verdictElements

theorem follows_readPrimaryKeys : Follows readPrimaryKeys verdictPrimaryKeys :=
  follows_readOptional (follows_readList follows_readText)

theorem follows_readForeignKeys : Follows readForeignKeys verdictForeignKeys :=
  follows_readList ForeignKey.follows_read

theorem follows_readMember : FollowsMember readMember verdictMember := by
  intro f key colon value d rest token spells
  unfold readMember verdictMember
  split
  · refine (gives_readField follows_readText key f.name token spells).bind ?_
    rintro name _ rfl
    exact .pure rfl
  split
  · refine (gives_readField Column.follows_readAll key f.columns token spells).bind ?_
    rintro columns _ rfl
    exact .pure rfl
  split
  · refine (gives_readField follows_readPrimaryKeys key f.primaryKeys token spells).bind ?_
    rintro keys _ rfl
    exact .pure rfl
  split
  · refine (gives_readField follows_readForeignKeys key f.foreignKeys token spells).bind ?_
    rintro keys _ rfl
    exact .pure rfl
  split
  · refine (gives_readField follows_readBoolean key f.withoutRowid token spells).bind ?_
    rintro b _ rfl
    exact .pure rfl
  · exact ⟨_, rfl, cause_leaving _ _⟩

theorem gives_readObject {ms : List (String × Document)} (spells : SpellsMembers true cs ms rest) :
    Gives (Leaves rest) (verdictMembers ms) (readObject cs) := by
  refine (gives_members follows_readMember {} spells).bind ?_
  rintro f _ rfl
  refine (gives_requireField "name" f.name).bind ?_
  rintro name _ rfl
  refine (gives_requireField "schema" f.columns).bind ?_
  rintro columns _ rfl
  exact .pure rfl

theorem gives_readArray {ds : List Document} (elements : SpellsElements true cs ds rest) :
    Gives (Leaves rest) (verdictElements ds) (readArray cs) := by
  have hold : Places.Hold 0 (.inside cs) ds rest := .inside elements
  refine (hold.gives_placeAt follows_readText).bind ?_
  rintro _ ⟨name, places⟩ ⟨rfl, hold⟩
  refine (gives_required 0 _ places name).bind ?_
  rintro name _ rfl
  refine (hold.gives_placeAt Column.follows_readAll).bind ?_
  rintro _ ⟨columns, places⟩ ⟨rfl, hold⟩
  refine (gives_required 1 _ places columns).bind ?_
  rintro columns _ rfl
  refine (hold.gives_placeAt follows_readPrimaryKeys).bind ?_
  rintro _ ⟨primaryKeys, places⟩ ⟨rfl, hold⟩
  refine (hold.gives_placeAt follows_readForeignKeys).bind ?_
  rintro _ ⟨foreignKeys, places⟩ ⟨rfl, hold⟩
  refine (hold.gives_placeAt follows_readBoolean).bind ?_
  rintro _ ⟨withoutRowid, places⟩ ⟨rfl, hold⟩
  refine hold.gives_close.bind ?_
  rintro _ _ rfl
  exact .pure rfl

theorem follows_read : Follows read verdict :=
  follows_compound _ (fun _ _ _ => gives_readObject) (fun _ _ _ => gives_readArray)

theorem follows_readAll : Follows readAll (Verdict.list verdict) := follows_readList follows_read

end Definition

end TableQuery
