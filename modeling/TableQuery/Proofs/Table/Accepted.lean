import TableQuery.Proofs.Json.Written
import TableQuery.Proofs.Table.Fields
import TableQuery.Proofs.Table.Validity

/-! # Which JSON values are definitions

The verdicts on columns, foreign keys and definitions accept the values that stand for them, so from
every text of a value a definition is read if and only if the value stands for it. -/

namespace TableQuery

open Json

namespace Column

theorem verdictMember_eq_ok_iff (read read' : List Column) (m : String × Document) :
    verdictMember read m = .ok read' ↔
      m.1 ∉ read.map (·.name) ∧ ∃ clause, m.2.text? = some clause ∧ read' = ⟨m.1, clause⟩ :: read := by
  have repeated : read.any (·.name == m.1) = true ↔ m.1 ∈ read.map (·.name) := by simp
  simp only [verdictMember, bind_eq_ok_iff, accepts_text.iff, repeated]
  by_cases h : m.1 ∈ read.map (·.name)
  · simp [h]
  · simp [h, pure, Except.pure, @eq_comm _ read']

/-- Columns are read on as long as their names are new and their clauses are texts. -/
theorem foldlM_verdictMember_eq_ok_iff (ms : List (String × Document)) (read out : List Column) :
    ms.foldlM verdictMember read = .ok out ↔
      ((ms.map (·.1)).Nodup ∧ ∀ n ∈ ms.map (·.1), n ∉ read.map (·.name)) ∧
      ∃ columns, ms.mapM (fun (name, d) => d.text?.map (Column.mk name)) = some columns ∧
        out = columns.reverse ++ read := by
  induction ms generalizing read out with
  | nil => simp [pure, Except.pure, eq_comm]
  | cons m ms ih =>
    obtain ⟨key, d⟩ := m
    rw [List.foldlM_cons, bind_eq_ok_iff, List.map_cons, nodup_cons_and_apart_iff, List.mapM_cons]
    simp only [verdictMember_eq_ok_iff, ih]
    constructor
    · rintro ⟨_, ⟨new, clause, text, rfl⟩, ⟨nodup, apart⟩, columns, all, rfl⟩
      exact ⟨⟨new, nodup, apart⟩, ⟨key, clause⟩ :: columns, by simp [text, all], by simp⟩
    · rintro ⟨⟨new, nodup, apart⟩, columns, all, rfl⟩
      simp only [Option.bind_eq_bind, Option.bind_eq_some_iff, Option.map_eq_some_iff] at all
      obtain ⟨_, ⟨clause, text, rfl⟩, columns, all, done⟩ := all
      obtain rfl := Option.some.inj done
      exact ⟨_, ⟨new, clause, text, rfl⟩, ⟨nodup, apart⟩, columns, all, by simp⟩

theorem accepts_verdict : Accepts verdict listOfDocument? := by
  intro d columns
  cases d with
  | object ms =>
    simp only [verdict, listOfDocument?, bind_eq_ok_iff, foldlM_verdictMember_eq_ok_iff]
    by_cases nodup : (ms.map (·.1)).Nodup
    · simp only [nodup, if_true, pure, Except.pure, Except.ok.injEq]
      constructor
      · rintro ⟨_, ⟨-, columns, all, rfl⟩, rfl⟩
        simpa using all
      · intro all
        exact ⟨columns.reverse, ⟨by simp, columns, all, by simp⟩, by simp⟩
    · simp [nodup]
  | _ => simp [verdict, listOfDocument?]

end Column

namespace ForeignKey

theorem accepts_verdictKeys : Accepts verdictKeys (Document.list? Document.text?) := accepts_text.list

theorem foldlM_verdictMember_eq_ok_iff (ms : List (String × Document)) (f f' : Fields) :
    ms.foldlM verdictMember f = .ok f' ↔
      gather "keys" (Document.list? Document.text?) ms f.keys = some f'.keys ∧
        gather "ref" Document.text? ms f.reference = some f'.reference := by
  induction ms generalizing f with
  | nil =>
    cases f
    cases f'
    simp [gather, pure, Except.pure]
  | cons m ms ih =>
    obtain ⟨key, d⟩ := m
    rw [List.foldlM_cons, verdictMember]
    split
    · obtain rfl : key = "keys" := ‹_›
      rw [gather_cons_self, gather_cons_ne (by decide), set_bind_eq_ok_iff accepts_verdictKeys]
      simp only [ih]
      grind
    split
    · obtain rfl : key = "ref" := ‹_›
      rw [gather_cons_self, gather_cons_ne (by decide), set_bind_eq_ok_iff accepts_text]
      simp only [ih]
      grind
    · rw [gather_cons_ne ‹_›, gather_cons_ne ‹_›]
      exact ih f

theorem verdictMembers_eq_ok_iff (ms : List (String × Document)) (k : ForeignKey) :
    verdictMembers ms = .ok k ↔ ofDocument? (.object ms) = some k := by
  simp only [verdictMembers, ofDocument?, bind_eq_ok_iff, foldlM_verdictMember_eq_ok_iff,
    filled_eq_ok_iff, Option.bind_eq_bind, Option.bind_eq_some_iff, exists_single?_iff,
    pure, Except.pure, Except.ok.injEq, Option.some.injEq]
  constructor
  · rintro ⟨⟨_, _⟩, ⟨found, found'⟩, keys, rfl, reference, rfl, done⟩
    exact ⟨keys, found, reference, found', done⟩
  · rintro ⟨keys, found, reference, found', done⟩
    exact ⟨⟨some keys, some reference⟩, ⟨found, found'⟩, keys, rfl, reference, rfl, done⟩

theorem verdictElements_eq_ok_iff (ds : List Document) (k : ForeignKey) :
    verdictElements ds = .ok k ↔ ofDocument? (.array ds) = some k := by
  simp only [verdictElements, bind_eq_ok_iff, filled_eq_ok_iff, finished_eq_ok_iff]
  match ds with
  | [] => simp [place_nil_eq_ok_iff, ofDocument?]
  | [keys] => simp [place_nil_eq_ok_iff, ofDocument?]
  | [keys, reference] =>
    simp [place_cons_eq_ok_iff accepts_verdictKeys, place_cons_eq_ok_iff accepts_text, ofDocument?,
      Option.bind_eq_some_iff, pure, Except.pure]
  | _ :: _ :: _ :: _ => simp [ofDocument?]

theorem accepts_verdict : Accepts verdict ofDocument? := by
  intro d k
  cases d with
  | object ms => exact verdictMembers_eq_ok_iff ms k
  | array ds => exact verdictElements_eq_ok_iff ds k
  | _ => simp [verdict, Verdict.compound, ofDocument?]

end ForeignKey

namespace Definition

theorem accepts_verdictPrimaryKeys : Accepts verdictPrimaryKeys keysOfDocument? :=
  accepts_text.list.optional

theorem accepts_verdictForeignKeys : Accepts verdictForeignKeys foreignKeysOfDocument? :=
  ForeignKey.accepts_verdict.list

/-- The members are read to the end if they are all known and each field can be gathered from them. -/
theorem foldlM_verdictMember_eq_ok_iff (ms : List (String × Document)) (f f' : Fields) :
    ms.foldlM verdictMember f = .ok f' ↔
      (∀ m ∈ ms, m.1 ∈ fieldNames) ∧
      gather "name" Document.text? ms f.name = some f'.name ∧
      gather "schema" Column.listOfDocument? ms f.columns = some f'.columns ∧
      gather "primaryKeys" keysOfDocument? ms f.primaryKeys = some f'.primaryKeys ∧
      gather "foreignKeys" foreignKeysOfDocument? ms f.foreignKeys = some f'.foreignKeys ∧
      gather "withoutRowID" Document.boolean? ms f.withoutRowid = some f'.withoutRowid := by
  induction ms generalizing f with
  | nil =>
    cases f
    cases f'
    simp [gather, pure, Except.pure]
  | cons m ms ih =>
    obtain ⟨key, d⟩ := m
    rw [List.foldlM_cons, verdictMember, List.forall_mem_cons]
    -- by the key: one field takes the value, and no other is gathered from it
    split
    · obtain rfl : key = "name" := ‹_›
      have known : "name" ∈ fieldNames := by decide
      rw [set_bind_eq_ok_iff accepts_text, gather_cons_self]
      simp (disch := decide) only [gather_cons_ne, ih]
      grind
    split
    · obtain rfl : key = "schema" := ‹_›
      have known : "schema" ∈ fieldNames := by decide
      rw [set_bind_eq_ok_iff Column.accepts_verdict, gather_cons_self]
      simp (disch := decide) only [gather_cons_ne, ih]
      grind
    split
    · obtain rfl : key = "primaryKeys" := ‹_›
      have known : "primaryKeys" ∈ fieldNames := by decide
      rw [set_bind_eq_ok_iff accepts_verdictPrimaryKeys, gather_cons_self]
      simp (disch := decide) only [gather_cons_ne, ih]
      grind
    split
    · obtain rfl : key = "foreignKeys" := ‹_›
      have known : "foreignKeys" ∈ fieldNames := by decide
      rw [set_bind_eq_ok_iff accepts_verdictForeignKeys, gather_cons_self]
      simp (disch := decide) only [gather_cons_ne, ih]
      grind
    split
    · obtain rfl : key = "withoutRowID" := ‹_›
      have known : "withoutRowID" ∈ fieldNames := by decide
      rw [set_bind_eq_ok_iff accepts_boolean, gather_cons_self]
      simp (disch := decide) only [gather_cons_ne, ih]
      grind
    · have unknown : key ∉ fieldNames := by simp_all [fieldNames]
      simp [unknown, bind, Except.bind]

theorem verdictMembers_eq_ok_iff (ms : List (String × Document)) (d : Definition) :
    verdictMembers ms = .ok d ↔ ofDocument? (.object ms) = some d := by
  have known : (ms.all fun (key, _) => fieldNames.contains key) = true ↔ ∀ m ∈ ms, m.1 ∈ fieldNames := by
    simp
  simp only [verdictMembers, ofDocument?, ofMembers?, bind_eq_ok_iff, foldlM_verdictMember_eq_ok_iff,
    filled_eq_ok_iff, Option.bind_eq_bind, Option.bind_eq_some_iff, exists_single?_iff,
    atMostOne?_eq_some_iff, pure, Except.pure, Except.ok.injEq, Option.some.injEq,
    Option.guard_eq_some', known]
  constructor
  · rintro ⟨⟨_, _, keys, foreign, rowid⟩, ⟨all, found₁, found₂, found₃, found₄, found₅⟩,
      name, rfl, columns, rfl, done⟩
    exact ⟨(), all, name, found₁, columns, found₂, _, ⟨keys, found₃, rfl⟩, _, ⟨foreign, found₄, rfl⟩,
      _, ⟨rowid, found₅, rfl⟩, done⟩
  · rintro ⟨-, all, name, found₁, columns, found₂, _, ⟨keys, found₃, rfl⟩, _, ⟨foreign, found₄, rfl⟩,
      _, ⟨rowid, found₅, rfl⟩, done⟩
    exact ⟨⟨some name, some columns, keys, foreign, rowid⟩,
      ⟨all, found₁, found₂, found₃, found₄, found₅⟩, name, rfl, columns, rfl, done⟩

theorem verdictElements_eq_ok_iff (ds : List Document) (d : Definition) :
    verdictElements ds = .ok d ↔ ofDocument? (.array ds) = some d := by
  simp only [verdictElements, bind_eq_ok_iff, filled_eq_ok_iff, finished_eq_ok_iff]
  match ds with
  | [] => simp [place_nil_eq_ok_iff, ofDocument?, ofElements?]
  | [name] => simp [place_nil_eq_ok_iff, ofDocument?, ofElements?]
  | name :: columns :: more =>
    have short : more.tail.tail.tail = [] ↔ more.length ≤ 3 := by
      rw [← List.length_eq_zero_iff]
      simp
      omega
    have second : more[1]? = more.tail[0]? := by simp
    have third : more[2]? = more.tail.tail[0]? := by simp
    simp only [List.tail_cons, ofDocument?, ofElements?, second, third, place_cons_eq_ok_iff accepts_text,
      place_cons_eq_ok_iff Column.accepts_verdict, Option.bind_eq_bind, Option.bind_eq_some_iff,
      Option.guard_eq_some', getD_place_eq_some_iff accepts_verdictPrimaryKeys,
      getD_place_eq_some_iff accepts_verdictForeignKeys, getD_place_eq_some_iff accepts_boolean, short,
      pure, Except.pure, Except.ok.injEq, Option.some.injEq]
    constructor
    · rintro ⟨_, ⟨name, found₁, rfl⟩, _, ⟨⟩, _, ⟨columns, found₂, rfl⟩, _, ⟨⟩, keys, found₃,
        foreign, found₄, rowid, found₅, -, short, done⟩
      exact ⟨(), short, name, found₁, columns, found₂, _, ⟨keys, found₃, rfl⟩,
        _, ⟨foreign, found₄, rfl⟩, _, ⟨rowid, found₅, rfl⟩, done⟩
    · rintro ⟨-, short, name, found₁, columns, found₂, _, ⟨keys, found₃, rfl⟩,
        _, ⟨foreign, found₄, rfl⟩, _, ⟨rowid, found₅, rfl⟩, done⟩
      exact ⟨_, ⟨name, found₁, rfl⟩, name, rfl, _, ⟨columns, found₂, rfl⟩, columns, rfl, keys, found₃,
        foreign, found₄, rowid, found₅, (), short, done⟩

theorem accepts_verdict : Accepts verdict ofDocument? := by
  intro d k
  cases d with
  | object ms => exact verdictMembers_eq_ok_iff ms k
  | array ds => exact verdictElements_eq_ok_iff ds k
  | _ => simp [verdict, Verdict.compound, ofDocument?]

/-- From a text of a JSON value a definition is read if the value stands for one, and it is the one
that the value stands for. -/
theorem ofJson_eq_ok_iff {text : String} {value : Document} (h : IsText text value) (d : Definition) :
    ofJson text = .ok d ↔ ofDocument? value = some d := by
  rw [ofJson, follows_read.readWhole_eq_ok_iff h, accepts_verdict.iff]

/-- Fields out of order, and a foreign key with a member that is passed over. -/
def ledger : Document :=
  .object [("schema", .object [("id", .text "int"), ("owner", .text "text")]),
    ("foreignKeys", .array [.object [("note", .array [.null, .object []]), ("ref", .text "users(name)"),
      ("keys", .array [.text "owner"])]]),
    ("name", .text "ledger")]

theorem ofJson_ledger :
    IsText (String.ofList ledger.write) ledger ∧
      ofJson (String.ofList ledger.write) =
        .ok ⟨"ledger", [⟨"id", "int"⟩, ⟨"owner", "text"⟩], none, [⟨["owner"], "users(name)"⟩], false⟩ := by
  have columns := written_object
    (.cons ((written_text "int").member "id") (.cons ((written_text "text").member "owner") .nil))
  have note := written_array (.cons written_null (.cons (written_object .nil) .nil))
  have keys := written_array (.cons (written_text "owner") .nil)
  have foreign := written_object (.cons (note.member "note")
    (.cons ((written_text "users(name)").member "ref") (.cons (keys.member "keys") .nil)))
  have written : Written ledger.write ledger :=
    written_object (.cons (columns.member "schema")
      (.cons ((written_array (.cons foreign .nil)).member "foreignKeys")
        (.cons ((written_text "ledger").member "name") .nil)))
  exact ⟨written.isText, (ofJson_eq_ok_iff written.isText _).mpr rfl⟩

end Definition

end TableQuery
