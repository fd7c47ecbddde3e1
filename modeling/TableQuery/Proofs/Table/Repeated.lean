import TableQuery.Proofs.Command.Start
import TableQuery.Proofs.Table.RoundTrip

/-! # Definitions that repeat a column

A text may be a definition's but for the columns, which stand in one place of its value
(`SchemaPlace`). The columns decide: they are taken over if their names are distinct, and else the
reader stops at the first name that repeats an earlier one. -/

namespace TableQuery

open Json

/-- A definition's value without its columns: they stand among the members of an object, or after the
name in an array. -/
inductive SchemaPlace where
  | member (before after : List (String × Document))
  | element (name : Document) (more : List Document)

def SchemaPlace.fill : SchemaPlace → Document → Document
  | .member before after, schema => .object (before ++ ("schema", schema) :: after)
  | .element name more, schema => .array (name :: schema :: more)

section
variable {key : String} {before after : List (String × Document)} {schema : Document}

theorem filter_fill (ne : "schema" ≠ key) :
    (before ++ ("schema", schema) :: after).filter (·.1 == key) = (before ++ after).filter (·.1 == key) := by
  simp [ne]

theorem single?_fill (ne : "schema" ≠ key) :
    Document.single? (before ++ ("schema", schema) :: after) key = Document.single? (before ++ after) key := by
  simp only [Document.single?, filter_fill ne]

theorem atMostOne?_fill {α : Type} (ne : "schema" ≠ key) (default : α) (value? : Document → Option α) :
    Document.atMostOne? (before ++ ("schema", schema) :: after) key default value? =
      Document.atMostOne? (before ++ after) key default value? := by
  simp only [Document.atMostOne?, filter_fill ne]

/-- The schema is found in its place if there is no other. -/
theorem single?_fill_schema :
    Document.single? (before ++ ("schema", schema) :: after) "schema" =
      if (before ++ after).filter (·.1 == "schema") = [] then some schema else none := by
  rw [Document.single?, List.filter_append, List.filter_cons_of_pos (by rfl), List.filter_append]
  generalize before.filter (·.1 == "schema") = earlier
  generalize after.filter (·.1 == "schema") = later
  rcases earlier with _ | ⟨first, _ | ⟨second, others⟩⟩
  · cases later <;> rfl
  · simp
  · simp

end

namespace Definition
variable {place : SchemaPlace} {schema schema' : Document} {columns : List Column} {d : Definition}

theorem ofMembers?_fill {before after : List (String × Document)}
    (accepted : ofMembers? (before ++ ("schema", schema) :: after) = some d)
    (read : Column.listOfDocument? schema' = some columns) :
    ofMembers? (before ++ ("schema", schema') :: after) = some { d with columns } := by
  simp (disch := decide) only [ofMembers?, List.all_append, List.all_cons, single?_fill, atMostOne?_fill,
    single?_fill_schema, Option.bind_eq_bind, Option.bind_eq_some_iff] at accepted ⊢
  obtain ⟨u, all, nameValue, first, name, isName, _, alone, _, _, keys, isKeys, foreign, isForeign, rowid, isRowid,
    done⟩ := accepted
  cases done
  have nothing : (before ++ after).filter (·.1 == "schema") = [] := by
    by_contra more
    rw [if_neg more] at alone
    cases alone
  exact ⟨u, all, nameValue, first, name, isName, schema', by rw [if_pos nothing], columns, read, keys, isKeys, foreign,
    isForeign, rowid, isRowid, rfl⟩

theorem ofElements?_fill {name : Document} {more : List Document}
    (accepted : ofElements? (name :: schema :: more) = some d)
    (read : Column.listOfDocument? schema' = some columns) :
    ofElements? (name :: schema' :: more) = some { d with columns } := by
  simp only [ofElements?, Option.bind_eq_bind, Option.bind_eq_some_iff] at accepted ⊢
  obtain ⟨u, short, name, isName, _, _, keys, isKeys, foreign, isForeign, rowid, isRowid, done⟩ := accepted
  cases done
  exact ⟨u, short, name, isName, columns, read, keys, isKeys, foreign, isForeign, rowid, isRowid, rfl⟩

/-- Other columns in the place of those of an accepted value are taken over. -/
theorem ofDocument?_fill (accepted : ofDocument? (place.fill schema) = some d)
    (read : Column.listOfDocument? schema' = some columns) :
    ofDocument? (place.fill schema') = some { d with columns } := by
  cases place with
  | member before after => exact ofMembers?_fill accepted read
  | element name more => exact ofElements?_fill accepted read

/-- What is refused in the place of the columns of an accepted value is refused with its cause. -/
theorem verdict_fill {cause : Cause} (accepted : ofDocument? (place.fill schema) = some d)
    (refused : Column.verdict schema' = .error (some cause)) :
    verdict (place.fill schema') = .error (some cause) := by
  have read : verdict (place.fill schema) = .ok d := accepts_verdict.iff.mpr accepted
  cases place with
  | member before after =>
    obtain ⟨f, members, -⟩ := bind_eq_ok_iff.mp read
    rw [List.foldlM_append, bind_eq_ok_iff] at members
    obtain ⟨f, earlier, later⟩ := members
    rw [List.foldlM_cons, bind_eq_ok_iff] at later
    obtain ⟨f', member, -⟩ := later
    have first : f.columns.isSome = false := by
      refine Bool.eq_false_iff.mpr fun another => ?_
      simp [verdictMember, Verdict.field, another, bind, Except.bind] at member
    have stopped : verdictMember f ("schema", schema') = .error (some cause) := by
      simp [verdictMember, Verdict.field, first, refused, bind, Except.bind]
    have members' : (before ++ ("schema", schema') :: after).foldlM verdictMember {} = .error (some cause) := by
      rw [List.foldlM_append, earlier]
      change List.foldlM verdictMember f (("schema", schema') :: after) = _
      rw [List.foldlM_cons, stopped]
      rfl
    simp [SchemaPlace.fill, verdict, Verdict.compound, verdictMembers, members', bind, Except.bind]
  | element name more =>
    obtain ⟨found, isName, read⟩ := bind_eq_ok_iff.mp read
    obtain ⟨name, filled, -⟩ := bind_eq_ok_iff.mp read
    have isName' : Verdict.place Verdict.text (_ :: schema' :: more) = .ok found := isName
    have stopped : Verdict.place Column.verdict (schema' :: more) = .error (some cause) := by
      simp [Verdict.place, refused, bind, Except.bind]
    simp [SchemaPlace.fill, verdict, Verdict.compound, verdictElements, isName', filled, stopped, bind, Except.bind]

/-- A text that is a definition's but for its columns is read with these if their names are distinct. If
not, the reader stops at the first name that repeats an earlier one; the message tells that name, but the
error is one of JSON, not one of a column that is declared twice. -/
theorem ofJson_refuses_repeated_column {text : String}
    (is : IsText text (place.fill (.object (Column.documents columns))))
    (accepted : ofDocument? (place.fill schema) = some d) :
    (Column.Distinct columns → ofJson text = .ok { d with columns }) ∧
    (¬Column.Distinct columns → ∃ (name : String) (c : Complaint) (p : Position) (told : String),
      RepeatsFirst (columns.map (·.name)) name ∧ ofJson text = .error c ∧ readFirst read text = .error c ∧
      told = "duplicate column: column " ++ name ++ " is declared twice" ++
        " at line " ++ toString p.line ++ " column " ++ toString p.column ∧
      let library : Error := ⟨.json c false, []⟩
      let located : Error := ⟨.json c true, []⟩
      library.kind = .json ∧ library.message = "JSON formatting error " ++ told ∧
      located.kind = .json ∧ located.message = "JSON deserialization error " ++ c.way ++ told) := by
  constructor
  · intro distinct
    have columns? := Column.accepts_verdict.iff.mp (Column.verdict_documents distinct)
    exact (ofJson_eq_ok_iff is _).mpr (ofDocument?_fill accepted columns?)
  · intro repeated
    obtain ⟨name, first⟩ := exists_repeatsFirst repeated
    have refused := verdict_fill accepted (Column.verdict_documents_repeated first)
    obtain ⟨c, start, cause⟩ := follows_read.readFirst_eq_error is refused
    obtain ⟨p, message⟩ := exists_position_of_error start
    rw [cause] at message
    exact ⟨name, c, p, c.message, first, readWhole_of_readFirst_error start, start, message, rfl,
      Command.message_json c, rfl, Command.message_located_json c⟩

/-- Of the repeated names the second comes again first. -/
theorem ofJson_refuses_repeated_column_muddled :
    let place := SchemaPlace.member [("withoutRowID", .boolean true)] [("name", .text "muddled")]
    let value := place.fill (.object (Column.documents muddled.columns))
    let text := String.ofList value.write
    IsText text value ∧ (∃ d, ofDocument? (place.fill (.object [])) = some d) ∧
      ∃ c, ofJson text = .error c ∧ (⟨.json c false, []⟩ : Error).kind = .json := by
  intro place value text
  have columns : Written (writeObject (muddled.columns.map fun c => (c.name, writeText c.clause))) _ :=
    written_columns muddled.columns
  have written : Written value.write value :=
    written_object (.cons ((written_boolean true).member "withoutRowID")
      (.cons (columns.member "schema") (.cons ((written_text "muddled").member "name") .nil)))
  have accepted : ofDocument? (place.fill (.object [])) = some ⟨"muddled", [], none, [], true⟩ := rfl
  have repeated : ¬muddled.columnNames.Nodup := by decide
  obtain ⟨name, c, p, told, -, refused, -, -, kind, -⟩ :=
    (ofJson_refuses_repeated_column written.isText accepted).2 repeated
  exact ⟨written.isText, ⟨_, accepted⟩, c, refused, kind⟩

/-- Two keys that differ in their spelling only are one column, and the error is of another kind. -/
theorem repeated_column_is_no_duplicateColumn :
    let text := "\x7b\"name\":\"t\",\"schema\":\x7b\"a\":\"int\",\"\\u0061\":\"text\"\x7d\x7d"
    ∃ c, ofJson text = .error c ∧ c.cause = .repeatedColumn "a" ∧
      ∀ located, (⟨.json c located, []⟩ : Error).kind ≠ .duplicateColumn := by
  intro text
  have refused : ofJson text = .error ⟨.repeatedColumn "a", some ⟨1, 48⟩, [.member "schema"]⟩ := by decide +kernel
  exact ⟨_, refused, rfl, fun located => nofun⟩

end Definition

end TableQuery
