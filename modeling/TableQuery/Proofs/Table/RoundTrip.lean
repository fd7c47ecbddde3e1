import TableQuery.Proofs.Json.Written
import TableQuery.Proofs.Table.Distinct
import TableQuery.Table.Written

/-! # Definitions written and read back

A definition is written as a JSON value that stands for it as long as its columns are distinct.
Otherwise the columns are read up to the first name that repeats an earlier one, which the complaint
names. -/

namespace TableQuery

open Json

def ForeignKey.document (k : ForeignKey) : Document :=
  .object [("keys", .array (k.keys.map .text)), ("ref", .text k.reference)]

def Column.documents (columns : List Column) : List (String × Document) :=
  columns.map fun c => (c.name, .text c.clause)

namespace Definition

/-- The members that a definition is written as, after the name and the columns. -/
def laterMembers (d : Definition) : List (String × Document) :=
  (match d.primaryKeys with
    | none => []
    | some keys => [("primaryKeys", .array (keys.map .text))]) ++
  (if d.foreignKeys.isEmpty then []
    else [("foreignKeys", .array (d.foreignKeys.map ForeignKey.document))]) ++
  [("withoutRowID", .boolean d.withoutRowid)]

/-- The value that a definition is written as. -/
def document (d : Definition) : Document :=
  .object (("name", .text d.name) :: ("schema", .object (Column.documents d.columns)) :: d.laterMembers)

end Definition

theorem written_map {α : Type} {write : α → List Char} {document : α → Document}
    (h : ∀ a, Written (write a) (document a)) (as : List α) :
    Written (writeArray (as.map write)) (.array (as.map document)) := by
  refine written_array ?_
  rw [List.forall₂_map_left_iff, List.forall₂_map_right_iff, List.forall₂_same]
  exact fun a _ => h a

theorem written_columns (columns : List Column) :
    Written (writeObject (columns.map fun c => (c.name, writeText c.clause)))
      (.object (Column.documents columns)) := by
  refine written_object ?_
  rw [Column.documents, List.forall₂_map_left_iff, List.forall₂_map_right_iff, List.forall₂_same]
  exact fun c _ => (written_text c.clause).member c.name

theorem ForeignKey.written (k : ForeignKey) : Written k.write k.document :=
  written_object (.cons ((written_map written_text k.keys).member "keys")
    (.cons ((written_text k.reference).member "ref") .nil))

theorem Definition.written (d : Definition) : Written d.write d.document := by
  have rowid := (written_boolean d.withoutRowid).member "withoutRowID"
  refine written_object (.cons ((written_text d.name).member "name")
    (.cons ((written_columns d.columns).member "schema") ?_))
  refine List.rel_append (List.rel_append ?_ ?_) (.cons rowid .nil)
  · cases d.primaryKeys with
    | none => exact .nil
    | some keys => exact .cons ((written_map written_text keys).member "primaryKeys") .nil
  · split
    · exact .nil
    · exact .cons ((written_map ForeignKey.written d.foreignKeys).member "foreignKeys") .nil

theorem mapM_map_eq_pure {m : Type → Type} [Monad m] [LawfulMonad m] {α β : Type} {f : α → β} {g : β → m α}
    {as : List α} (h : ∀ a ∈ as, g (f a) = pure a) : (as.map f).mapM g = pure as := by
  induction as with
  | nil => rfl
  | cons a as ih => simp [h a (by simp), ih fun b hb => h b (by simp [hb])]

theorem list?_map {α : Type} {value? : Document → Option α} {document : α → Document}
    (h : ∀ a, value? (document a) = some a) (as : List α) :
    Document.list? value? (.array (as.map document)) = some as :=
  mapM_map_eq_pure fun a _ => h a

theorem list?_texts (texts : List String) :
    Document.list? Document.text? (.array (texts.map .text)) = some texts :=
  @list?_map _ Document.text? .text (fun _ => rfl) texts

namespace Column

theorem mapM_documents (columns : List Column) :
    (documents columns).mapM (fun (name, d) => d.text?.map (Column.mk name)) = some columns :=
  mapM_map_eq_pure fun _ _ => rfl

theorem names_documents (columns : List Column) : (documents columns).map (·.1) = columns.map (·.name) := by
  simp [documents, Function.comp_def]

theorem foldlM_documents {columns : List Column} (h : Distinct columns) :
    (documents columns).foldlM verdictMember [] = .ok columns.reverse := by
  rw [← List.append_nil columns.reverse, foldlM_verdictMember_eq_ok_iff, names_documents]
  exact ⟨⟨h, by simp⟩, columns, mapM_documents columns, rfl⟩

theorem verdict_documents {columns : List Column} (h : Distinct columns) :
    verdict (.object (documents columns)) = .ok columns := by
  simp [verdict, foldlM_documents h, pure, Except.pure, bind, Except.bind]

/-- Columns are refused for the first name that repeats an earlier one. -/
theorem verdict_documents_repeated {columns : List Column} {name : String}
    (h : RepeatsFirst (columns.map (·.name)) name) :
    verdict (.object (documents columns)) = .error (some (.repeatedColumn name)) := by
  obtain ⟨before, after, names, nodup, mem⟩ := h
  obtain ⟨read, others, rfl, rfl, eq⟩ := List.map_eq_append_iff.mp names
  obtain ⟨c, more, rfl, rfl, -⟩ := List.map_eq_cons_iff.mp eq
  have again : read.reverse.any (·.name == c.name) = true := by simpa using mem
  have step : verdictMember read.reverse (c.name, .text c.clause) =
      .error (some (.repeatedColumn c.name)) := by
    simp [verdictMember, Verdict.text, again, bind, Except.bind]
  have fold : (documents (read ++ c :: more)).foldlM verdictMember [] =
      .error (some (.repeatedColumn c.name)) := by
    rw [documents, List.map_append, List.foldlM_append, ← documents, foldlM_documents nodup,
      List.map_cons]
    simp [step, bind, Except.bind]
  simp [verdict, fold, bind, Except.bind]

end Column

theorem ForeignKey.ofDocument?_document (k : ForeignKey) : ofDocument? k.document = some k := by
  simp [document, ofDocument?, Document.single?, list?_texts, Document.text?]

theorem list?_foreignKeys (ks : List ForeignKey) :
    Document.list? ForeignKey.ofDocument? (.array (ks.map ForeignKey.document)) = some ks :=
  list?_map ForeignKey.ofDocument?_document ks

namespace Definition

theorem ofDocument?_document {d : Definition} (h : d.columnNames.Nodup) :
    ofDocument? d.document = some d := by
  have columns : Column.listOfDocument? (.object (Column.documents d.columns)) = some d.columns :=
    Column.accepts_verdict.iff.mp (Column.verdict_documents h)
  have foreign := list?_foreignKeys d.foreignKeys
  obtain ⟨name, cols, primaryKeys, foreignKeys, withoutRowid⟩ := d
  -- whether the two members that may be left out are there
  cases primaryKeys <;> by_cases empty : foreignKeys = [] <;>
    simp [document, laterMembers, ofDocument?, ofMembers?, fieldNames, Document.single?,
      Document.atMostOne?, Document.text?, Document.boolean?, keysOfDocument?, Document.optional?,
      foreignKeysOfDocument?, list?_texts, columns, foreign, empty]

theorem verdict_document {d : Definition} (h : d.columnNames.Nodup) : verdict d.document = .ok d :=
  accepts_verdict.iff.mpr (ofDocument?_document h)

theorem verdict_document_repeated {d : Definition} {name : String} (h : RepeatsFirst d.columnNames name) :
    verdict d.document = .error (some (.repeatedColumn name)) := by
  have columns := Column.verdict_documents_repeated h
  have first : verdictMember {} ("name", .text d.name) = .ok { name := some d.name } := rfl
  have second : verdictMember { name := some d.name } ("schema", .object (Column.documents d.columns)) =
      .error (some (.repeatedColumn name)) := by
    simp [verdictMember, Verdict.field, columns, bind, Except.bind]
  simp [document, verdict, Verdict.compound, verdictMembers, first, second, bind, Except.bind]

/-- Of definitions in a row, the first whose columns are not distinct is the one that is refused. -/
theorem mapM_verdict_repeated {good more : List Definition} {d : Definition} {name : String}
    (distinct : ∀ e ∈ good, e.columnNames.Nodup) (h : RepeatsFirst d.columnNames name) :
    ((good ++ d :: more).map document).mapM verdict = .error (some (.repeatedColumn name)) := by
  have before : (good.map document).mapM verdict = .ok good :=
    mapM_map_eq_pure fun e he => verdict_document (distinct e he)
  rw [List.map_append, List.mapM_append, before, List.map_cons, List.mapM_cons,
    verdict_document_repeated h]
  rfl

theorem isText_toJson (d : Definition) : IsText d.toJson d.document := d.written.isText

theorem isText_listToJson (ds : List Definition) : IsText (listToJson ds) (.array (ds.map document)) :=
  (written_map written ds).isText

theorem ofJson_toJson_of_nodup {d : Definition} (h : d.columnNames.Nodup) : ofJson d.toJson = .ok d :=
  (follows_read.readWhole_eq_ok_iff d.isText_toJson).mpr (verdict_document h)

theorem nodup_of_ofJson {text : String} {d : Definition} (h : ofJson text = .ok d) :
    d.columnNames.Nodup := returns_readWhole returns_read h

theorem listOfJson_listToJson_of_nodup {ds : List Definition} (h : ∀ d ∈ ds, d.columnNames.Nodup) :
    listOfJson (listToJson ds) = .ok ds :=
  (follows_readAll.readWhole_eq_ok_iff (isText_listToJson ds)).mpr
    (mapM_map_eq_pure fun d hd => verdict_document (h d hd))

theorem nodup_of_listOfJson {text : String} {ds : List Definition} (h : listOfJson text = .ok ds) :
    ∀ d ∈ ds, d.columnNames.Nodup := returns_readWhole (returns_readList returns_read) h

theorem ofJson_toJson_of_repeatsFirst {d : Definition} {name : String}
    (h : RepeatsFirst d.columnNames name) :
    ∃ c, ofJson d.toJson = .error c ∧ c.cause = .repeatedColumn name :=
  follows_read.readWhole_eq_error d.isText_toJson (verdict_document_repeated h)

theorem listOfJson_listToJson_of_repeatsFirst {good more : List Definition} {d : Definition} {name : String}
    (distinct : ∀ e ∈ good, e.columnNames.Nodup) (h : RepeatsFirst d.columnNames name) :
    ∃ c, listOfJson (listToJson (good ++ d :: more)) = .error c ∧ c.cause = .repeatedColumn name :=
  follows_readAll.readWhole_eq_error (isText_listToJson _) (mapM_verdict_repeated distinct h)

theorem exists_first_repeated {ds : List Definition} (h : ¬∀ d ∈ ds, d.columnNames.Nodup) :
    ∃ good d more, ds = good ++ d :: more ∧ (∀ e ∈ good, e.columnNames.Nodup) ∧ ¬d.columnNames.Nodup := by
  cases found : ds.find? fun d => !decide d.columnNames.Nodup with
  | none => exact absurd (by simpa using List.find?_eq_none.mp found) h
  | some d =>
    obtain ⟨bad, good, more, rfl, distinct⟩ := List.find?_eq_some_iff_append.mp found
    exact ⟨good, d, more, rfl, by simpa using distinct, by simpa using bad⟩

/-- A definition, or a list of them, is read back from what is written if and only if its columns are
distinct; if not, the complaint names the first column that repeats an earlier one. Whatever is read
from any text is read back as it is. -/
theorem toJson_round_trip :
    (∀ d : Definition, (ofJson d.toJson = .ok d ↔ d.columnNames.Nodup) ∧
      (¬d.columnNames.Nodup → ∃ c name, ofJson d.toJson = .error c ∧ c.cause = .repeatedColumn name ∧
        RepeatsFirst d.columnNames name)) ∧
    (∀ ds : List Definition,
      (listOfJson (listToJson ds) = .ok ds ↔ ∀ d ∈ ds, d.columnNames.Nodup) ∧
      ((¬∀ d ∈ ds, d.columnNames.Nodup) → ∃ c good d more name, ds = good ++ d :: more ∧
        (∀ e ∈ good, e.columnNames.Nodup) ∧ listOfJson (listToJson ds) = .error c ∧
        c.cause = .repeatedColumn name ∧ RepeatsFirst d.columnNames name)) ∧
    (∀ text d, ofJson text = .ok d → d.columnNames.Nodup ∧ ofJson d.toJson = .ok d) ∧
    (∀ text ds, listOfJson text = .ok ds →
      (∀ d ∈ ds, d.columnNames.Nodup) ∧ listOfJson (listToJson ds) = .ok ds) := by
  refine ⟨fun d => ⟨⟨nodup_of_ofJson, ofJson_toJson_of_nodup⟩, fun h => ?_⟩,
    fun ds => ⟨⟨nodup_of_listOfJson, listOfJson_listToJson_of_nodup⟩, fun h => ?_⟩,
    fun text d h => ?_, fun text ds h => ?_⟩
  · obtain ⟨name, first⟩ := exists_repeatsFirst h
    obtain ⟨c, refused, cause⟩ := ofJson_toJson_of_repeatsFirst first
    exact ⟨c, name, refused, cause, first⟩
  · obtain ⟨good, d, more, rfl, distinct, bad⟩ := exists_first_repeated h
    obtain ⟨name, first⟩ := exists_repeatsFirst bad
    obtain ⟨c, refused, cause⟩ := listOfJson_listToJson_of_repeatsFirst distinct first
    exact ⟨c, good, d, more, name, rfl, distinct, refused, cause, first⟩
  · have distinct := nodup_of_ofJson h
    exact ⟨distinct, ofJson_toJson_of_nodup distinct⟩
  · have distinct := nodup_of_listOfJson h
    exact ⟨distinct, listOfJson_listToJson_of_nodup distinct⟩

/-- Strings of all kinds, an empty primary key and a foreign key. -/
def diary : Definition :=
  ⟨"di\"ary", [⟨"day\n", "date"⟩, ⟨"größe", ""⟩], some [], [⟨["day\n"], "days(\\)"⟩], true⟩

/-- Two columns come again; the name of the second is the first to do so. -/
def muddled : Definition :=
  { name := "muddled", columns := [⟨"a", "int"⟩, ⟨"b", "int"⟩, ⟨"b", "text"⟩, ⟨"a", "text"⟩] }

theorem toJson_round_trip_diary :
    ofJson diary.toJson = .ok diary ∧
      (∃ c name, ofJson muddled.toJson = .error c ∧ c.cause = .repeatedColumn name ∧
        RepeatsFirst ["a", "b", "b", "a"] name) ∧
      listOfJson (listToJson [diary, diary]) = .ok [diary, diary] :=
  ⟨(toJson_round_trip.1 diary).1.mpr (by decide), (toJson_round_trip.1 muddled).2 (by decide),
    (toJson_round_trip.2.1 [diary, diary]).1.mpr (by decide)⟩

end Definition

end TableQuery
