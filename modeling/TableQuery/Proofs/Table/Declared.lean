import TableQuery.Proofs.Table.Shared
import TableQuery.Proofs.Table.Violations

/-! # Declared columns

A checked access to a table is the access without a check, except that it is refused if a name that it
is given is no column of the table, and then nothing changes. A list of names that is only looked up is
refused in the same way. A definition is checked against the same columns: its keys add those that are
not declared to what is wrong with it, after all else (`violations_eq_append`).
`Catalog.checked_access_agrees` puts these together for a table in any state. -/

namespace TableQuery

namespace Table
variable {t t' : Table} {names names' : List String} {r : Request} {reference : Reference} {e : Error}

theorem checkColumns_eq_error_iff : t.checkColumns names = .error e ↔
    ∃ name, names.find? (· ∉ t.columns) = some name ∧ e = ⟨.undeclaredColumn name t.name, []⟩ := by
  rw [checkColumns_eq]
  cases names.find? (· ∉ t.columns) <;> simp [eq_comm]

theorem checkRequest_eq_error_iff : t.checkRequest r = .error e ↔
    r.columns = [] ∧ e = ⟨.noColumns t.name, []⟩ ∨
      ∃ name, r.columns.find? (· ∉ t.columns) = some name ∧ e = ⟨.undeclaredColumn name t.name, []⟩ := by
  cases r with
  | qualified column => exact checkColumns_eq_error_iff.trans (by simp [Request.columns])
  | bare column => exact checkColumns_eq_error_iff.trans (by simp [Request.columns])
  | grouped columns =>
    cases columns with
    | nil => simp [checkRequest, Request.columns, eq_comm]
    | cons column rest => exact checkColumns_eq_error_iff.trans (by simp [Request.columns])

theorem takeChecked_eq_error_iff :
    t.takeChecked r = (.error e, t') ↔ t.checkRequest r = .error e ∧ t' = t := by
  rw [takeChecked]
  cases t.checkRequest r with
  | error e' => simp [eq_comm]
  | ok u => simp

theorem takeChecked_qualified_eq_ok_iff {column : String} :
    t.takeChecked (.qualified column) = (.ok reference, t') ↔
      column ∈ t.columns ∧ (reference, t') = t.qualified column :=
  takeChecked_eq_ok_iff.trans (and_congr_left' (by simp [Request.columns]))

theorem takeChecked_bare_eq_ok_iff {column : String} :
    t.takeChecked (.bare column) = (.ok reference, t') ↔ column ∈ t.columns ∧ (reference, t') = t.bare column :=
  takeChecked_eq_ok_iff.trans (and_congr_left' (by simp [Request.columns]))

theorem declared_eq_ok_iff :
    t.declared names = .ok names' ↔ (∀ name ∈ names, name ∈ t.columns) ∧ names' = names :=
  check_bind_pure_eq_ok_iff.trans (and_congr_left' checkColumns_eq_ok_iff)

theorem declared_eq_error_iff : t.declared names = .error e ↔ t.checkColumns names = .error e :=
  check_bind_pure_eq_error_iff

end Table

/-! ### Names of key columns -/

theorem firstOf_eq_ok_iff {causes : List ErrorCause} : firstOf causes = .ok () ↔ causes = [] := by
  cases causes <;> simp [firstOf]

namespace Definition
variable {d : Definition} {e : Error}

def withoutKeys (d : Definition) : Definition := { d with primaryKeys := none, foreignKeys := [] }

/-- The key columns in order, each with the clause in which it stands. -/
def keyColumns (d : Definition) : List (KeyClause × String) :=
  (d.primaryKeys.getD []).map (.primary, ·) ++ (d.foreignKeys.flatMap (·.keys)).map (.foreign, ·)

/-- What the keys of a definition add to its violations. -/
def undeclaredKeys (d : Definition) : List ErrorCause :=
  (d.keyColumns.filter (·.2 ∉ d.columnNames)).map fun (clause, key) => .undeclaredKey clause key d.name

theorem violations_withoutKeys (d : Definition) : d.withoutKeys.violations =
    nameViolations d.name .table ++
      d.columnNames.zipIdx.flatMap fun (name, i) => columnViolations d.name (d.columnNames.take i) name := by
  simp [violations, withoutKeys, keyViolations, columnNames]

theorem violations_eq_append (d : Definition) : d.violations = d.withoutKeys.violations ++ d.undeclaredKeys := by
  have keys : d.undeclaredKeys = d.keyViolations .primary (d.primaryKeys.getD []) ++
      d.keyViolations .foreign (d.foreignKeys.flatMap (·.keys)) := by
    simp [undeclaredKeys, keyColumns, keyViolations, List.filter_map, Function.comp_def]
  rw [keys, violations_withoutKeys, violations, List.append_assoc]

theorem validate_eq_bind (d : Definition) :
    d.validate = d.withoutKeys.validate >>= fun _ => firstOf d.undeclaredKeys := by
  rw [validate_eq_first, violations_eq_append, firstOf_append, ← validate_eq_first]

theorem kind_of_mem_nameViolations {name : String} {bearer : Bearer} {cause : ErrorCause}
    (h : cause ∈ nameViolations name bearer) : cause.kind = .invalidIdentifier := by
  unfold nameViolations at h
  split at h
  · cases h
  · obtain rfl := List.mem_singleton.mp h
    rfl

theorem kind_of_mem_columnViolations {table name : String} {earlier : List String} {cause : ErrorCause}
    (h : cause ∈ columnViolations table earlier name) :
    cause.kind = .invalidIdentifier ∨ cause.kind = .duplicateColumn := by
  rcases List.mem_append.mp h with h | h
  · exact .inl (kind_of_mem_nameViolations h)
  · split at h
    · obtain rfl := List.mem_singleton.mp h
      exact .inr rfl
    · cases h

/-- Without keys no column is missing, whatever else is wrong. -/
theorem kind_of_withoutKeys (h : d.withoutKeys.validate = .error e) : e.kind ≠ .missingColumn := by
  rw [validate_eq_first, firstOf_eq_error_iff, violations_withoutKeys] at h
  obtain ⟨cause, first, rfl⟩ := h
  intro missing
  replace missing : cause.kind = .missingColumn := missing
  rcases List.mem_append.mp (List.mem_of_mem_head? first) with h | h
  · simp [kind_of_mem_nameViolations h] at missing
  · obtain ⟨column, -, h⟩ := List.mem_flatMap.mp h
    rcases kind_of_mem_columnViolations h with kind | kind <;> simp [kind] at missing

theorem validate_eq_ok_iff_keys : d.validate = .ok () ↔
    d.withoutKeys.validate = .ok () ∧ ∀ key ∈ d.keyColumns, key.2 ∈ d.columnNames := by
  rw [validate_eq_bind, check_bind_eq_ok_iff, undeclaredKeys, firstOf_eq_ok_iff, List.map_eq_nil_iff,
    List.filter_eq_nil_iff]
  simp

/-- A column is missing if names and columns are as they should be and some key is not declared; the
error names the first of them. -/
theorem validate_eq_missingColumn_iff : d.validate = .error e ∧ e.kind = .missingColumn ↔
    d.withoutKeys.validate = .ok () ∧ ∃ clause key,
      d.keyColumns.find? (·.2 ∉ d.columnNames) = some (clause, key) ∧
      e = ⟨.undeclaredKey clause key d.name, []⟩ := by
  rw [validate_eq_bind]
  cases rest : d.withoutKeys.validate with
  | error e' =>
    have other : e'.kind ≠ .missingColumn := kind_of_withoutKeys rest
    simp only [bind, Except.bind, Except.error.injEq, reduceCtorEq, false_and, iff_false, not_and]
    rintro rfl
    exact other
  | ok u =>
    simp only [bind, Except.bind, firstOf_eq_error_iff, undeclaredKeys, List.head?_map, List.head?_filter]
    cases d.keyColumns.find? (·.2 ∉ d.columnNames) with
    | none => simp
    | some key =>
      obtain ⟨clause, key⟩ := key
      have kind (h : e = ⟨.undeclaredKey clause key d.name, []⟩) : e.kind = .missingColumn := h ▸ rfl
      simpa [and_assoc] using kind

end Definition

namespace Catalog
variable {c : Catalog} {i : Nat} {t t' : Table} {r : Table.Request}

theorem call_of_takeChecked_ok (found : c.tables[i]? = some t) {reference : Reference}
    (taken : t.takeChecked r = (.ok reference, t')) :
    c.call ⟨i, r, true⟩ = (some (.ok ⟨i, reference⟩), ⟨c.tables.set i t'⟩) ∧
      c.call ⟨i, r, false⟩ = c.call ⟨i, r, true⟩ := by
  obtain ⟨-, same⟩ := Table.takeChecked_eq_ok_iff.mp taken
  simp [call, found, Table.access, taken, ← same, Except.map]

theorem call_of_takeChecked_error (found : c.tables[i]? = some t) {e : Error}
    (refused : t.takeChecked r = (.error e, t')) : c.call ⟨i, r, true⟩ = (some (.error e), c) := by
  obtain ⟨-, rfl⟩ := Table.takeChecked_eq_error_iff.mp refused
  simp [call, found, Table.access, refused, Except.map, set_of_getElem? found]

/-- A definition whose primary key goes on to a column that it does not have. -/
def shelf : Definition := ⟨"shelf", [⟨"id", "int"⟩, ⟨"title", "text"⟩], some ["id", "author"], [], false⟩

/-- The table of `shelf` after a reference to the column that it does not have. -/
def shelfInUse : Table := ((Table.ofDefinition shelf).take (.qualified "author")).2

end Catalog

end TableQuery
