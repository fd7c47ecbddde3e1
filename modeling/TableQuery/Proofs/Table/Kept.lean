import TableQuery.Proofs.Table.Validity
import TableQuery.Table.Reference

/-! # Kept references are as good as new ones

`Table.Faithful`: each reference that a table keeps is what its key is written as. It holds of a new
table and every access keeps it, so a reference does not depend on those taken before
(`Faithful.reference_text`). `Table.Checked` are the tables of valid definitions with any references
taken of them. -/

namespace TableQuery.Table

def Faithful (t : Table) : Prop := ∀ entry ∈ t.kept, entry.2 = entry.1.render t.name

theorem faithful_ofDefinition (d : Definition) : (ofDefinition d).Faithful := by
  simp [Faithful, ofDefinition]

@[simp] theorem definition_reference (t : Table) (key : ReferenceKey) :
    (t.reference key).2.definition = t.definition := by
  unfold reference
  split <;> rfl

@[simp] theorem columns_reference (t : Table) (key : ReferenceKey) :
    (t.reference key).2.columns = t.columns := by
  unfold reference
  split <;> rfl

@[simp] theorem name_reference (t : Table) (key : ReferenceKey) :
    (t.reference key).2.name = t.name := by simp [name]

namespace Faithful
variable {t : Table}

theorem reference_text (h : t.Faithful) (key : ReferenceKey) :
    (t.reference key).1.text = key.render t.name := by
  unfold reference
  split
  · rename_i place found
    obtain ⟨lt, same, -⟩ := List.findIdx?_eq_some_iff_getElem.mp found
    have entry := h t.kept[place] (List.getElem_mem lt)
    rw [eq_of_beq same] at entry
    simp [List.getElem?_eq_getElem lt, entry]
  · rfl

theorem reference (h : t.Faithful) (key : ReferenceKey) : (t.reference key).2.Faithful := by
  unfold Table.reference
  split
  · exact h
  · intro entry hentry
    rcases List.mem_append.mp hentry with hentry | hentry
    · exact h entry hentry
    · obtain rfl := List.mem_singleton.mp hentry
      rfl

end Faithful

/-- A table of a valid definition, whatever references were taken of it, checked or not. -/
inductive Checked : Table → Prop where
  | built {d : Definition} {t : Table} (h : ofValid d = .ok t) : Checked t
  | taken {t : Table} (h : Checked t) (r : Request) : Checked (t.take r).2

theorem ofValid_eq_ok_iff {d : Definition} {t : Table} :
    ofValid d = .ok t ↔ d.validate = .ok () ∧ t = ofDefinition d := check_bind_pure_eq_ok_iff

namespace Checked
variable {t : Table}

theorem faithful (h : t.Checked) : t.Faithful := by
  induction h with
  | built h =>
    obtain ⟨-, rfl⟩ := ofValid_eq_ok_iff.mp h
    exact faithful_ofDefinition _
  | taken _ r ih => exact ih.reference r.key

theorem identifiers (h : t.Checked) :
    isIdentifier t.name = true ∧ ∀ column ∈ t.columns, isIdentifier column = true := by
  induction h with
  | built h =>
    obtain ⟨valid, rfl⟩ := ofValid_eq_ok_iff.mp h
    have parts := Definition.validate_eq_ok_iff.mp valid
    exact ⟨parts.name, parts.columns⟩
  | taken _ r ih => simpa [take] using ih

end Checked

def Request.columns : Request → List String
  | .qualified column => [column]
  | .bare column => [column]
  | .grouped columns => columns

/-- Names are refused at the first one that is no column. -/
theorem checkColumns_eq (t : Table) (names : List String) :
    t.checkColumns names = match names.find? (· ∉ t.columns) with
      | none => .ok ()
      | some name => .error ⟨.undeclaredColumn name t.name, []⟩ := by
  induction names with
  | nil => rfl
  | cons name rest ih =>
    rw [checkColumns, ih]
    by_cases declared : name ∈ t.columns <;> simp [hasColumn, declared]

theorem checkColumns_eq_ok_iff {t : Table} {names : List String} :
    t.checkColumns names = .ok () ↔ ∀ name ∈ names, name ∈ t.columns := by
  have all : names.find? (· ∉ t.columns) = none ↔ ∀ name ∈ names, name ∈ t.columns := by simp
  rw [checkColumns_eq, ← all]
  cases names.find? (· ∉ t.columns) <;> simp

theorem checkRequest_eq_ok_iff {t : Table} {r : Request} :
    t.checkRequest r = .ok () ↔ r.columns ≠ [] ∧ ∀ column ∈ r.columns, column ∈ t.columns := by
  cases r with
  | qualified column => exact checkColumns_eq_ok_iff.trans (by simp [Request.columns])
  | bare column => exact checkColumns_eq_ok_iff.trans (by simp [Request.columns])
  | grouped columns =>
    cases columns with
    | nil => simp [checkRequest, Request.columns]
    | cons column rest => exact checkColumns_eq_ok_iff.trans (by simp [Request.columns])

theorem takeChecked_eq_ok_iff {t t' : Table} {r : Request} {reference : Reference} :
    t.takeChecked r = (.ok reference, t') ↔
      (r.columns ≠ [] ∧ ∀ column ∈ r.columns, column ∈ t.columns) ∧ (reference, t') = t.take r := by
  rw [← checkRequest_eq_ok_iff, takeChecked]
  cases t.checkRequest r with
  | error e => simp
  | ok u => simp [Prod.ext_iff, eq_comm]

/-- What an access can do: it may be refused and change nothing, or take a reference. -/
theorem access_cases (t : Table) (checked : Bool) (r : Request) :
    (∃ e, checked = true ∧ t.checkRequest r = .error e ∧ t.access checked r = (.error e, t)) ∨
      ((checked = true → t.checkRequest r = .ok ()) ∧
        t.access checked r = (.ok (t.take r).1, (t.take r).2)) := by
  cases checked with
  | false => exact .inr ⟨nofun, rfl⟩
  | true =>
    cases request : t.checkRequest r with
    | error e => exact .inl ⟨e, rfl, rfl, by simp [access, takeChecked, request]⟩
    | ok u => exact .inr ⟨fun _ => rfl, by simp [access, takeChecked, request]⟩

namespace Checked
variable {t t' : Table} {r : Request} {reference : Reference}

theorem text_of_taken (h : t.Checked) (taken : t.takeChecked r = (.ok reference, t')) :
    reference.text = r.key.render t.name := by
  rw [← h.faithful.reference_text r.key]
  exact congrArg (fun p => p.1.text) (takeChecked_eq_ok_iff.mp taken).2

theorem isIdentifier_of_taken (h : t.Checked) (taken : t.takeChecked r = (.ok reference, t')) :
    ∀ column ∈ r.columns, isIdentifier column = true := fun column hc =>
  h.identifiers.2 column ((takeChecked_eq_ok_iff.mp taken).1.2 column hc)

end Checked

end TableQuery.Table
