import TableQuery.Table.Validity

/-! # What a valid definition is made of

`Definition.Valid` says it without the order of the checks; `validate` accepts just the definitions
that have it (`validate_eq_ok_iff`). -/

namespace TableQuery

theorem checkIdentifier_eq_ok_iff {name : String} {bearer : Option Bearer} :
    checkIdentifier name bearer = .ok () ↔ isIdentifier name = true := by
  unfold checkIdentifier
  split <;> simp [*]

/-- The characters of an identifier, the first included, are such as continue one. -/
theorem continuesIdentifier_of_mem {name : String} (h : isIdentifier name = true) :
    ∀ c ∈ name.toList, continuesIdentifier c = true := by
  unfold isIdentifier at h
  cases eq : name.toList with
  | nil => simp
  | cons c cs =>
    rw [eq] at h
    obtain ⟨first, rest⟩ : startsIdentifier c = true ∧ ∀ d ∈ cs, continuesIdentifier d = true := by
      simpa using h
    intro d hd
    rcases List.mem_cons.mp hd with rfl | hd
    · simp [continuesIdentifier, first]
    · exact rest d hd

theorem ne_empty_of_isIdentifier {name : String} (h : isIdentifier name = true) : name ≠ "" := by
  rintro rfl
  exact absurd h (by decide)

theorem nodup_cons_and_apart_iff {names before : List String} {key : String} :
    ((key :: names).Nodup ∧ ∀ n ∈ key :: names, n ∉ before) ↔
      key ∉ before ∧ names.Nodup ∧ ∀ n ∈ names, n ∉ key :: before := by
  rw [List.nodup_cons, List.forall_mem_cons]
  grind

namespace Definition
variable {d : Definition}

structure Valid (d : Definition) : Prop where
  name : isIdentifier d.name = true
  columns : ∀ name ∈ d.columnNames, isIdentifier name = true
  distinct : d.columnNames.Nodup
  primary : ∀ key ∈ d.primaryKeys.getD [], key ∈ d.columnNames
  foreign : ∀ k ∈ d.foreignKeys, ∀ key ∈ k.keys, key ∈ d.columnNames

theorem checkColumns_eq_ok_iff {table : String} {seen : List String} {columns : List Column} :
    checkColumns table seen columns = .ok () ↔ (∀ c ∈ columns, isIdentifier c.name = true) ∧
      (columns.map (·.name)).Nodup ∧ ∀ name ∈ columns.map (·.name), name ∉ seen := by
  induction columns generalizing seen with
  | nil => simp [checkColumns]
  | cons c rest ih =>
    rw [checkColumns, check_bind_eq_ok_iff, List.map_cons, nodup_cons_and_apart_iff, List.forall_mem_cons]
    constructor
    · rintro ⟨identifier, h⟩
      split at h
      · cases h
      · rename_i new
        obtain ⟨identifiers, distinct⟩ := ih.mp h
        exact ⟨⟨checkIdentifier_eq_ok_iff.mp identifier, identifiers⟩, by simpa using new, distinct⟩
    · rintro ⟨⟨identifier, identifiers⟩, new, distinct⟩
      refine ⟨checkIdentifier_eq_ok_iff.mpr identifier, ?_⟩
      rw [if_neg (by simpa using new)]
      exact ih.mpr ⟨identifiers, distinct⟩

theorem checkKeys_eq_ok_iff {clause : KeyClause} {keys : List String} :
    d.checkKeys clause keys = .ok () ↔ ∀ key ∈ keys, key ∈ d.columnNames := by
  induction keys with
  | nil => simp [checkKeys]
  | cons key rest ih =>
    rw [checkKeys, List.forall_mem_cons, ← ih]
    by_cases declared : key ∈ d.columnNames <;> simp [hasColumn, declared]

theorem validate_eq_ok_iff : d.validate = .ok () ↔ d.Valid := by
  simp only [validate, check_bind_eq_ok_iff, checkIdentifier_eq_ok_iff, checkColumns_eq_ok_iff,
    checkKeys_eq_ok_iff]
  constructor
  · rintro ⟨name, ⟨columns, distinct, -⟩, primary, foreign⟩
    exact ⟨name, by simpa [columnNames] using columns, distinct, primary, fun k hk key hkey =>
      foreign key (List.mem_flatMap.mpr ⟨k, hk, hkey⟩)⟩
  · intro h
    refine ⟨h.name, ⟨by simpa [columnNames] using h.columns, h.distinct, by simp⟩, h.primary,
      fun key hkey => ?_⟩
    obtain ⟨k, hk, hkey⟩ := List.mem_flatMap.mp hkey
    exact h.foreign k hk key hkey

end Definition

end TableQuery
