import TableQuery.Proofs.Table.Kept

/-! # All that is wrong with a definition

`Definition.violations` lists what is wrong with a definition: its name, then column after column the
name by itself and as the repetition of an earlier one, then the keys that are not declared. The checks
stop at the first of the list (`validate_eq_first`). -/

namespace TableQuery

/-- A name of ASCII letters, ASCII digits and underscores that does not start with a digit. -/
structure WellNamed (name : String) : Prop where
  filled : name ≠ ""
  plain : ∀ c ∈ name.toList, c.isAlphanum = true ∨ c = '_'
  start : ∀ c ∈ name.toList.head?, c.isDigit = false

theorem isAlpha_iff {c : Char} :
    c.isAlpha = true ↔ 65 ≤ c.toNat ∧ c.toNat ≤ 90 ∨ 97 ≤ c.toNat ∧ c.toNat ≤ 122 := by
  have ranges : c.isAlpha =
      (decide (c.val ≥ 'A'.val ∧ c.val ≤ 'Z'.val) || decide (c.val ≥ 'a'.val) && decide (c.val ≤ 'z'.val)) := rfl
  simp only [ranges, Bool.or_eq_true, Bool.and_eq_true, decide_eq_true_eq, UInt32.le_iff_toNat_le, ge_iff_le]
  exact Iff.rfl

theorem isDigit_eq_false_of_isAlpha {c : Char} (h : c.isAlpha = true) : c.isDigit = false := by
  have letter := isAlpha_iff.mp h
  simp only [Char.isDigit, Bool.and_eq_false_iff, decide_eq_false_iff_not, UInt32.le_iff_toNat_le, ge_iff_le]
  change ¬48 ≤ c.toNat ∨ ¬c.toNat ≤ 57
  omega

theorem startsIdentifier_iff (c : Char) : startsIdentifier c = true ↔ c.isAlpha = true ∨ c = '_' := by
  have letter : isAsciiLetter c = c.isAlpha := by
    rw [Bool.eq_iff_iff, isAlpha_iff, isAsciiLetter]
    simp only [Bool.or_eq_true, Bool.and_eq_true, decide_eq_true_eq, Char.le_def, UInt32.le_iff_toNat_le]
    exact or_comm
  rw [startsIdentifier, letter, Bool.or_eq_true, beq_iff_eq, or_comm]

theorem continuesIdentifier_iff (c : Char) :
    continuesIdentifier c = true ↔ c.isAlphanum = true ∨ c = '_' := by
  have digit : (decide ('0' ≤ c) && decide (c ≤ '9')) = c.isDigit := by simp [Char.isDigit, Char.le_def]
  rw [continuesIdentifier, digit, Bool.or_eq_true, startsIdentifier_iff, Char.isAlphanum, Bool.or_eq_true,
    or_right_comm]

theorem isIdentifier_iff {name : String} : isIdentifier name = true ↔ WellNamed name := by
  unfold isIdentifier
  cases eq : name.toList with
  | nil =>
    refine ⟨nofun, fun h => absurd ?_ h.filled⟩
    rw [← String.toList_inj, eq]
    rfl
  | cons c cs =>
    simp only [Bool.and_eq_true, List.all_eq_true, startsIdentifier_iff, continuesIdentifier_iff]
    constructor
    · rintro ⟨first, others⟩
      refine ⟨?_, ?_, ?_⟩
      · rintro rfl
        cases eq
      · rw [eq, List.forall_mem_cons]
        refine ⟨?_, others⟩
        simp only [Char.isAlphanum, Bool.or_eq_true]
        exact first.imp_left .inl
      · simp only [eq, List.head?_cons, Option.mem_some, forall_eq']
        rcases first with letter | rfl
        · exact isDigit_eq_false_of_isAlpha letter
        · rfl
    · rintro ⟨-, plain, start⟩
      rw [eq, List.forall_mem_cons] at plain
      have noDigit : c.isDigit = false := start c (by simp [eq])
      refine ⟨?_, plain.2⟩
      simpa [Char.isAlphanum, noDigit] using plain.1

instance : DecidablePred WellNamed := fun _ => decidable_of_iff _ isIdentifier_iff

example : WellNamed "_1" ∧ ¬WellNamed "1_" ∧ ¬WellNamed "name\n" ∧ ¬WellNamed "größe" := by decide

/-- What checks give that stop at the first violation. -/
def firstOf : List ErrorCause → Except Error Unit
  | [] => .ok ()
  | cause :: _ => .error ⟨cause, []⟩

theorem firstOf_append (causes causes' : List ErrorCause) :
    firstOf (causes ++ causes') = firstOf causes >>= fun _ => firstOf causes' := by
  cases causes <;> rfl

theorem firstOf_eq_error_iff {causes : List ErrorCause} {e : Error} :
    firstOf causes = .error e ↔ ∃ cause, causes.head? = some cause ∧ e = ⟨cause, []⟩ := by
  cases causes <;> simp [firstOf, eq_comm]

def nameViolations (name : String) (bearer : Bearer) : List ErrorCause :=
  if WellNamed name then [] else [.invalidIdentifier name (some bearer)]

theorem checkIdentifier_eq_first (name : String) (bearer : Bearer) :
    checkIdentifier name (some bearer) = firstOf (nameViolations name bearer) := by
  unfold checkIdentifier nameViolations
  simp only [isIdentifier_iff]
  split <;> rfl

namespace Definition

/-- A column's name, when those in `earlier` come before it. -/
def columnViolations (table : String) (earlier : List String) (name : String) : List ErrorCause :=
  nameViolations name (.column table) ++ if name ∈ earlier then [.duplicateColumn name table] else []

def keyViolations (d : Definition) (clause : KeyClause) (keys : List String) : List ErrorCause :=
  (keys.filter (· ∉ d.columnNames)).map fun key => .undeclaredKey clause key d.name

/-- All that is wrong with a definition, in the order of the checks. -/
def violations (d : Definition) : List ErrorCause :=
  nameViolations d.name .table ++
  (d.columnNames.zipIdx.flatMap fun (name, i) => columnViolations d.name (d.columnNames.take i) name) ++
  d.keyViolations .primary (d.primaryKeys.getD []) ++
  d.keyViolations .foreign (d.foreignKeys.flatMap (·.keys))

/-- Columns after those named in `earlier`, which `seen` holds in any order. -/
theorem checkColumns_eq_first (table : String) (columns : List Column) {earlier seen : List String}
    (same : ∀ name, name ∈ seen ↔ name ∈ earlier) :
    checkColumns table seen columns =
      firstOf (((columns.map (·.name)).zipIdx earlier.length).flatMap fun (name, i) =>
        columnViolations table ((earlier ++ columns.map (·.name)).take i) name) := by
  induction columns generalizing earlier seen with
  | nil => rfl
  | cons c rest ih =>
    have later := @ih (earlier ++ [c.name]) (c.name :: seen) (by simp [same, or_comm])
    simp only [List.length_append, List.length_singleton, List.append_assoc, List.singleton_append] at later
    rw [checkColumns, checkIdentifier_eq_first, List.map_cons, List.zipIdx_cons, List.flatMap_cons,
      firstOf_append, ← later]
    simp only [columnViolations, List.take_left, firstOf_append, bind_assoc]
    by_cases again : c.name ∈ earlier <;> simp only [List.contains_iff_mem, same, again, if_true, if_false] <;> rfl

theorem checkKeys_eq_first (d : Definition) (clause : KeyClause) (keys : List String) :
    d.checkKeys clause keys = firstOf (d.keyViolations clause keys) := by
  induction keys with
  | nil => rfl
  | cons key rest ih =>
    rw [checkKeys, ih]
    by_cases declared : key ∈ d.columnNames <;> simp [hasColumn, keyViolations, declared, firstOf]

theorem validate_eq_first (d : Definition) : d.validate = firstOf d.violations := by
  have same (name : String) : name ∈ ([] : List String) ↔ name ∈ ([] : List String) := Iff.rfl
  have columns := checkColumns_eq_first d.name d.columns same
  rw [validate, checkIdentifier_eq_first, columns, checkKeys_eq_first, checkKeys_eq_first, violations,
    firstOf_append, firstOf_append, firstOf_append, bind_assoc, bind_assoc]
  rfl

theorem ofValid_eq_error_iff {d : Definition} {e : Error} :
    Table.ofValid d = .error e ↔ d.validate = .error e := check_bind_pure_eq_error_iff

/-- The repetition of `b` comes before the column without a name, and all columns before the keys. -/
example : violations { name := "notes", columns := [⟨"b", ""⟩, ⟨"b", ""⟩, ⟨"", ""⟩], primaryKeys := some ["c"] } =
    [.duplicateColumn "b" "notes", .invalidIdentifier "" (some (.column "notes")),
      .undeclaredKey .primary "c" "notes"] := by decide

end Definition

end TableQuery
