import Mathlib.Data.List.Induction
import Mathlib.Data.List.Nodup
import TableQuery.Proofs.Json.Returned
import TableQuery.Proofs.Table.Accepted

/-! # Columns read from JSON have distinct names

Whatever text it reads, the reader gives definitions with distinct column names. Columns whose names
are not distinct are refused, and the refusal has the first name that repeats an earlier one
(`RepeatsFirst`). -/

namespace TableQuery

open Json

/-- `name` is the first of the names that repeats an earlier one. -/
def RepeatsFirst (names : List String) (name : String) : Prop :=
  ∃ before after, names = before ++ name :: after ∧ before.Nodup ∧ name ∈ before

theorem exists_repeatsFirst {names : List String} (h : ¬names.Nodup) :
    ∃ name, RepeatsFirst names name := by
  induction names using List.reverseRecOn with
  | nil => exact absurd List.nodup_nil h
  | append_singleton names name ih =>
    by_cases nodup : names.Nodup
    · have mem : name ∈ names := by
        by_contra new
        have apart : ∀ a ∈ names, ∀ b ∈ [name], a ≠ b := by
          rintro a ha _ hb rfl
          exact new (List.mem_singleton.mp hb ▸ ha)
        exact h (List.nodup_append.mpr ⟨nodup, by simp, apart⟩)
      exact ⟨name, names, [], rfl, nodup, mem⟩
    · obtain ⟨first, before, after, rfl, distinct, mem⟩ := ih nodup
      exact ⟨first, before, after ++ [name], by simp, distinct, mem⟩

namespace Column

def Distinct (columns : List Column) : Prop := (columns.map (·.name)).Nodup

theorem returns_readMember {read : List Column} (before : Distinct read) (key : String) :
    Returns Distinct (readMember read key) := by
  intro cs columns rest eq
  obtain ⟨⟨clause, cs'⟩, _, eq⟩ := bind_eq_ok_iff.mp eq
  dsimp only at eq
  split at eq
  · cases eq
  · rename_i new
    cases eq
    refine List.nodup_cons.mpr ⟨?_, before⟩
    simpa using new

theorem returns_readAll : Returns Distinct readAll := by
  refine returns_startingAt fun c => ?_
  split
  · intro cs columns rest eq
    obtain ⟨⟨read, cs'⟩, all, eq⟩ := bind_eq_ok_iff.mp eq
    cases eq
    have start : Distinct [] := List.nodup_nil
    have distinct : Distinct read :=
      returns_members (fun _ key before => returns_readMember before key) start all
    rw [Distinct, List.map_reverse]
    exact List.nodup_reverse.mpr distinct
  · exact returns_refuse _ _

end Column

namespace Definition

/-- The columns read so far, if any, have distinct names. -/
def Fields.Distinct (f : Fields) : Prop := ∀ columns ∈ f.columns, Column.Distinct columns

theorem returns_readField {α : Type} {P : α → Prop} {read : Reader α} (h : Returns P read) (key : String)
    (old : Option α) : Returns P (readField key old read) := by
  intro cs a rest eq
  unfold readField at eq
  split at eq
  · cases eq
  · exact returns_memberValue h key eq

theorem returns_readMember {f : Fields} (before : f.Distinct) (key : String) :
    Returns Fields.Distinct (readMember f key) := by
  intro cs f' rest eq
  unfold readMember at eq
  split at eq
  · obtain ⟨_, _, eq⟩ := bind_eq_ok_iff.mp eq
    cases eq
    exact before
  split at eq
  · obtain ⟨⟨columns, cs'⟩, found, eq⟩ := bind_eq_ok_iff.mp eq
    cases eq
    have distinct := returns_readField Column.returns_readAll key f.columns found
    simpa [Fields.Distinct] using distinct
  -- the other fields leave the columns as they are
  iterate 3
    split at eq
    · obtain ⟨_, _, eq⟩ := bind_eq_ok_iff.mp eq
      cases eq
      exact before
  cases eq

theorem requireField_eq_ok_iff {α : Type} {name : String} {rest : List Char} {found : Option α} {a : α} :
    requireField name rest found = .ok a ↔ found = some a := by
  cases found <;> simp [requireField]

theorem returns_readObject : Returns (fun d => Column.Distinct d.columns) readObject := by
  intro cs d rest eq
  obtain ⟨⟨f, cs'⟩, all, eq⟩ := bind_eq_ok_iff.mp eq
  have distinct : f.Distinct :=
    returns_members (fun _ key before => returns_readMember before key) (by simp [Fields.Distinct]) all
  obtain ⟨name, _, eq⟩ := bind_eq_ok_iff.mp eq
  obtain ⟨columns, found, eq⟩ := bind_eq_ok_iff.mp eq
  cases eq
  exact distinct _ (requireField_eq_ok_iff.mp found)

theorem returns_readArray : Returns (fun d => Column.Distinct d.columns) readArray := by
  intro cs d rest eq
  obtain ⟨⟨_, places⟩, _, eq⟩ := bind_eq_ok_iff.mp eq
  obtain ⟨name, _, eq⟩ := bind_eq_ok_iff.mp eq
  obtain ⟨⟨found, places⟩, second, eq⟩ := bind_eq_ok_iff.mp eq
  have distinct := returns_placeAt Column.returns_readAll second
  obtain ⟨columns, filled, eq⟩ := bind_eq_ok_iff.mp eq
  obtain ⟨_, _, eq⟩ := bind_eq_ok_iff.mp eq
  obtain ⟨_, _, eq⟩ := bind_eq_ok_iff.mp eq
  obtain ⟨_, _, eq⟩ := bind_eq_ok_iff.mp eq
  obtain ⟨_, _, eq⟩ := bind_eq_ok_iff.mp eq
  cases eq
  exact distinct _ (required_eq_ok_iff.mp filled)

theorem returns_read : Returns (fun d => Column.Distinct d.columns) read := by
  refine returns_startingAt fun c => ?_
  split
  · exact returns_readObject
  split
  · exact returns_readArray
  · exact returns_refuse _ _

end Definition

end TableQuery
