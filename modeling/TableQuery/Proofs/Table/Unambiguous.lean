import TableQuery.Proofs.Table.Clauses
import TableQuery.Proofs.Table.Kept

/-! # What a reference names can be read off its text

A reference starts with an identifier, its `lead`, and what follows that tells the kind: a point, an
opening parenthesis or nothing (`Request.tail`). Identifiers hold neither, so equal texts have equal
leads and equal tails, and a tail gives back its columns. References of tables with valid definitions
are of this form, whatever was taken before (`text_eq_iff_of_taken`). -/

namespace TableQuery.Table

namespace Request

/-- The identifier that a reference starts with. -/
def lead (table : String) : Request → String
  | .bare column => column
  | _ => table

/-- What follows the first identifier of a reference. -/
def tail : Request → List Char
  | .qualified column => '.' :: column.toList
  | .bare _ => []
  | .grouped columns => '(' :: ((commaJoined columns).toList ++ [')'])

theorem toList_render (table : String) (r : Request) :
    (r.key.render table).toList = (r.lead table).toList ++ r.tail := by
  cases r <;> simp [key, ReferenceKey.render, lead, tail]

theorem isIdentifier_lead {table : String} {r : Request} (name : isIdentifier table = true)
    (columns : ∀ column ∈ r.columns, isIdentifier column = true) : isIdentifier (r.lead table) = true := by
  cases r with
  | bare column => exact columns column (by simp [Request.columns])
  | _ => exact name

theorem head_tail (r : Request) : ∀ c ∈ r.tail.head?, continuesIdentifier c = false := by
  cases r <;> simp [tail] <;> decide

theorem tail_inj {r s : Request} (hr : ∀ column ∈ r.columns, isIdentifier column = true)
    (hs : ∀ column ∈ s.columns, isIdentifier column = true) (h : r.tail = s.tail) :
    r = s ∨ ∃ column column', r = .bare column ∧ s = .bare column' := by
  -- tails of two kinds differ in their first character, or one of them has none
  cases r <;> cases s <;> simp only [tail, List.cons.injEq, reduceCtorEq] at h
  case qualified.qualified column column' =>
    obtain rfl : column = column' := String.toList_inj.mp h.2
    exact .inl rfl
  case bare.bare column column' => exact .inr ⟨column, column', rfl, rfl⟩
  case grouped.grouped columns columns' =>
    obtain ⟨rfl, -⟩ := commaJoined_append_inj (fun column hc => clause_of_isIdentifier (hr column hc))
      (fun column hc => clause_of_isIdentifier (hs column hc)) h.2
    exact .inl rfl
  all_goals exact absurd h.1 (by decide)

end Request

variable {t u t' u' : Table} {r s : Request} {p q : Reference}

/-- References of two tables with valid definitions are one text only if they are of one kind, for the
same column or the same columns in the same order, and, unless they are for a column alone, of tables
with one name. -/
theorem text_eq_iff_of_taken (ht : t.Checked) (hu : u.Checked) (taken : t.takeChecked r = (.ok p, t'))
    (taken' : u.takeChecked s = (.ok q, u')) :
    p.text = q.text ↔ r = s ∧ ((∃ column, r = .bare column) ∨ t.name = u.name) := by
  have hr : ∀ column ∈ r.columns, isIdentifier column = true := ht.isIdentifier_of_taken taken
  have hs : ∀ column ∈ s.columns, isIdentifier column = true := hu.isIdentifier_of_taken taken'
  rw [ht.text_of_taken taken, hu.text_of_taken taken']
  constructor
  · intro same
    rw [← String.toList_inj, Request.toList_render, Request.toList_render] at same
    obtain ⟨leads, tails⟩ := identifier_append_inj (Request.isIdentifier_lead ht.identifiers.1 hr)
      (Request.isIdentifier_lead hu.identifiers.1 hs) r.head_tail s.head_tail same
    rcases Request.tail_inj hr hs tails with rfl | ⟨column, column', rfl, rfl⟩
    · refine ⟨rfl, ?_⟩
      cases r with
      | bare column => exact .inl ⟨column, rfl⟩
      | _ => exact .inr leads
    · obtain rfl : column = column' := leads
      exact ⟨rfl, .inl ⟨column, rfl⟩⟩
  · rintro ⟨rfl, ⟨column, rfl⟩ | names⟩
    · rfl
    · rw [names]

/-- A table with a column of its own name. -/
def eponym (name : String) : Table := ofDefinition ⟨name, [⟨"id", "int"⟩, ⟨name, "text"⟩], none, [], false⟩

/-- A table of another name, after a reference that names none of its columns. -/
def draftInUse : Table := ((eponym "draft").take (.grouped ["id,x"])).2

/-- Two tables give their columns of one name the same bare reference. -/
theorem text_eq_iff_of_taken_bare :
    (eponym "note").Checked ∧ draftInUse.Checked ∧
    (eponym "note").takeChecked (.bare "id") = (.ok ⟨0, "id"⟩, ((eponym "note").bare "id").2) ∧
    draftInUse.takeChecked (.bare "id") = (.ok ⟨1, "id"⟩, (draftInUse.bare "id").2) ∧
    ("id" = "id" ↔ Request.bare "id" = .bare "id" ∧
      ((∃ column, Request.bare "id" = .bare column) ∨ (eponym "note").name = draftInUse.name)) := by
  have note : (eponym "note").Checked := .built (ofValid_eq_ok_iff.mpr ⟨rfl, rfl⟩)
  have draft : draftInUse.Checked := .taken (.built (ofValid_eq_ok_iff.mpr ⟨rfl, rfl⟩)) (.grouped ["id,x"])
  have taken : (eponym "note").takeChecked (.bare "id") = (.ok ⟨0, "id"⟩, ((eponym "note").bare "id").2) := rfl
  have taken' : draftInUse.takeChecked (.bare "id") = (.ok ⟨1, "id"⟩, (draftInUse.bare "id").2) := rfl
  exact ⟨note, draft, taken, taken', text_eq_iff_of_taken note draft taken taken'⟩

end TableQuery.Table
