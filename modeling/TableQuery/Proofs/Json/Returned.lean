import TableQuery.Error
import TableQuery.Json.Shape

/-! # What holds of everything that is read

`Returns P read`: whatever text it reads, the reader gives only values with `P`. An invariant of the
state that each member keeps holds when all have been read (`returns_members`). -/

namespace TableQuery.Json

variable {α σ : Type} {P : α → Prop}

/-- Everything that the reader gives satisfies `P`. -/
def Returns (P : α → Prop) (read : Reader α) : Prop := ∀ ⦃cs a rest⦄, read cs = .ok (a, rest) → P a

theorem within_eq_ok_iff {step : Step} {r : Except Fault α} {a : α} :
    within step r = .ok a ↔ r = .ok a := by
  cases r <;> simp [within]

theorem returns_startingAt {read : Char → Reader α} (h : ∀ c, Returns P (read c)) :
    Returns P (startingAt read) := by
  intro cs a rest eq
  unfold startingAt at eq
  split at eq
  · cases eq
  · exact h _ eq

theorem returns_refuse (wanted : String) (c : Char) : Returns P (refuse wanted c) := by
  intro cs a rest eq
  unfold refuse at eq
  split at eq <;> cases eq

theorem returns_memberValue {read : Reader α} (h : Returns P read) (key : String) :
    Returns P (memberValue key read) := by
  intro cs a rest eq
  obtain ⟨colon, _, value⟩ := bind_eq_ok_iff.mp eq
  exact h (within_eq_ok_iff.mp value)

theorem returns_elementsFrom {element : Reader α} (h : Returns P element) (clock : List Char)
    (index : Nat) {read : List α} (before : ∀ a ∈ read, P a) :
    Returns (fun as => ∀ a ∈ as, P a) (elementsFrom element clock index read) := by
  induction clock generalizing index read with
  | nil =>
    intro cs as rest eq
    cases eq
  | cons t clock ih =>
    intro cs as rest eq
    rw [elementsFrom] at eq
    obtain ⟨next, _, eq⟩ := bind_eq_ok_iff.mp eq
    cases next with
    | closed rest' =>
      cases eq
      simpa using before
    | element cs =>
      obtain ⟨⟨a, cs'⟩, value, eq⟩ := bind_eq_ok_iff.mp eq
      have ha : P a := h (within_eq_ok_iff.mp value)
      exact ih (index + 1) (by simpa using ⟨ha, before⟩) eq

theorem returns_readList {element : Reader α} (h : Returns P element) :
    Returns (fun as => ∀ a ∈ as, P a) (readList element) := by
  refine returns_startingAt fun c => ?_
  split
  · intro cs as rest eq
    have start : ∀ a ∈ ([] : List α), P a := by simp
    exact returns_elementsFrom h _ 0 start eq
  · exact returns_refuse _ _

theorem returns_membersFrom {I : σ → Prop} {member : σ → String → Reader σ}
    (kept : ∀ state key, I state → Returns I (member state key)) (clock : List Char) (first : Bool)
    {state : σ} (before : I state) : Returns I (membersFrom member clock first state) := by
  induction clock generalizing first state with
  | nil =>
    intro cs state' rest eq
    cases eq
  | cons t clock ih =>
    intro cs state' rest eq
    rw [membersFrom] at eq
    obtain ⟨next, _, eq⟩ := bind_eq_ok_iff.mp eq
    cases next with
    | closed rest' =>
      cases eq
      exact before
    | member key cs =>
      obtain ⟨⟨state, cs'⟩, changed, eq⟩ := bind_eq_ok_iff.mp eq
      exact ih false (kept _ key before changed) eq

theorem returns_members {I : σ → Prop} {member : σ → String → Reader σ}
    (kept : ∀ state key, I state → Returns I (member state key)) {state : σ} (before : I state) :
    Returns I (members member state) :=
  fun _ _ _ eq => returns_membersFrom kept _ true before eq

theorem returns_placeAt {element : Reader α} (h : Returns P element) {index : Nat}
    {places places' : Places} {found : Option α} (eq : placeAt index element places = .ok (found, places')) :
    ∀ a ∈ found, P a := by
  cases places with
  | closed rest =>
    cases eq
    simp
  | inside cs =>
    obtain ⟨next, _, eq⟩ := bind_eq_ok_iff.mp eq
    cases next with
    | closed rest =>
      cases eq
      simp
    | element cs =>
      obtain ⟨⟨a, cs'⟩, value, eq⟩ := bind_eq_ok_iff.mp eq
      cases eq
      have ha : P a := h (within_eq_ok_iff.mp value)
      simpa using ha

theorem required_eq_ok_iff {length : Nat} {wanted : String} {places : Places} {found : Option α} {a : α} :
    required length wanted places found = .ok a ↔ found = some a := by
  cases found <;> simp [required]

theorem returns_readWhole {read : Reader α} (h : Returns P read) {text : String} {a : α}
    (eq : readWhole read text = .ok a) : P a := by
  unfold readWhole at eq
  split at eq
  · cases eq
  · rename_i value
    split at eq
    · cases eq
      exact h value
    · cases eq

end TableQuery.Json
