import Mathlib.Data.Option.Basic
import TableQuery.Error
import TableQuery.Proofs.Table.Verdict
import TableQuery.Table.Document

/-! # Fields of an object or an array

The verdict on a value is a result exactly when the value stands for one (`Accepts`). For an object the
fold over its members comes to what they give together: each field is gathered from the members of
its key (`gather`), of which there is one at most. In an array each field has its place. -/

namespace TableQuery.Json

variable {α β : Type}

/-- The verdict accepts the values that stand for something, with what they stand for. -/
def Accepts (verdict : Document → Verdict α) (value? : Document → Option α) : Prop :=
  ∀ d a, verdict d = .ok a ↔ value? d = some a

theorem accepts_text : Accepts Verdict.text Document.text? := by
  intro d s
  cases d <;> simp [Verdict.text, Document.text?]

theorem accepts_boolean : Accepts Verdict.boolean Document.boolean? := by
  intro d b
  cases d <;> simp [Verdict.boolean, Document.boolean?]

theorem mapM_eq_ok_iff {verdict : β → Verdict α} {value? : β → Option α}
    (h : ∀ b a, verdict b = .ok a ↔ value? b = some a) (bs : List β) (as : List α) :
    bs.mapM verdict = .ok as ↔ bs.mapM value? = some as := by
  induction bs generalizing as with
  | nil => simp [pure, Except.pure]
  | cons b bs ih =>
    simp only [List.mapM_cons, bind_eq_ok_iff, Option.bind_eq_bind, Option.bind_eq_some_iff, h, ih]
    simp [pure, Except.pure]

namespace Accepts
variable {verdict : Document → Verdict α} {value? : Document → Option α}

theorem iff (h : Accepts verdict value?) {d : Document} {a : α} : verdict d = .ok a ↔ value? d = some a :=
  h d a

theorem list (h : Accepts verdict value?) : Accepts (Verdict.list verdict) (Document.list? value?) := by
  intro d as
  cases d with
  | array ds => exact mapM_eq_ok_iff h ds as
  | _ => simp [Verdict.list, Document.list?]

theorem optional (h : Accepts verdict value?) :
    Accepts (Verdict.optional verdict) (Document.optional? value?) := by
  intro d a
  have other : (do return some (← verdict d) : Verdict (Option α)) = .ok a ↔
      (value? d).map some = some a := by
    simp [bind_eq_ok_iff, h.iff, pure, Except.pure]
  cases d with
  | null => simp [Verdict.optional, Document.optional?]
  | _ => exact other

end Accepts

/-- What the members of a key make of a field that was `old`: a second value is one too many. -/
def gather (key : String) (value? : Document → Option α) :
    List (String × Document) → Option α → Option (Option α)
  | [], old => some old
  | (k, d) :: ms, old =>
    if k = key then if old.isSome then none else do gather key value? ms (some (← value? d))
    else gather key value? ms old

section
variable {key : String} {value? : Document → Option α} {verdict : Document → Verdict α}

theorem gather_cons_ne {k : String} (ne : k ≠ key) (old : Option α) (d : Document)
    (ms : List (String × Document)) :
    gather key value? ((k, d) :: ms) old = gather key value? ms old := by
  rw [gather, if_neg ne]

theorem gather_cons_self (old new : Option α) (d : Document) (ms : List (String × Document)) :
    gather key value? ((key, d) :: ms) old = some new ↔
      ∃ a, (old = none ∧ value? d = some a) ∧ gather key value? ms (some a) = some new := by
  rw [gather, if_pos rfl]
  cases old <;> simp [Option.bind_eq_some_iff]

/-- A member that sets a field is read on from if its value is the first for that field. -/
theorem set_bind_eq_ok_iff {γ : Type} (h : Accepts verdict value?) {old : Option α} {d : Document}
    {set : α → β} {next : β → Verdict γ} {c : γ} :
    ((do return set (← Verdict.field key old verdict d)) >>= next) = .ok c ↔
      ∃ a, (old = none ∧ value? d = some a) ∧ next (set a) = .ok c := by
  cases old with
  | some a => simp [Verdict.field, bind, Except.bind]
  | none =>
    cases value : verdict d with
    | ok a =>
      have stands : value? d = some a := h.iff.mp value
      simp [Verdict.field, value, stands, bind, Except.bind, pure, Except.pure]
    | error e =>
      have refused : value? d = none := by
        refine Option.eq_none_iff_forall_ne_some.mpr fun a stands => ?_
        rw [h.iff.mpr stands] at value
        cases value
      simp [Verdict.field, value, refused, bind, Except.bind]

theorem gather_some (a : α) (ms : List (String × Document)) :
    gather key value? ms (some a) =
      if ms.filter (·.1 == key) = [] then some (some a) else none := by
  induction ms with
  | nil => simp [gather]
  | cons m ms ih =>
    obtain ⟨k, d⟩ := m
    by_cases h : k = key
    · subst h
      rw [gather, if_pos rfl]
      simp
    · rw [gather_cons_ne h, ih, List.filter_cons_of_neg (by simpa using h)]

/-- From nothing, a field is gathered if its key has no member, or one that stands for something. -/
theorem gather_none (ms : List (String × Document)) :
    gather key value? ms none = match ms.filter (·.1 == key) with
      | [] => some none
      | [(_, d)] => (value? d).map some
      | _ => none := by
  induction ms with
  | nil => rfl
  | cons m ms ih =>
    obtain ⟨k, d⟩ := m
    by_cases h : k = key
    · subst h
      rw [gather, if_pos rfl, List.filter_cons_of_pos (by simp)]
      simp only [Option.isSome_none, Bool.false_eq_true, ↓reduceIte, gather_some]
      cases ms.filter (·.1 == k) <;> simp [Option.map_eq_bind]
    · rw [gather_cons_ne h, ih]
      simp [h]

theorem single?_bind_eq_some_iff (ms : List (String × Document)) (a : α) :
    (Document.single? ms key).bind value? = some a ↔ gather key value? ms none = some (some a) := by
  rw [gather_none, Document.single?]
  generalize ms.filter (·.1 == key) = found
  match found with
  | [] => simp
  | [(_, d)] => simp
  | _ :: _ :: _ => simp

theorem exists_single?_iff (ms : List (String × Document)) {p : α → Prop} :
    (∃ d, Document.single? ms key = some d ∧ ∃ a, value? d = some a ∧ p a) ↔
      ∃ a, gather key value? ms none = some (some a) ∧ p a := by
  simp only [← single?_bind_eq_some_iff, Option.bind_eq_some_iff]
  grind

theorem atMostOne?_eq_some_iff (ms : List (String × Document)) (default a : α) :
    Document.atMostOne? ms key default value? = some a ↔
      ∃ found, gather key value? ms none = some found ∧ found.getD default = a := by
  rw [gather_none, Document.atMostOne?]
  generalize ms.filter (·.1 == key) = found
  match found with
  | [] => simp
  | [(_, d)] =>
    constructor
    · intro h
      exact ⟨some a, congrArg (Option.map some) h, rfl⟩
    · rintro ⟨_, h, rfl⟩
      obtain ⟨a, h, rfl⟩ := Option.map_eq_some_iff.mp h
      simpa using h
  | _ :: _ :: _ => simp

end

section
variable {verdict : Document → Verdict α} {value? : Document → Option α}

theorem place_nil_eq_ok_iff (a : Option α) : Verdict.place verdict [] = .ok a ↔ a = none := by
  simp [Verdict.place, eq_comm]

theorem place_cons_eq_ok_iff (h : Accepts verdict value?) (d : Document) (ds : List Document)
    (a : Option α) : Verdict.place verdict (d :: ds) = .ok a ↔ ∃ b, value? d = some b ∧ some b = a := by
  simp [Verdict.place, bind_eq_ok_iff, h.iff, pure, Except.pure]

/-- What stands in a place that may be left out, or the default. -/
theorem getD_place_eq_some_iff (h : Accepts verdict value?) (ds : List Document) (default a : α) :
    (ds[0]?.map value?).getD (some default) = some a ↔
      ∃ found, Verdict.place verdict ds = .ok found ∧ found.getD default = a := by
  cases ds with
  | nil => simp [place_nil_eq_ok_iff]
  | cons d ds => simp [place_cons_eq_ok_iff h]

theorem filled_eq_ok_iff (a : Option α) (b : α) : Verdict.filled a = .ok b ↔ a = some b := by
  cases a <;> simp [Verdict.filled]

theorem finished_eq_ok_iff (ds : List Document) (u : Unit) : Verdict.finished ds = .ok u ↔ ds = [] := by
  cases ds <;> simp [Verdict.finished]

end

end TableQuery.Json
