import TableQuery.Proofs.Table.Validity
import TableQuery.Proofs.Text.Separated
import TableQuery.Table.Definition

/-! # Texts joined by commas

Texts that are clauses are recovered from their list up to the parenthesis that closes it, however
many they are (`commaJoined_append_inj`). Identifiers are clauses, and in a list between parentheses
they are passed over at once (`passed_commaJoined`). -/

namespace TableQuery

/-- A text that may stand among others with commas between them. -/
def Clause (text : String) : Prop := text ≠ "" ∧ Closes 0 text.toList

section
variable {l l' : List String} {s t : List Char}

theorem toList_commaJoined_cons (x : String) (xs : List String) :
    (commaJoined (x :: xs)).toList = x.toList ++ xs.flatMap fun y => ',' :: y.toList := by
  have joined := intercalate_cons x.toList (xs.map String.toList)
  rw [List.flatMap_map] at joined
  rw [commaJoined, String.toList_intercalate, List.map_cons]
  exact joined

theorem head_flatMap_comma (l : List String) (s : List Char) :
    ∀ c ∈ ((l.flatMap fun y => ',' :: y.toList) ++ ')' :: s).head?, c = ',' ∨ c = ')' := by
  cases l with
  | nil => simp
  | cons x l => simp

theorem flatMap_comma_append_inj (hl : ∀ x ∈ l, Clause x) (hl' : ∀ x ∈ l', Clause x)
    (h : (l.flatMap fun y => ',' :: y.toList) ++ ')' :: s =
      (l'.flatMap fun y => ',' :: y.toList) ++ ')' :: t) : l = l' ∧ s = t := by
  induction l generalizing l' with
  | nil =>
    cases l' with
    | nil => exact ⟨rfl, by simpa using h⟩
    | cons y l' => exact absurd h (by simp)
  | cons x l ih =>
    cases l' with
    | nil => exact absurd h (by simp)
    | cons y l' =>
      simp only [List.flatMap_cons, List.cons_append, List.append_assoc, List.cons.injEq, true_and] at h
      obtain ⟨first, others⟩ := (hl x (by simp)).2.append_inj (hl' y (by simp)).2
        (head_flatMap_comma l s) (head_flatMap_comma l' t) h
      obtain ⟨rfl, rest⟩ := ih (fun x hx => hl x (by simp [hx])) (fun y hy => hl' y (by simp [hy])) others
      exact ⟨by rw [String.toList_inj.mp first], rest⟩

theorem commaJoined_cons_ne (x : String) (hx : Clause x) (xs : List String) :
    (commaJoined (x :: xs)).toList ++ ')' :: s ≠ ')' :: t := by
  intro h
  rw [toList_commaJoined_cons, List.append_assoc] at h
  obtain ⟨ne, closes⟩ := hx
  cases eq : x.toList with
  | nil => exact ne (String.toList_eq_nil_iff.mp eq)
  | cons c cs =>
    rw [eq, List.cons_append, List.cons.injEq] at h
    rw [eq] at closes
    exact Closes.not_cons (.inr h.1) cs closes

theorem commaJoined_append_inj (hl : ∀ x ∈ l, Clause x) (hl' : ∀ x ∈ l', Clause x)
    (h : (commaJoined l).toList ++ ')' :: s = (commaJoined l').toList ++ ')' :: t) :
    l = l' ∧ s = t := by
  cases l with
  | nil =>
    cases l' with
    | nil => exact ⟨rfl, by simpa using h⟩
    | cons y l' => exact absurd h.symm (commaJoined_cons_ne y (hl' y (by simp)) l')
  | cons x l =>
    cases l' with
    -- no clause is empty, so a list of one is not taken for the empty list
    | nil => exact absurd h (commaJoined_cons_ne x (hl x (by simp)) l)
    | cons y l' =>
      rw [toList_commaJoined_cons, toList_commaJoined_cons, List.append_assoc, List.append_assoc] at h
      refine flatMap_comma_append_inj hl hl' ?_
      simp [h]

theorem mem_toList_commaJoined {c : Char} (h : c ∈ (commaJoined l).toList) :
    c = ',' ∨ ∃ x ∈ l, c ∈ x.toList := by
  cases l with
  | nil => simp [commaJoined] at h
  | cons x l =>
    rw [toList_commaJoined_cons, List.mem_append, List.mem_flatMap] at h
    rcases h with h | ⟨y, hy, h⟩
    · exact .inr ⟨x, by simp, h⟩
    · rcases List.mem_cons.mp h with rfl | h
      · exact .inl rfl
      · exact .inr ⟨y, by simp [hy], h⟩

end

theorem passed_of_isIdentifier {name : String} (h : isIdentifier name = true) (depth : Nat) :
    Passed depth name.toList := by
  intro c hc
  have continues := continuesIdentifier_of_mem h c hc
  refine ⟨?_, ?_, ?_⟩ <;> rintro rfl <;> exact absurd continues (by decide)

theorem clause_of_isIdentifier {name : String} (h : isIdentifier name = true) : Clause name :=
  ⟨ne_empty_of_isIdentifier h, (passed_of_isIdentifier h 0).closes⟩

/-- An identifier does not go on beyond a character that cannot continue it. -/
theorem identifier_append_inj {a b : String} {s t : List Char} (ha : isIdentifier a = true)
    (hb : isIdentifier b = true) (hs : ∀ c ∈ s.head?, continuesIdentifier c = false)
    (ht : ∀ c ∈ t.head?, continuesIdentifier c = false) (h : a.toList ++ s = b.toList ++ t) :
    a = b ∧ s = t := by
  have ends {s : List Char} (hs : ∀ c ∈ s.head?, continuesIdentifier c = false) :
      ∀ c ∈ s.head?, (!continuesIdentifier c) = true := fun c hc => by simp [hs c hc]
  have inside {a : String} (ha : isIdentifier a = true) : ∀ c ∈ a.toList, (!continuesIdentifier c) = false :=
    fun c hc => by simp [continuesIdentifier_of_mem ha c hc]
  obtain ⟨names, rest⟩ := append_inj_of_stops (inside ha) (inside hb) (ends hs) (ends ht) h
  exact ⟨String.toList_inj.mp names, rest⟩

theorem passed_commaJoined {names : List String} (h : ∀ name ∈ names, isIdentifier name = true)
    (depth : Nat) : Passed (depth + 1) (commaJoined names).toList := by
  intro c hc
  rcases mem_toList_commaJoined hc with rfl | ⟨name, hname, hc⟩
  · simp
  · exact passed_of_isIdentifier (h name hname) (depth + 1) c hc

end TableQuery
