/-! # Where a part of a text ends

Parts of a text that stand one after the other are recovered from it if each tells its own end. A run
ends at the first character of another kind (`append_inj_of_stops`). A clause ends at the first comma
or closing parenthesis outside its own parentheses (`Closes.append_inj`). -/

namespace TableQuery

variable {α β : Type}

/-- Runs that both go up to the first element with `p` are the same. -/
theorem append_inj_of_stops {p : α → Bool} {a b s t : List α} (ha : ∀ x ∈ a, p x = false)
    (hb : ∀ x ∈ b, p x = false) (hs : ∀ x ∈ s.head?, p x = true) (ht : ∀ x ∈ t.head?, p x = true)
    (h : a ++ s = b ++ t) : a = b ∧ s = t := by
  induction a generalizing b with
  | nil =>
    cases b with
    | nil => exact ⟨rfl, h⟩
    | cons d b =>
      subst h
      exact absurd (hs d rfl) (by simp [hb d (by simp)])
  | cons c a ih =>
    cases b with
    | nil =>
      subst h
      exact absurd (ht c rfl) (by simp [ha c (by simp)])
    | cons d b =>
      simp only [List.cons_append, List.cons.injEq] at h
      obtain ⟨rfl, h⟩ := h
      obtain ⟨rfl, rfl⟩ := ih (fun e he => ha e (by simp [he])) (fun e he => hb e (by simp [he])) h
      exact ⟨rfl, rfl⟩

theorem map_inj_on {f : α → β} {l l' : List α} (inj : ∀ a ∈ l, ∀ b ∈ l', f a = f b → a = b)
    (h : l.map f = l'.map f) : l = l' := by
  induction l generalizing l' with
  | nil => exact (List.map_eq_nil_iff.mp h.symm).symm
  | cons a l ih =>
    cases l' with
    | nil => exact absurd h (by simp)
    | cons b l' =>
      obtain ⟨first, others⟩ := List.cons.inj h
      rw [inj a (by simp) b (by simp) first,
        ih (fun a ha b hb => inj a (by simp [ha]) b (by simp [hb])) others]

theorem intercalate_cons (x : List Char) (xs : List (List Char)) :
    List.intercalate [','] (x :: xs) = x ++ xs.flatMap (',' :: ·) := by
  induction xs generalizing x with
  | nil => simp
  | cons y ys ih => rw [List.intercalate_cons_cons, ih, List.flatMap_cons]; simp

/-- Read from inside `depth` parentheses, the text leaves all of them and no other, and no comma in it
stands outside of parentheses. -/
def Closes (depth : Nat) : List Char → Prop
  | [] => depth = 0
  | c :: cs =>
    if c = '(' then Closes (depth + 1) cs
    else if c = ')' then 0 < depth ∧ Closes (depth - 1) cs
    else (c = ',' → 0 < depth) ∧ Closes depth cs

/-- No character of `text` matters inside `depth` parentheses. -/
def Passed (depth : Nat) (text : List Char) : Prop :=
  ∀ c ∈ text, c ≠ '(' ∧ c ≠ ')' ∧ (c = ',' → 0 < depth)

instance (depth : Nat) (text : List Char) : Decidable (Passed depth text) := List.decidableBAll _ text

theorem Passed.append {depth : Nat} {a b : List Char} (ha : Passed depth a) (hb : Passed depth b) :
    Passed depth (a ++ b) := by
  intro c hc
  rcases List.mem_append.mp hc with hc | hc
  · exact ha c hc
  · exact hb c hc

namespace Closes
variable {depth : Nat} {a b s t : List Char}

@[simp] theorem nil : Closes depth [] ↔ depth = 0 := Iff.rfl

@[simp] theorem opening (cs : List Char) : Closes depth ('(' :: cs) ↔ Closes (depth + 1) cs := Iff.rfl

@[simp] theorem closing (cs : List Char) : Closes (depth + 1) (')' :: cs) ↔ Closes depth cs := by
  simp [Closes]

theorem passed_append (h : Passed depth a) : Closes depth (a ++ b) ↔ Closes depth b := by
  induction a with
  | nil => rfl
  | cons c a ih =>
    obtain ⟨opening, closing, comma⟩ := h c (by simp)
    rw [List.cons_append, Closes, if_neg opening, if_neg closing, ih fun d hd => h d (by simp [hd])]
    exact and_iff_right comma

theorem group (ha : Passed depth a) (hb : Passed (depth + 1) b) :
    Closes depth (a ++ '(' :: (b ++ ')' :: s)) ↔ Closes depth s := by
  rw [passed_append ha, opening, passed_append hb, closing]

theorem not_cons {c : Char} (h : c = ',' ∨ c = ')') (cs : List Char) : ¬Closes 0 (c :: cs) := by
  rcases h with rfl | rfl <;> simp [Closes]

/-- The text tells the clause it starts with, and so what follows that clause. -/
theorem append_inj (ha : Closes depth a) (hb : Closes depth b) (hs : ∀ c ∈ s.head?, c = ',' ∨ c = ')')
    (ht : ∀ c ∈ t.head?, c = ',' ∨ c = ')') (h : a ++ s = b ++ t) : a = b ∧ s = t := by
  -- both are read in step, so they are inside the same number of parentheses all along
  induction a generalizing depth b with
  | nil =>
    obtain rfl : depth = 0 := ha
    cases b with
    | nil => exact ⟨rfl, h⟩
    | cons d b =>
      subst h
      exact absurd hb (not_cons (hs d rfl) b)
  | cons c a ih =>
    cases b with
    | nil =>
      obtain rfl : depth = 0 := hb
      subst h
      exact absurd ha (not_cons (ht c rfl) a)
    | cons d b =>
      simp only [List.cons_append, List.cons.injEq] at h
      obtain ⟨rfl, h⟩ := h
      have rest : a = b ∧ s = t := by
        rw [Closes] at ha hb
        split at ha
        · rw [if_pos ‹_›] at hb
          exact ih ha hb h
        · rw [if_neg ‹_›] at hb
          split at ha
          · rw [if_pos ‹_›] at hb
            exact ih ha.2 hb.2 h
          · rw [if_neg ‹_›] at hb
            exact ih ha.2 hb.2 h
      exact ⟨by rw [rest.1], rest.2⟩

end Closes

theorem Passed.closes {text : List Char} (h : Passed 0 text) : Closes 0 text := by
  have closes : Closes 0 (text ++ []) := (Closes.passed_append h).mpr rfl
  rwa [List.append_nil] at closes

end TableQuery
