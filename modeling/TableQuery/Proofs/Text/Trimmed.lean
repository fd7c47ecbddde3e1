import Mathlib.Data.List.TakeWhile
import TableQuery.Text

/-! # What is left without the blanks at both ends

A text is what `trim` leaves of it between blanks (`exists_trim`), and a part without blanks between
blanks is what is left (`trim_between`). -/

namespace TableQuery.Text

def Blanks (cs : List Char) : Prop := ∀ c ∈ cs, isBlank c = true

theorem exists_trim (cs : List Char) :
    ∃ before after, cs = before ++ trim cs ++ after ∧ Blanks before ∧ Blanks after := by
  have first := List.takeWhile_append_dropWhile (p := isBlank) (l := cs)
  have last := List.takeWhile_append_dropWhile (p := isBlank) (l := (cs.dropWhile isBlank).reverse)
  refine ⟨cs.takeWhile isBlank, ((cs.dropWhile isBlank).reverse.takeWhile isBlank).reverse, ?_,
    fun c hc => List.mem_takeWhile_imp hc, fun c hc => List.mem_takeWhile_imp (List.mem_reverse.mp hc)⟩
  rw [trim, List.append_assoc, ← List.reverse_append, last, List.reverse_reverse, first]

theorem trim_between {before core after : List Char} (hb : Blanks before) (ha : Blanks after)
    (hc : ∀ c ∈ core, isBlank c = false) : trim (before ++ core ++ after) = core := by
  have stays {cs : List Char} (h : ∀ c ∈ cs, isBlank c = false) (rest : List Char) (ne : cs ≠ []) :
      (cs ++ rest).dropWhile isBlank = cs ++ rest := by
    cases cs with
    | nil => exact absurd rfl ne
    | cons c cs => rw [List.cons_append, List.dropWhile_cons_of_neg (by simp [h c (by simp)])]
  have back : Blanks after.reverse := fun c h => ha c (List.mem_reverse.mp h)
  rw [trim, List.append_assoc, List.dropWhile_append_of_pos hb]
  by_cases ne : core = []
  · subst ne
    rw [List.nil_append, List.dropWhile_eq_nil_iff.mpr ha]
    rfl
  · have turned := stays (fun c h => hc c (List.mem_reverse.mp h)) [] (by simpa using ne)
    rw [List.append_nil] at turned
    rw [stays hc after ne, List.reverse_append, List.dropWhile_append_of_pos back, turned,
      List.reverse_reverse]

end TableQuery.Text
