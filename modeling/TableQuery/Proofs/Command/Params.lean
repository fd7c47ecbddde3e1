import TableQuery.Command.Run
import TableQuery.Proofs.Query.Arguments

/-! # Printing the parameters of a query

The lines that are printed can be told apart, since no name holds a line feed (`splitOn_lines`).
Arguments go through a collection by name, which keeps the set of names (`mem_names_collect`), and the
set is all that the check looks at. -/

namespace TableQuery.Command

open Query (dropSigil)

/-- Texts without a line feed are found again between the line feeds, with nothing after the last. -/
theorem splitOn_lines {lines : List String} (h : ∀ line ∈ lines, '\n' ∉ line.toList) :
    (String.join (lines.map (· ++ "\n"))).toList.splitOn '\n' = lines.map String.toList ++ [[]] := by
  induction lines with
  | nil => rfl
  | cons line lines ih =>
    obtain ⟨first, others⟩ := List.forall_mem_cons.mp h
    have split : (String.join ((line :: lines).map (· ++ "\n"))).toList =
        line.toList ++ '\n' :: (String.join (lines.map (· ++ "\n"))).toList := by
      simp [String.toList_join]
    rw [split, List.splitOn_append_cons_self_of_not_mem first, ih others]
    rfl

theorem not_mem_newline {text : String} {q : Query} (h : Query.ofText text = .ok q) :
    ∀ n ∈ q.parameters.toList, '\n' ∉ n.toList :=
  fun _ hn => Query.not_mem_of_endsName h hn (by decide)

/-- One more argument: it takes the place of one with its name, or comes last. -/
def keep (kept : List (String × Value)) (p : String × Value) : List (String × Value) :=
  if kept.any (·.1 == p.1) then kept.map fun k => if k.1 == p.1 then p else k else kept ++ [p]

theorem collect_eq (arguments : List (String × Value)) : collect arguments = arguments.foldl keep [] := rfl

theorem mem_names_keep {kept : List (String × Value)} {p : String × Value} {n : String} :
    n ∈ (keep kept p).map (·.1) ↔ n = p.1 ∨ n ∈ kept.map (·.1) := by
  unfold keep
  split
  · rename_i known
    obtain ⟨k, hk, eq⟩ := List.any_eq_true.mp known
    have same : (kept.map fun k => if k.1 == p.1 then p else k).map (·.1) = kept.map (·.1) := by
      rw [List.map_map]
      refine List.map_congr_left fun k _ => ?_
      by_cases h : k.1 = p.1 <;> simp [h]
    rw [same]
    refine ⟨.inr, ?_⟩
    rintro (rfl | h)
    · exact List.mem_map.mpr ⟨k, hk, by simpa using eq⟩
    · exact h
  · simp [or_comm]

/-- No name is lost, and none comes in, when later arguments take the places of earlier ones. -/
theorem mem_names_collect {arguments : List (String × Value)} {n : String} :
    n ∈ (collect arguments).map (·.1) ↔ n ∈ arguments.map (·.1) := by
  suffices h : ∀ kept : List (String × Value), n ∈ (arguments.foldl keep kept).map (·.1) ↔
      n ∈ arguments.map (·.1) ∨ n ∈ kept.map (·.1) by simpa [collect_eq] using h []
  induction arguments with
  | nil => simp
  | cons p arguments ih =>
    intro kept
    rw [List.foldl_cons, ih, mem_names_keep, List.map_cons, List.mem_cons]
    tauto

theorem checkArguments_collect (q : Query) (arguments : List (String × Value)) :
    q.checkArguments (collect arguments) = q.checkNames (arguments.map (·.1)) :=
  Query.checkNames_congr fun _ => mem_names_collect

section
variable {text : String} {q : Query} {arguments : List (String × Value)}

/-- Arguments are given only to be checked, so none at all fit every query. -/
def Fit (q : Query) (arguments : List (String × Value)) : Prop :=
  arguments = [] ∨ ∀ a, a ∈ arguments.map (fun p => dropSigil p.1) ↔ a ∈ q.parameters

theorem checkNames_of_fit (h : Fit q arguments) (hne : arguments ≠ []) :
    q.checkNames (arguments.map (·.1)) = .ok () := by
  rw [Query.checkNames_eq_ok_iff, List.map_map]
  exact h.resolve_left hne

theorem params_of_error {e : Error} (h : Query.ofText text = .error e) : params text arguments = .failed e := by
  simp [params, h]

theorem params_of_fit (h : Query.ofText text = .ok q) (fit : Fit q arguments) :
    (params text arguments).lines = q.parameters.toList ∧ (params text arguments).failure = none := by
  by_cases hne : arguments = []
  · subst hne
    simp [params, h, Outcome.logged]
  · have fits := checkNames_of_fit fit hne
    simp [params, h, checkArguments_collect, fits, hne, Outcome.logged]

theorem params_of_not_fit (h : Query.ofText text = .ok q) (fit : ¬Fit q arguments) :
    (params text arguments).lines = [] ∧ (params text arguments).failure.isSome := by
  have hne : arguments ≠ [] := fun empty => fit (.inl empty)
  cases checked : q.checkNames (arguments.map (·.1)) with
  | error e => simp [params, h, checkArguments_collect, checked, hne, Outcome.logged, Outcome.failed]
  | ok u =>
    refine absurd (.inr ?_) fit
    have same := Query.checkNames_eq_ok_iff.mp checked
    rwa [List.map_map] at same

theorem exitCode_params : (params text arguments).exitCode = 0 ↔
    ∃ q, Query.ofText text = .ok q ∧ Fit q arguments := by
  cases h : Query.ofText text with
  | error e => simp [params_of_error h, Outcome.exitCode, Outcome.failed]
  | ok q =>
    by_cases fit : Fit q arguments
    · simp [Outcome.exitCode, (params_of_fit h fit).2, fit]
    · simp [Outcome.exitCode, (params_of_not_fit h fit).2, fit]

/-- A run that fails prints nothing. -/
theorem lines_params_of_failure (h : (params text arguments).exitCode ≠ 0) :
    (params text arguments).lines = [] := by
  cases read : Query.ofText text with
  | error e => rw [params_of_error read, Outcome.failed]
  | ok q => exact (params_of_not_fit read fun fit => h (exitCode_params.mpr ⟨q, read, fit⟩)).1

theorem params_congr {arguments' : List (String × Value)}
    (h : ∀ n, n ∈ arguments'.map (·.1) ↔ n ∈ arguments.map (·.1)) :
    params text arguments' = params text arguments := by
  have nil_iff (as : List (String × Value)) : as = [] ↔ ∀ n, n ∉ as.map (·.1) := by
    rw [← List.eq_nil_iff_forall_not_mem, List.map_eq_nil_iff]
  have empty : arguments'.isEmpty = arguments.isEmpty := by
    rw [Bool.eq_iff_iff, List.isEmpty_iff, List.isEmpty_iff, nil_iff, nil_iff]
    simp only [h]
  have checked (q : Query) : q.checkArguments (collect arguments') = q.checkArguments (collect arguments) := by
    rw [checkArguments_collect, checkArguments_collect, Query.checkNames_congr h]
  simp only [params, empty, checked]

end

end TableQuery.Command
