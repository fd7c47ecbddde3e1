import Mathlib.Data.List.Sort
import Mathlib.Data.String.Basic
import TableQuery.Proofs.Query.Mentions

/-! # The names of a query and the names given to it

A parameter name holds no character that ends names, a line feed among them (`free_of_ofText`).
Arguments fit a query if their names without the sigil are its parameters as a set
(`checkNames_eq_ok_iff`), and no more than that set counts (`checkNames_congr`). -/

namespace TableQuery

namespace NameSet

/-- Sets with the same names are the same list, since the order belongs to the type. -/
theorem ext_mem {s t : NameSet} (h : ∀ a, a ∈ s ↔ a ∈ t) : s = t := by
  obtain ⟨l, sorted⟩ := s
  obtain ⟨l', sorted'⟩ := t
  obtain rfl : l = l' := sorted.eq_of_mem_iff sorted' h
  rfl

theorem ofList_congr {names names' : List String} (h : ∀ a, a ∈ names ↔ a ∈ names') :
    ofList names = ofList names' :=
  ext_mem fun a => by rw [mem_ofList, mem_ofList, h]

theorem firstOutside?_eq_none_iff {s t : NameSet} : s.firstOutside? t = none ↔ ∀ a ∈ s, a ∈ t := by
  simp [firstOutside?, mem_def]

end NameSet

namespace Query

/-- No name that is being read holds a character that ends names. -/
def Mode.Free : Mode → Prop
  | .name _ read => ∀ c ∈ read, endsName c = false
  | _ => True

def Mention.Free (m : Mention) : Prop := ∀ c ∈ m.name, endsName c = false

namespace Mode
variable {offset : Nat} {m : Mode}

theorem free_afterPlain (c : Char) : (afterPlain offset c).Free := by
  unfold afterPlain
  split
  · trivial
  · split
    · intro d hd
      cases hd
    · trivial

theorem Free.step (h : m.Free) (offset : Nat) (c : Char) :
    (m.step offset c).1.Free ∧ ∀ found ∈ (m.step offset c).2, found.Free := by
  cases m with
  | plain => exact ⟨free_afterPlain c, by simp [Mode.step]⟩
  | literal quote => by_cases eq : c = quote <;> simp [Mode.step, eq, Free]
  | name start read =>
    have hread : ∀ d ∈ read, endsName d = false := h
    by_cases ends : endsName c = true
    · simp only [Mode.step, if_pos ends, List.mem_singleton, forall_eq]
      exact ⟨free_afterPlain c, fun d hd => hread d (List.mem_reverse.mp hd)⟩
    · simp only [Mode.step, if_neg ends]
      refine ⟨fun d hd => ?_, by simp⟩
      rcases List.mem_cons.mp hd with rfl | hd
      · simpa using ends
      · exact hread d hd

theorem Free.run (h : m.Free) (offset : Nat) (cs : List Char) :
    (m.run offset cs).1.Free ∧ ∀ found ∈ (m.run offset cs).2, found.Free :=
  run_keeps (P := fun _ m => m.Free) (fun offset _ c hm => hm.step offset c) h cs

theorem Free.finish (h : m.Free) : ∀ found ∈ m.finish, found.Free := by
  cases m with
  | name start read =>
    intro found hf
    obtain rfl := List.mem_singleton.mp hf
    exact fun c hc => h c (List.mem_reverse.mp hc)
  | _ => exact fun _ h => nomatch h

end Mode

theorem free_of_mem_mentions {query : List Char} {m : Mention} (h : m ∈ mentions query) : m.Free := by
  have start : Mode.plain.Free := trivial
  obtain ⟨last, found⟩ := start.run 0 query
  rcases List.mem_append.mp h with h | h
  · exact found m h
  · exact last.finish m h

/-- A parameter has a name, and its name is free of the characters that end names. -/
theorem free_of_ofText {text : String} {q : Query} (h : ofText text = .ok q) {n : String}
    (hn : n ∈ q.parameters) : n ≠ "" ∧ ∀ c ∈ n.toList, endsName c = false := by
  obtain ⟨named, eq⟩ := scan_eq_ok_iff.mp (scan_of_ofText h)
  rw [eq, NameSet.mem_ofList] at hn
  obtain ⟨m, hm, rfl⟩ := List.mem_map.mp hn
  refine ⟨fun empty => named m hm ?_, ?_⟩
  · simpa using congrArg String.toList empty
  · rw [String.toList_ofList]
    exact free_of_mem_mentions hm

theorem not_mem_of_endsName {text : String} {q : Query} (h : ofText text = .ok q) {n : String}
    (hn : n ∈ q.parameters) {c : Char} (ends : endsName c = true) : c ∉ n.toList := by
  intro hc
  rw [(free_of_ofText h hn).2 c hc] at ends
  cases ends

variable {q : Query} {names names' : List String}

theorem checkNames_eq_ok_iff :
    q.checkNames names = .ok () ↔ ∀ a, a ∈ names.map dropSigil ↔ a ∈ q.parameters := by
  have missing := @NameSet.firstOutside?_eq_none_iff q.parameters (.ofList (names.map dropSigil))
  have unexpected := @NameSet.firstOutside?_eq_none_iff (.ofList (names.map dropSigil)) q.parameters
  simp only [NameSet.mem_ofList] at missing unexpected
  simp only [checkNames]
  split
  · rename_i parameter first
    rw [first] at missing
    refine iff_of_false (by simp) fun same => ?_
    cases missing.mpr fun a ha => (same a).mpr ha
  · rename_i complete
    have given := missing.mp complete
    split
    · rename_i name first
      rw [first] at unexpected
      refine iff_of_false (by simp) fun same => ?_
      cases unexpected.mpr fun a ha => (same a).mp ha
    · rename_i hnone
      exact ⟨fun _ a => ⟨unexpected.mp hnone a, given a⟩, fun _ => rfl⟩

/-- The answer, the error included, depends on the set of the names alone. -/
theorem checkNames_congr (h : ∀ n, n ∈ names ↔ n ∈ names') : q.checkNames names = q.checkNames names' := by
  have given : NameSet.ofList (names.map dropSigil) = .ofList (names'.map dropSigil) :=
    NameSet.ofList_congr fun a => by simp only [List.mem_map, h]
  unfold checkNames
  rw [given]

end Query

end TableQuery
