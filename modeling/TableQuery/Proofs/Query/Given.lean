import Mathlib.Data.Finset.Max
import Mathlib.Order.Bounds.Basic
import TableQuery.Proofs.Query.Arguments

/-! # Names in two spellings

An argument may be given under a name or under the name with a sigil in front; one leading sigil is
never part of the name that is given (`Gives`). A check compares the names that are given with the
parameters as sets, and names the least one that is missing or else the least one too many
(`checkArguments_compares`). So a parameter whose own name starts with a sigil is given in one
spelling only (`checkArguments_spellings`). -/

namespace TableQuery

namespace NameSet
variable {s t : NameSet} {a : String}

/-- The first name outside is the least one, since the names are in ascending order. -/
theorem isLeast_of_firstOutside? (h : s.firstOutside? t = some a) : IsLeast {x | x ∈ s ∧ x ∉ t} a := by
  obtain ⟨outside, before, after, split, inside⟩ := List.find?_eq_some_iff_append.mp h
  have sorted := s.sorted
  rw [split, List.pairwise_append] at sorted
  refine ⟨⟨?_, fun inside => ?_⟩, ?_⟩
  · rw [mem_def, split]
    simp
  · rw [contains_iff.mpr inside] at outside
    cases outside
  · rintro x ⟨hx, hxt⟩
    rw [mem_def, split] at hx
    rcases List.mem_append.mp hx with hx | hx
    · exact absurd (by simpa using inside x hx) hxt
    · rcases List.mem_cons.mp hx with rfl | hx
      · exact le_refl x
      · exact le_of_lt ((List.pairwise_cons.mp sorted.2.1).1 x hx)

theorem exists_isLeast_outside (h : ∃ x ∈ s, x ∉ t) : ∃ a, IsLeast {x | x ∈ s ∧ x ∉ t} a := by
  cases first : s.firstOutside? t with
  | none =>
    obtain ⟨x, hx, hxt⟩ := h
    exact absurd (firstOutside?_eq_none_iff.mp first x hx) hxt
  | some a => exact ⟨a, isLeast_of_firstOutside? first⟩

theorem firstOutside?_eq_some_iff : s.firstOutside? t = some a ↔ IsLeast {x | x ∈ s ∧ x ∉ t} a := by
  refine ⟨isLeast_of_firstOutside?, fun least => ?_⟩
  cases first : s.firstOutside? t with
  | none => exact absurd (firstOutside?_eq_none_iff.mp first a least.1.1) least.1.2
  | some b => rw [(isLeast_of_firstOutside? first).unique least]

end NameSet

namespace Query

def StartsWithSigil (name : String) : Prop := ∃ rest, name = "$" ++ rest

@[simp] theorem dropSigil_sigil (name : String) : dropSigil ("$" ++ name) = name := by
  simp [dropSigil, sigil]

theorem dropSigil_of_not_startsWithSigil {name : String} (h : ¬StartsWithSigil name) :
    dropSigil name = name := by
  unfold dropSigil
  split
  · rename_i c cs chars
    split
    · rename_i eq
      subst eq
      refine absurd ⟨String.ofList cs, ?_⟩ h
      rw [← String.toList_inj, chars]
      simp [sigil]
    · rfl
  · rfl

theorem dropSigil_eq_iff {key name : String} :
    dropSigil key = name ↔ key = "$" ++ name ∨ key = name ∧ ¬StartsWithSigil name := by
  constructor
  · rintro rfl
    by_cases starts : StartsWithSigil key
    · obtain ⟨rest, rfl⟩ := starts
      exact .inl (by rw [dropSigil_sigil])
    · rw [dropSigil_of_not_startsWithSigil starts]
      exact .inr ⟨rfl, starts⟩
  · rintro (rfl | ⟨rfl, plain⟩)
    · exact dropSigil_sigil name
    · exact dropSigil_of_not_startsWithSigil plain

/-- One of the arguments is written with the name `key`. -/
def HasKey (arguments : List (String × Value)) (key : String) : Prop := key ∈ arguments.map (·.1)

/-- The arguments give the name: it is written with a sigil in front, or as it is if it does not start
with a sigil itself. -/
def Gives (arguments : List (String × Value)) (name : String) : Prop :=
  HasKey arguments ("$" ++ name) ∨ HasKey arguments name ∧ ¬StartsWithSigil name

/-- The names that are given, as the check collects them. -/
def given (arguments : List (String × Value)) : NameSet := .ofList ((arguments.map (·.1)).map dropSigil)

section
variable {q : Query} {arguments arguments' : List (String × Value)} {name : String}

@[simp] theorem mem_given : name ∈ given arguments ↔ Gives arguments name := by
  rw [given, NameSet.mem_ofList, List.mem_map]
  constructor
  · rintro ⟨key, has, drop⟩
    rcases dropSigil_eq_iff.mp drop with rfl | ⟨rfl, plain⟩
    · exact .inl has
    · exact .inr ⟨has, plain⟩
  · rintro (has | ⟨has, plain⟩)
    · exact ⟨_, has, dropSigil_sigil name⟩
    · exact ⟨_, has, dropSigil_of_not_startsWithSigil plain⟩

theorem gives_cons {key : String} {v : Value} :
    Gives ((key, v) :: arguments) name ↔ name = dropSigil key ∨ Gives arguments name := by
  simp only [← mem_given, given, NameSet.mem_ofList, List.map_cons, List.mem_cons]

/-! ### The comparison -/

theorem checkArguments_eq (q : Query) (arguments : List (String × Value)) : q.checkArguments arguments =
    match q.parameters.firstOutside? (given arguments) with
    | some parameter => .error ⟨.missingArgument parameter, []⟩
    | none =>
      match (given arguments).firstOutside? q.parameters with
      | some name => .error ⟨.unexpectedArgument name q.text, []⟩
      | none => .ok () := rfl

theorem checkArguments_of_missing (least : IsLeast {n | n ∈ q.parameters ∧ ¬Gives arguments n} name) :
    q.checkArguments arguments = .error ⟨.missingArgument name, []⟩ := by
  simp only [← mem_given] at least
  rw [checkArguments_eq, NameSet.firstOutside?_eq_some_iff.mpr least]

theorem checkArguments_of_unexpected (complete : ∀ n ∈ q.parameters, Gives arguments n)
    (least : IsLeast {n | Gives arguments n ∧ n ∉ q.parameters} name) :
    q.checkArguments arguments = .error ⟨.unexpectedArgument name q.text, []⟩ := by
  simp only [← mem_given] at complete least
  rw [checkArguments_eq, NameSet.firstOutside?_eq_none_iff.mpr complete,
    NameSet.firstOutside?_eq_some_iff.mpr least]

theorem checkArguments_eq_ok_iff :
    q.checkArguments arguments = .ok () ↔ ∀ n, Gives arguments n ↔ n ∈ q.parameters := by
  rw [checkArguments, checkNames_eq_ok_iff]
  simp only [← mem_given, given, NameSet.mem_ofList]

theorem exists_missing (h : ∃ n ∈ q.parameters, ¬Gives arguments n) :
    ∃ p, IsLeast {n | n ∈ q.parameters ∧ ¬Gives arguments n} p := by
  simp only [← mem_given] at h ⊢
  exact NameSet.exists_isLeast_outside h

theorem exists_unexpected (h : ∃ n, Gives arguments n ∧ n ∉ q.parameters) :
    ∃ g, IsLeast {n | Gives arguments n ∧ n ∉ q.parameters} g := by
  simp only [← mem_given] at h ⊢
  exact NameSet.exists_isLeast_outside h

theorem checkArguments_congr (h : ∀ n, Gives arguments' n ↔ Gives arguments n) :
    q.checkArguments arguments' = q.checkArguments arguments := by
  have same : given arguments' = given arguments := NameSet.ext_mem fun n => by rw [mem_given, mem_given, h]
  rw [checkArguments_eq, checkArguments_eq, same]

theorem gives_congr (h : ∀ key, HasKey arguments' key ↔ HasKey arguments key) (name : String) :
    Gives arguments' name ↔ Gives arguments name := by
  rw [Gives, Gives, h, h]

end

/-- The names that are given are compared with the parameters: if these are the same, the arguments fit;
a parameter that is not given is refused first, the least of them; then a name that is no parameter, the
least of them. No more than the set of names counts: not the values, nor the order of the arguments, nor
whether a name is given in both spellings. -/
theorem checkArguments_compares (q : Query) (arguments : List (String × Value)) :
    (q.checkArguments arguments = .ok () ↔ ∀ n, Gives arguments n ↔ n ∈ q.parameters) ∧
    ((∃ n ∈ q.parameters, ¬Gives arguments n) →
      ∃ p, IsLeast {n | n ∈ q.parameters ∧ ¬Gives arguments n} p ∧
        q.checkArguments arguments = .error ⟨.missingArgument p, []⟩) ∧
    ((∀ n ∈ q.parameters, Gives arguments n) → (∃ n, Gives arguments n ∧ n ∉ q.parameters) →
      ∃ g, IsLeast {n | Gives arguments n ∧ n ∉ q.parameters} g ∧
        q.checkArguments arguments = .error ⟨.unexpectedArgument g q.text, []⟩) ∧
    (∀ arguments', (∀ key, HasKey arguments' key ↔ HasKey arguments key) →
      q.checkArguments arguments' = q.checkArguments arguments) ∧
    ∀ key v, Gives arguments (dropSigil key) →
      q.checkArguments ((key, v) :: arguments) = q.checkArguments arguments := by
  refine ⟨checkArguments_eq_ok_iff, fun missing => ?_, fun complete unexpected => ?_, fun arguments' same => ?_,
    fun key v known => ?_⟩
  · obtain ⟨p, least⟩ := exists_missing missing
    exact ⟨p, least, checkArguments_of_missing least⟩
  · obtain ⟨g, least⟩ := exists_unexpected unexpected
    exact ⟨g, least, checkArguments_of_unexpected complete least⟩
  · exact checkArguments_congr (gives_congr same)
  · refine checkArguments_congr fun n => ?_
    rw [gives_cons]
    refine ⟨?_, .inr⟩
    rintro (rfl | gives)
    · exact known
    · exact gives

/-- A parameter is missed before an argument too many, and the other spelling of an argument that is there
makes no difference. -/
theorem checkArguments_compares_missing_first :
    let q : Query := ⟨"select $b, $a", .ofList ["b", "a"]⟩
    let arguments : List (String × Value) := [("0", .boolean true), ("$b", .integer 1)]
    ofText q.text = .ok q ∧ q.checkArguments arguments = .error ⟨.missingArgument "a", []⟩ ∧
      q.checkArguments (("b", .text "x") :: arguments) = .error ⟨.missingArgument "a", []⟩ := by
  have read : ofText "select $b, $a" = .ok ⟨"select $b, $a", .ofList ["b", "a"]⟩ := by decide +kernel
  intro q arguments
  obtain ⟨-, missing, -, -, same⟩ := checkArguments_compares q arguments
  have given : Gives arguments "b" := .inl (by simp [HasKey, arguments])
  have absent : ¬Gives arguments "a" := by
    rintro (has | ⟨has, -⟩) <;> simp [HasKey, arguments] at has
  have refused : q.checkArguments arguments = .error ⟨.missingArgument "a", []⟩ := by
    obtain ⟨p, least, refused⟩ := missing ⟨"a", by simp [q], absent⟩
    obtain rfl | rfl : p = "b" ∨ p = "a" := by simpa [q] using least.1.1
    · exact absurd given least.1.2
    · exact refused
  have known : Gives arguments (dropSigil "b") := given
  exact ⟨read, refused, (same "b" (.text "x") known).trans refused⟩

section
variable {q : Query} {arguments : List (String × Value)}

/-- If every name that starts with a sigil is there with one more sigil too, no name starts with one. -/
theorem not_startsWithSigil_of_closed {names : NameSet}
    (closed : ∀ n ∈ names, StartsWithSigil n → "$" ++ n ∈ names) : ∀ n ∈ names, ¬StartsWithSigil n := by
  classical
  intro n hn starts
  -- the longest of these names would not be the longest
  obtain ⟨longest, mem, max⟩ :=
    (names.toList.toFinset.filter StartsWithSigil).exists_max_image String.length
      ⟨n, by simpa using ⟨hn, starts⟩⟩
  simp only [Finset.mem_filter, List.mem_toFinset] at mem max
  have longer := max ("$" ++ longest) ⟨closed longest mem.1 mem.2, longest, rfl⟩
  rw [String.length_append] at longer
  have one : "$".length = 1 := rfl
  omega

/-- Arguments that give every parameter in one of its two spellings, and nothing else, fit if no
argument's leading sigil is taken for the one in front of a name when it belongs to the name: so they
fit if no parameter starts with a sigil, and under the names of the parameters themselves they fit only
then. -/
theorem checkArguments_spellings
    (spelled : ∀ key, HasKey arguments key → ∃ p ∈ q.parameters, key = p ∨ key = "$" ++ p)
    (covered : ∀ p ∈ q.parameters, HasKey arguments p ∨ HasKey arguments ("$" ++ p)) :
    (q.checkArguments arguments = .ok () ↔
      (∀ p ∈ q.parameters, StartsWithSigil p → HasKey arguments ("$" ++ p)) ∧
      ∀ name, HasKey arguments ("$" ++ name) → name ∈ q.parameters) ∧
    ((∀ p ∈ q.parameters, ¬StartsWithSigil p) → q.checkArguments arguments = .ok ()) ∧
    ((∀ key, HasKey arguments key ↔ key ∈ q.parameters) →
      (q.checkArguments arguments = .ok () ↔ ∀ p ∈ q.parameters, ¬StartsWithSigil p)) := by
  have fit_iff : q.checkArguments arguments = .ok () ↔
      (∀ p ∈ q.parameters, StartsWithSigil p → HasKey arguments ("$" ++ p)) ∧
      ∀ name, HasKey arguments ("$" ++ name) → name ∈ q.parameters := by
    rw [checkArguments_eq_ok_iff]
    constructor
    · intro same
      refine ⟨fun p hp starts => ?_, fun name has => (same name).mp (.inl has)⟩
      rcases (same p).mpr hp with has | ⟨-, plain⟩
      · exact has
      · exact absurd starts plain
    · rintro ⟨again, sigiled⟩ name
      constructor
      · rintro (has | ⟨has, plain⟩)
        · exact sigiled name has
        · obtain ⟨p, hp, rfl | rfl⟩ := spelled name has
          · exact hp
          · exact absurd ⟨p, rfl⟩ plain
      · intro hp
        by_cases starts : StartsWithSigil name
        · exact .inl (again name hp starts)
        · rcases covered name hp with has | has
          · exact .inr ⟨has, starts⟩
          · exact .inl has
  have plain_fit : (∀ p ∈ q.parameters, ¬StartsWithSigil p) → q.checkArguments arguments = .ok () := by
    intro plain
    refine fit_iff.mpr ⟨fun p hp starts => absurd starts (plain p hp), fun name has => ?_⟩
    obtain ⟨p, hp, eq | eq⟩ := spelled _ has
    · exact absurd ⟨name, eq.symm⟩ (plain p hp)
    · rwa [(String.append_right_inj _).mp eq]
  refine ⟨fit_iff, plain_fit, fun reported => ⟨fun fit => ?_, plain_fit⟩⟩
  refine not_startsWithSigil_of_closed fun p hp starts => ?_
  exact (reported _).mp ((fit_iff.mp fit).1 p hp starts)

end

/-- One parameter without a sigil, and one that starts with a sigil with another one in front. -/
theorem checkArguments_spellings_mixed :
    let q : Query := ⟨"select $a, $$b", .ofList ["a", "$b"]⟩
    let arguments : List (String × Value) := [("a", .integer 1), ("$$b", .text "x")]
    ofText q.text = .ok q ∧ q.checkArguments arguments = .ok () := by
  have read : ofText "select $a, $$b" = .ok ⟨"select $a, $$b", .ofList ["a", "$b"]⟩ := by decide +kernel
  intro q arguments
  have keys (key : String) : HasKey arguments key ↔ key = "a" ∨ key = "$$b" := by simp [HasKey, arguments]
  have parameters (p : String) : p ∈ q.parameters ↔ p = "a" ∨ p = "$b" := by simp [q]
  have spelled : ∀ key, HasKey arguments key → ∃ p ∈ q.parameters, key = p ∨ key = "$" ++ p := by
    intro key has
    rcases (keys key).mp has with rfl | rfl
    · exact ⟨"a", by simp [parameters], .inl rfl⟩
    · exact ⟨"$b", by simp [parameters], .inr rfl⟩
  have covered : ∀ p ∈ q.parameters, HasKey arguments p ∨ HasKey arguments ("$" ++ p) := by
    intro p hp
    rcases (parameters p).mp hp with rfl | rfl
    · exact .inl (by simp [keys])
    · exact .inr (by simp [keys])
  refine ⟨read, (checkArguments_spellings spelled covered).1.mpr ⟨fun p hp starts => ?_, fun name has => ?_⟩⟩
  · rcases (parameters p).mp hp with rfl | rfl
    · obtain ⟨rest, eq⟩ := starts
      simpa using congrArg (fun s => s.toList.head?) eq
    · simp [keys]
  · rcases (keys _).mp has with eq | eq
    · simpa using congrArg (fun s => s.toList.head?) eq
    · have same : name = "$b" := by
        rw [← String.toList_inj] at eq ⊢
        simpa using eq
      simp [parameters, same]

/-- A parameter that starts with a sigil is refused under its own name, though the query has no other. -/
theorem checkArguments_refuses_own_name :
    let q : Query := ⟨"select $$a", .ofList ["$a"]⟩
    ofText q.text = .ok q ∧ (∀ p, p ∈ q.parameters ↔ p = "$a") ∧
      q.checkArguments [("$a", .integer 1)] = .error ⟨.missingArgument "$a", []⟩ := by
  have read : ofText "select $$a" = .ok ⟨"select $$a", .ofList ["$a"]⟩ := by decide +kernel
  have refused : checkArguments ⟨"select $$a", .ofList ["$a"]⟩ [("$a", .integer 1)] =
      .error ⟨.missingArgument "$a", []⟩ := by decide +kernel
  exact ⟨read, fun p => by simp, refused⟩

end Query

end TableQuery
