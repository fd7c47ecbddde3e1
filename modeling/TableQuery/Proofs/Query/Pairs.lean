import Mathlib.Data.List.TakeWhile
import TableQuery.Proofs.Query.Given
import TableQuery.Query.Pair

/-! # Arguments written as pairs

A pair is split at its first equals sign (`Pair.split?_eq_some_iff`), so a name without one is read back
whatever its value holds. No parameter holds an equals sign, and a sigil in front of it is not taken for a
part of it: every parameter can be given a value in writing (`checkArguments_written`). -/

namespace TableQuery

namespace Pair

theorem split?_eq_some_iff {s name value : String} :
    split? s = some (name, value) ↔ s = name ++ "=" ++ value ∧ '=' ∉ name.toList := by
  constructor
  · intro h
    unfold split? at h
    split at h
    · rename_i c rest found
      obtain ⟨rfl, rfl⟩ := Prod.mk.inj (Option.some.inj h)
      have sign : c = '=' := by
        have first := List.head?_dropWhile_not (· != '=') s.toList
        rw [found] at first
        simpa using first
      have whole := List.takeWhile_append_dropWhile (p := (· != '=')) (l := s.toList)
      rw [found, sign] at whole
      refine ⟨?_, fun mem => ?_⟩
      · rw [← String.toList_inj]
        simpa using whole.symm
      · rw [String.toList_ofList] at mem
        simpa using List.mem_takeWhile_imp mem
    · cases h
  · rintro ⟨rfl, free⟩
    have name_ne : ∀ c ∈ name.toList, (c != '=') = true := by
      intro c hc
      simp only [bne_iff_ne, ne_eq]
      rintro rfl
      exact free hc
    have chars : (name ++ "=" ++ value).toList = name.toList ++ '=' :: value.toList := by simp
    rw [split?, chars, List.dropWhile_append_of_pos name_ne, List.takeWhile_append_of_pos name_ne]
    simp

theorem readArgument_pair {name : String} (free : '=' ∉ name.toList) (value : String) :
    readArgument (name ++ "=" ++ value) = .ok (name, .ofText value) := by
  rw [readArgument, read, split?_eq_some_iff.mpr ⟨rfl, free⟩]
  rfl

end Pair

namespace Query

/-- The arguments, in any order, give each of the `names` its text in `v`, with a sigil in front of the
name, and nothing else. -/
def Assigns (v : String → String) (names : String → Prop) (arguments : List (String × Value)) : Prop :=
  ∀ a, a ∈ arguments ↔ ∃ n, names n ∧ a = ("$" ++ n, .ofText (v n))

section
variable {text : String} {q : Query} {v : String → String} {names : String → Prop}
  {arguments : List (String × Value)}

theorem Assigns.gives_iff (h : Assigns v names arguments) (name : String) :
    Gives arguments name ↔ names name := by
  have keys (key : String) : HasKey arguments key ↔ ∃ n, names n ∧ key = "$" ++ n := by
    rw [HasKey, List.mem_map]
    constructor
    · rintro ⟨a, ha, rfl⟩
      obtain ⟨n, hn, rfl⟩ := (h a).mp ha
      exact ⟨n, hn, rfl⟩
    · rintro ⟨n, hn, rfl⟩
      exact ⟨_, (h _).mpr ⟨n, hn, rfl⟩, rfl⟩
  rw [Gives, keys, keys]
  constructor
  · rintro (⟨n, hn, eq⟩ | ⟨⟨n, hn, eq⟩, plain⟩)
    · rwa [(String.append_right_inj _).mp eq]
    · exact absurd ⟨n, eq⟩ plain
  · intro hn
    exact .inl ⟨name, hn, rfl⟩

theorem gives_of_added {full : List (String × Value)} {key : String} {value : Value}
    (h : ∀ a, a ∈ arguments ↔ a = (key, value) ∨ a ∈ full) (name : String) :
    Gives arguments name ↔ name = dropSigil key ∨ Gives full name := by
  have keys (k : String) : HasKey arguments k ↔ HasKey ((key, value) :: full) k := by
    simp only [HasKey, List.mem_map, h, List.mem_cons]
  rw [gives_congr keys, gives_cons]

end

/-- Every parameter can be given any text in writing, with a sigil in front: the pair is read back, and
arguments for all parameters fit. If some are left out, the least of these is missed, and an argument
that is added under another name is one too many. -/
theorem checkArguments_written {text : String} {q : Query} (read : ofText text = .ok q)
    (v : String → String) :
    (∀ n ∈ q.parameters, Pair.readArgument ("$" ++ n ++ "=" ++ v n) = .ok ("$" ++ n, .ofText (v n))) ∧
    (∀ arguments, Assigns v (· ∈ q.parameters) arguments → q.checkArguments arguments = .ok ()) ∧
    (∀ (omitted : Set String) (arguments : List (String × Value)), (∃ n ∈ q.parameters, n ∈ omitted) →
      Assigns v (fun n => n ∈ q.parameters ∧ n ∉ omitted) arguments →
      ∃ p, IsLeast {n | n ∈ q.parameters ∧ n ∈ omitted} p ∧
        q.checkArguments arguments = .error ⟨.missingArgument p, []⟩) ∧
    ∀ key w, '=' ∉ key.toList → dropSigil key ∉ q.parameters →
      Pair.readArgument (key ++ "=" ++ w) = .ok (key, .ofText w) ∧
      ∀ full arguments, Assigns v (· ∈ q.parameters) full →
        (∀ a, a ∈ arguments ↔ a = (key, .ofText w) ∨ a ∈ full) →
        q.checkArguments arguments = .error ⟨.unexpectedArgument (dropSigil key) q.text, []⟩ := by
  refine ⟨fun n hn => ?_, fun arguments all => ?_, fun omitted arguments left rest => ?_,
    fun key w free other => ⟨Pair.readArgument_pair free w, fun full arguments all added => ?_⟩⟩
  · have free : '=' ∉ n.toList := not_mem_of_endsName read hn (by decide)
    exact Pair.readArgument_pair (by simpa using free) (v n)
  · exact checkArguments_eq_ok_iff.mpr all.gives_iff
  · have missed (n : String) : n ∈ q.parameters ∧ ¬Gives arguments n ↔ n ∈ q.parameters ∧ n ∈ omitted := by
      rw [rest.gives_iff]
      tauto
    obtain ⟨n, hn, homitted⟩ := left
    obtain ⟨p, least⟩ := exists_missing ⟨n, ((missed n).mpr ⟨hn, homitted⟩)⟩
    refine ⟨p, ?_, checkArguments_of_missing least⟩
    simpa only [missed] using least
  · have gives (n : String) : Gives arguments n ↔ n = dropSigil key ∨ n ∈ q.parameters := by
      rw [gives_of_added added, all.gives_iff]
    have complete : ∀ n ∈ q.parameters, Gives arguments n := fun n hn => (gives n).mpr (.inr hn)
    refine checkArguments_of_unexpected complete ⟨⟨(gives _).mpr (.inl rfl), other⟩, ?_⟩
    rintro n ⟨hn, outside⟩
    exact le_of_eq (((gives n).mp hn).resolve_right outside).symm

/-- Two parameters, one of which starts with a sigil, and a text that holds an equals sign and a sigil. -/
theorem checkArguments_written_two :
    let q : Query := ⟨"select $a, $$b", .ofList ["a", "$b"]⟩
    let x : Value := .ofText "x=$"
    ofText q.text = .ok q ∧ Pair.readArgument "$$b=x=$" = .ok ("$$b", x) ∧
      q.checkArguments [("$$b", x), ("$a", x)] = .ok () ∧
      q.checkArguments [("$$b", x)] = .error ⟨.missingArgument "a", []⟩ ∧
      q.checkArguments [("$$b", x), ("z", .ofText "1"), ("$a", x)] =
        .error ⟨.unexpectedArgument "z" q.text, []⟩ := by
  have read : ofText "select $a, $$b" = .ok ⟨"select $a, $$b", .ofList ["a", "$b"]⟩ := by decide +kernel
  intro q x
  obtain ⟨pair, fits, missed, added⟩ := checkArguments_written read fun _ => "x=$"
  have parameters (n : String) : n ∈ q.parameters ↔ n = "a" ∨ n = "$b" := by simp [q]
  have full : Assigns (fun _ => "x=$") (· ∈ q.parameters) [("$$b", x), ("$a", x)] := by
    intro a
    simp only [parameters, List.mem_cons, List.not_mem_nil, or_false]
    constructor
    · rintro (rfl | rfl)
      · exact ⟨"$b", .inr rfl, rfl⟩
      · exact ⟨"a", .inl rfl, rfl⟩
    · rintro ⟨n, rfl | rfl, rfl⟩
      · exact .inr rfl
      · exact .inl rfl
  have rest : Assigns (fun _ => "x=$") (fun n => n ∈ q.parameters ∧ n ∉ ({"a"} : Set String))
      [("$$b", x)] := by
    intro a
    simp only [parameters, List.mem_singleton, Set.mem_singleton_iff]
    constructor
    · rintro rfl
      exact ⟨"$b", ⟨.inr rfl, by decide⟩, rfl⟩
    · rintro ⟨n, ⟨rfl | rfl, other⟩, rfl⟩
      · exact absurd rfl other
      · rfl
  refine ⟨read, pair "$b" ((parameters _).mpr (.inr rfl)), fits _ full, ?_, ?_⟩
  · obtain ⟨p, least, refused⟩ := missed {"a"} _ ⟨"a", (parameters _).mpr (.inl rfl), rfl⟩ rest
    obtain rfl : p = "a" := least.1.2
    exact refused
  · have other : dropSigil "z" ∉ q.parameters := by
      show "z" ∉ q.parameters
      rw [parameters]
      decide
    refine (added "z" "1" (by decide) other).2 _ _ full fun a => ?_
    simp only [List.mem_cons, List.not_mem_nil, or_false]
    tauto

end Query

end TableQuery
