import TableQuery.Proofs.Query.Pairs
import TableQuery.Proofs.Text.Slice
import TableQuery.Query.Walk

/-! # Names and pairs cut out by bytes

What is left when a round of the loops starts are the characters of the query from some byte on, each with
its own byte. `Walks` has the kinds of rounds under this invariant: the inner loop takes a name as a scan
does (`readName_located`), and the cut between the bytes it gives is this name (`walk_sigil`). So no cut
fails, the loops answer what the scan does (`Walks.ends`), and they take every character once, up to a sigil
that is refused (`Walks.visited`). A pair is cut on both sides of its first equals sign
(`Pair.exists_cuts`). -/

namespace TableQuery.Query

section
variable {offset : Nat}

theorem located_append (a b : List Char) :
    located offset (a ++ b) = located offset a ++ located (offset + byteLength a) b := by
  induction a generalizing offset with
  | nil => simp [located]
  | cons c a ih => simp [located, ih, Nat.add_assoc]

@[simp] theorem map_located (cs : List Char) : (located offset cs).map (·.2) = cs := by
  induction cs generalizing offset with
  | nil => rfl
  | cons c cs ih => simp [located, ih]

theorem located_eq_nil_iff {cs : List Char} : located offset cs = [] ↔ cs = [] := by
  cases cs <;> simp [located]

theorem pairwise_located (cs : List Char) : (located offset cs).Pairwise fun a b => a.1 < b.1 := by
  have start {cs : List Char} {offset : Nat} : ∀ p ∈ located offset cs, offset ≤ p.1 := by
    induction cs generalizing offset with
    | nil => simp [located]
    | cons c cs ih =>
      intro p hp
      rcases List.mem_cons.mp hp with rfl | hp
      · exact Nat.le_refl _
      · have := ih p hp
        omega
  induction cs generalizing offset with
  | nil => exact .nil
  | cons c cs ih =>
    refine List.pairwise_cons.mpr ⟨fun p hp => ?_, ih⟩
    have later := start p hp
    have := c.utf8Size_pos
    show offset < p.1
    omega

theorem byteLength_eq_zero_iff {cs : List Char} : byteLength cs = 0 ↔ cs = [] := by
  rw [← utf8ByteSize_ofList, String.utf8ByteSize_eq_zero_iff, String.ofList_eq_empty_iff]

theorem slice?_of_toList {text : String} {before part after : List Char}
    (whole : text.toList = before ++ (part ++ after)) :
    Text.slice? text (byteLength before) (byteLength before + byteLength part) =
      some (String.ofList part) := by
  refine Text.slice?_eq_some_iff.mpr ⟨String.ofList before, String.ofList after, ?_, ?_, ?_⟩
  · rw [← String.toList_inj, whole]
    simp
  · exact utf8ByteSize_ofList before
  · rw [utf8ByteSize_ofList]

end

/-! ### Rounds -/

@[simp] theorem utf8Size_sigil : sigil.utf8Size = 1 := rfl

/-- The inner loop takes the characters up to the first that ends a name, and stops at its byte. -/
theorem readName_located {offset size : Nat} {cs : List Char} (ends : offset + byteLength cs = size) :
    ∃ name rest, cs = name ++ rest ∧ (∀ c ∈ name, endsName c = false) ∧
      (∀ c ∈ rest.head?, endsName c = true) ∧
      readName size (located offset cs) =
        ⟨located offset name, offset + byteLength name, located (offset + byteLength name) rest⟩ := by
  induction cs generalizing offset with
  | nil => exact ⟨[], [], rfl, by simp, by simp, by simp [readName, located, ← ends]⟩
  | cons c cs ih =>
    by_cases stop : endsName c = true
    · exact ⟨[], c :: cs, rfl, by simp, by simpa using stop, by simp [readName, located, stop]⟩
    · obtain ⟨name, rest, rfl, inside, stops, eq⟩ := ih (by rw [← ends, byteLength_cons, Nat.add_assoc])
      refine ⟨c :: name, rest, rfl, ?_, stops, ?_⟩
      · simpa [stop] using inside
      · simp [readName, located, stop, eq, Nat.add_assoc]

/-- Where a scan stands between two rounds. -/
def Mode.between : Option Char → Mode
  | none => .plain
  | some quote => .literal quote

/-- A character that is no sigil outside literals takes one round, as it takes one step of a scan. -/
theorem walk_single (text : String) {literal : Option Char} (names : NameSet) (offset : Nat) {c : Char}
    (left : List (Nat × Char)) (other : ¬(literal = none ∧ c = sigil)) :
    ∃ after, walk text literal names ((offset, c) :: left) =
        (walk text after names left).behind (.single offset c) ∧
      (Mode.between literal).step offset c = (.between after, []) := by
  cases literal with
  | some quote =>
    refine ⟨if c = quote then none else some quote, by rw [walk], ?_⟩
    by_cases closes : c = quote <;> simp [Mode.between, Mode.step, closes]
  | none =>
    have ne : c ≠ sigil := fun eq => other ⟨rfl, eq⟩
    by_cases quote : isQuote c = true
    · exact ⟨some c, by rw [walk, if_pos quote], by simp [Mode.between, Mode.step, quote]⟩
    · exact ⟨none, by rw [walk, if_neg quote, if_neg ne], by simp [Mode.between, Mode.step, quote, ne]⟩

/-- At a sigil outside literals the cut is the name that the inner loop takes. -/
theorem walk_sigil {text : String} {before cs : List Char} (whole : text.toList = before ++ sigil :: cs)
    (names : NameSet) :
    ∃ name rest, cs = name ++ rest ∧ (∀ c ∈ name, endsName c = false) ∧
      (∀ c ∈ rest.head?, endsName c = true) ∧
      walk text none names (located (byteLength before) (sigil :: cs)) =
        let start := byteLength before + 1
        let round := .mention (byteLength before) (located start name) start (start + byteLength name)
        let left := located (start + byteLength name) rest
        if name = [] then ⟨[round], left, some (.error (byteLength before))⟩
        else (walk text none (names.insert (String.ofList name)) left).behind round := by
  have size : byteLength before + 1 + byteLength cs = text.utf8ByteSize := by
    rw [← byteLength_toList, whole, byteLength_append, byteLength_cons, utf8Size_sigil, Nat.add_assoc]
  obtain ⟨name, rest, rfl, inside, stops, taken⟩ := readName_located size
  have split : text.toList = before ++ [sigil] ++ (name ++ rest) := by simpa using whole
  have cut := slice?_of_toList split
  rw [byteLength_append, byteLength_cons, byteLength_nil, Nat.add_zero, utf8Size_sigil] at cut
  have quote : isQuote sigil = false := by decide
  refine ⟨name, rest, rfl, inside, stops, ?_⟩
  rw [located, walk, utf8Size_sigil]
  simp [quote, taken, cut]

/-- `Walks m names offset cs w`: the walk `w` goes over `cs`, which starts at byte `offset` of a query,
from where the scan stands in `m`. A proof interface to `walk`: one constructor for each kind of round. -/
inductive Walks : Mode → NameSet → Nat → List Char → Walk → Prop where
  | done {m : Mode} {names : NameSet} {offset : Nat} (finish : m.finish = []) :
    Walks m names offset [] ⟨[], [], some (.ok names)⟩
  | single {m m' : Mode} {names : NameSet} {offset : Nat} {c : Char} {cs : List Char} {w : Walk}
      (step : m.step offset c = (m', [])) (tail : Walks m' names (offset + c.utf8Size) cs w) :
    Walks m names offset (c :: cs) (w.behind (.single offset c))
  | named {names : NameSet} {offset : Nat} {name rest : List Char} {w : Walk} (hne : name ≠ [])
      (inside : ∀ c ∈ name, endsName c = false) (stops : ∀ c ∈ rest.head?, endsName c = true)
      (tail : Walks .plain (names.insert (String.ofList name)) (offset + 1 + byteLength name) rest w) :
    Walks .plain names offset (sigil :: (name ++ rest))
      (w.behind (.mention offset (located (offset + 1) name) (offset + 1) (offset + 1 + byteLength name)))
  | unnamed {names : NameSet} {offset : Nat} {rest : List Char}
      (stops : ∀ c ∈ rest.head?, endsName c = true) :
    Walks .plain names offset (sigil :: rest)
      ⟨[.mention offset [] (offset + 1) (offset + 1)], located (offset + 1) rest, some (.error offset)⟩

/-- The loops go over what is left of a query, from a boundary of two characters. -/
theorem walks_walk {text : String} {before cs : List Char} (whole : text.toList = before ++ cs)
    (literal : Option Char) (names : NameSet) :
    Walks (.between literal) names (byteLength before) cs
      (walk text literal names (located (byteLength before) cs)) := by
  match cs with
  | [] =>
    rw [located, walk]
    exact .done (by cases literal <;> rfl)
  | c :: cs =>
    by_cases atSigil : literal = none ∧ c = sigil
    · obtain ⟨rfl, rfl⟩ := atSigil
      obtain ⟨name, rest, rfl, inside, stops, walked⟩ := walk_sigil whole names
      rw [walked]
      by_cases unnamed : name = []
      · subst unnamed
        exact .unnamed stops
      · -- the next round starts at the character that ends the name
        have next : text.toList = before ++ sigil :: name ++ rest := by simpa using whole
        have rounds := walks_walk next none (names.insert (String.ofList name))
        rw [byteLength_append, byteLength_cons, utf8Size_sigil, ← Nat.add_assoc] at rounds
        simpa [unnamed, Mode.between] using Walks.named unnamed inside stops rounds
    · obtain ⟨after, walked, step⟩ := walk_single text names (byteLength before)
        (located (byteLength before + c.utf8Size) cs) atSigil
      have next : text.toList = before ++ [c] ++ cs := by simpa using whole
      rw [located, walked]
      exact .single step (by simpa using walks_walk next after names)
termination_by cs.length

theorem Mode.mentions_sigil {offset : Nat} {name rest : List Char}
    (inside : ∀ c ∈ name, endsName c = false) (stops : ∀ c ∈ rest.head?, endsName c = true) :
    Mode.plain.mentions offset (sigil :: (name ++ rest)) =
      ⟨offset, name⟩ :: Mode.plain.mentions (offset + 1 + byteLength name) rest := by
  have quote : isQuote sigil = false := by decide
  rw [mentions_cons]
  simp [Mode.step, mentions_name inside stops]

namespace Walk
variable {w : Walk} {names : NameSet} {found : List Mention} {round : Round}

@[simp] theorem rounds_behind : (w.behind round).rounds = round :: w.rounds := rfl

@[simp] theorem left_behind : (w.behind round).left = w.left := rfl

@[simp] theorem answer_behind : (w.behind round).answer = w.answer := rfl

/-- How a walk ends that starts with `names` where the scan finds `found`: all of these are rounds, or the
first without a name is the last round. -/
inductive Ends (w : Walk) (names : NameSet) (found : List Mention) : Prop where
  | accepted (named : ∀ m ∈ found, m.name ≠ []) (left : w.left = [])
    (mentions : w.rounds.filterMap Round.mention? = found)
    (answer : w.answer =
      some (.ok ((found.map fun m => String.ofList m.name).foldl NameSet.insert names)))
  | refused (before : List Round) (offset : Nat) (more : List Mention)
    (named : ∀ m ∈ before.filterMap Round.mention?, m.name ≠ [])
    (rounds : w.rounds = before ++ [.mention offset [] (offset + 1) (offset + 1)])
    (mentions : found = before.filterMap Round.mention? ++ ⟨offset, []⟩ :: more)
    (answer : w.answer = some (.error offset))

theorem Ends.single (h : w.Ends names found) (offset : Nat) (c : Char) :
    (w.behind (.single offset c)).Ends names found := by
  cases h with
  | accepted named left mentions answer => exact .accepted named left (by simpa [Round.mention?]) answer
  | refused before refusedAt more named rounds mentions answer =>
    exact .refused (.single offset c :: before) refusedAt more (by simpa [Round.mention?] using named)
      (by simp [rounds]) (by rwa [List.filterMap_cons_none rfl]) answer

theorem Ends.named {name : List Char} (h : w.Ends (names.insert (String.ofList name)) found)
    (hne : name ≠ []) (offset start stop : Nat) :
    (w.behind (.mention offset (located start name) start stop)).Ends names (⟨offset, name⟩ :: found) := by
  cases h with
  | accepted named left mentions answer =>
    exact .accepted (by simpa [hne] using named) left (by simpa [Round.mention?]) answer
  | refused before refusedAt more named rounds mentions answer =>
    exact .refused (.mention offset (located start name) start stop :: before) refusedAt more
      (by simpa [Round.mention?, hne] using named) (by simp [rounds])
      (by simp [Round.mention?, mentions]) answer

end Walk

namespace Walks
variable {m : Mode} {names : NameSet} {offset : Nat} {cs : List Char} {w : Walk}

theorem ends (h : Walks m names offset cs w) : w.Ends names (m.mentions offset cs) := by
  induction h with
  | done finish => exact .accepted (by simp [finish]) rfl (by simp [finish]) (by simp [finish])
  | single step tail ih =>
    rw [Mode.mentions_cons, step]
    exact ih.single _ _
  | named hne inside stops tail ih =>
    rw [Mode.mentions_sigil inside stops]
    exact ih.named hne _ _ _
  | @unnamed names offset rest stops =>
    have inside : ∀ c ∈ ([] : List Char), endsName c = false := by simp
    exact .refused [] offset _ (by simp) rfl (Mode.mentions_sigil inside stops) rfl

/-- The loops take the characters in order, each of them once. -/
theorem visited (h : Walks m names offset cs w) :
    located offset cs = w.rounds.flatMap Round.visited ++ w.left := by
  induction h with
  | done => rfl
  | single step tail ih => simp [located, Round.visited, ih]
  | named hne inside stops tail ih => simp [located, located_append, Round.visited, ih]
  | unnamed stops => rfl

/-- The rounds from any one on are a walk of their own, from the character that this one takes first. -/
theorem exists_suffix (h : Walks m names offset cs w) {before after : List Round}
    (split : w.rounds = before ++ after) (hne : after ≠ []) :
    ∃ (ahead rest : List Char) (m' : Mode) (names' : NameSet) (w' : Walk), cs = ahead ++ rest ∧
      Walks m' names' (offset + byteLength ahead) rest w' ∧ w'.rounds = after ∧ w'.left = w.left := by
  induction before generalizing m names offset cs w with
  | nil => exact ⟨[], cs, m, names, w, rfl, h, split, rfl⟩
  | cons r before ih =>
    cases h with
    | done => simp at split
    | @single m m' names offset c cs w step tail =>
      obtain ⟨ahead, rest, m', names', w', rfl, walks, found⟩ := ih tail (List.cons.inj split).2
      exact ⟨c :: ahead, rest, m', names', w', rfl, by simpa [Nat.add_assoc] using walks, found⟩
    | @named names offset name rest w _ inside stops tail =>
      obtain ⟨ahead, rest, m', names', w', rfl, walks, found⟩ := ih tail (List.cons.inj split).2
      exact ⟨sigil :: (name ++ ahead), rest, m', names', w', by simp, by simpa [Nat.add_assoc] using walks,
        found⟩
    | unnamed stops =>
      have empty : [] = before ++ after := (List.cons.inj split).2
      exact absurd (List.append_eq_nil_iff.mp empty.symm).2 hne

/-- What a walk goes over whose first round takes a sigil with its name. -/
theorem first_mention (h : Walks m names offset cs w) {sigilAt start stop : Nat} {read : List (Nat × Char)}
    {after : List Round} (first : w.rounds = .mention sigilAt read start stop :: after) :
    ∃ name rest, cs = sigil :: (name ++ rest) ∧ sigilAt = offset ∧ start = offset + 1 ∧
      stop = start + byteLength name ∧ read = located start name ∧
      after.flatMap Round.visited ++ w.left = located stop rest := by
  cases h with
  | done => cases first
  | single step tail => cases first
  | @named names offset name rest w _ inside stops tail =>
    cases first
    exact ⟨name, rest, rfl, rfl, rfl, rfl, rfl, tail.visited.symm⟩
  | @unnamed names offset rest stops =>
    cases first
    exact ⟨[], rest, rfl, rfl, rfl, rfl, rfl, rfl⟩

end Walks

/-! ### The cuts -/

/-- A name cut out of `text` between two bytes, behind the sigil at byte `offset`: it is what the inner loop
`read`, and what is left `ahead` is the rest of the text, from the second byte on. -/
structure CutsName (text : String) (offset : Nat) (read : List (Nat × Char)) (start stop : Nat)
    (ahead : List (Nat × Char)) : Prop where
  behind : start = offset + sigil.utf8Size
  ordered : start ≤ stop
  within : stop ≤ text.utf8ByteSize
  valid_start : String.Pos.Raw.IsValid text ⟨start⟩
  valid_stop : String.Pos.Raw.IsValid text ⟨stop⟩
  name : Text.slice? text start stop = some (String.ofList (read.map (·.2)))
  resumes : ∃ rest, Text.slice? text stop text.utf8ByteSize = some rest ∧ ahead = located stop rest.toList
  ends : ahead = [] ↔ stop = text.utf8ByteSize

theorem cutsName_of_toList {text : String} {before name rest : List Char}
    (whole : text.toList = before ++ sigil :: (name ++ rest)) :
    CutsName text (byteLength before) (located (byteLength before + 1) name) (byteLength before + 1)
      (byteLength before + 1 + byteLength name) (located (byteLength before + 1 + byteLength name) rest) := by
  have size : text.utf8ByteSize = byteLength before + 1 + byteLength name + byteLength rest := by
    rw [← byteLength_toList, whole]
    simp [Nat.add_assoc]
  have atName : text.toList = before ++ [sigil] ++ (name ++ rest) := by simpa using whole
  have atRest : text.toList = before ++ sigil :: name ++ (rest ++ []) := by simpa using whole
  have cut := slice?_of_toList atName
  have left := slice?_of_toList atRest
  simp only [byteLength_append, byteLength_cons, byteLength_nil, utf8Size_sigil, Nat.add_zero,
    ← Nat.add_assoc] at cut left
  obtain ⟨ordered, within, valid_start, valid_stop⟩ := Text.bounds_of_slice? cut
  refine ⟨rfl, ordered, within, valid_start, valid_stop, by rwa [map_located],
    ⟨_, size ▸ left, by simp⟩, ?_⟩
  rw [located_eq_nil_iff, size, ← byteLength_eq_zero_iff]
  omega

theorem walks_loops (text : String) : Walks .plain .empty 0 text.toList (loops text) :=
  walks_walk (List.nil_append text.toList).symm none .empty

theorem cutsName_of_rounds {text : String} {before after : List Round} {offset start stop : Nat}
    {read : List (Nat × Char)}
    (split : (loops text).rounds = before ++ .mention offset read start stop :: after) :
    CutsName text offset read start stop (after.flatMap Round.visited ++ (loops text).left) := by
  -- the round is the first of the walk over what was left for it
  obtain ⟨ahead, cs, m, names, w, whole, walks, rounds, left⟩ :=
    (walks_loops text).exists_suffix split (by simp)
  obtain ⟨name, rest, rfl, rfl, rfl, rfl, rfl, next⟩ := walks.first_mention rounds
  rw [← left, next, Nat.zero_add]
  exact cutsName_of_toList whole

theorem scan_of_ends {query : List Char} {w : Walk} (h : w.Ends .empty (mentions query)) :
    w.answer = some (scan query) := by
  cases h with
  | accepted named left mentions answer => rw [answer, scan_of_named named, NameSet.ofList]
  | refused before offset more named rounds mentions answer => rw [answer, scan_of_unnamed mentions named]

end TableQuery.Query

namespace TableQuery.Pair

/-- A pair cut at the byte `pos` of its first equals sign: the name stands before it, the value behind. -/
structure Cuts (s : String) (pos : Nat) (name value : String) : Prop where
  found : (s.find? '=').map (·.offset.byteIdx) = some pos
  first : '=' ∉ name.toList
  valid_pos : String.Pos.Raw.IsValid s ⟨pos⟩
  valid_behind : String.Pos.Raw.IsValid s ⟨pos + 1⟩
  name_cut : Text.slice? s 0 pos = some name
  value_cut : Text.slice? s (pos + 1) s.utf8ByteSize = some value
  whole : name ++ "=" ++ value = s

theorem cuts_append {name : String} (first : '=' ∉ name.toList) (value : String) :
    Cuts (name ++ "=" ++ value) name.utf8ByteSize name value := by
  have sign : "=".utf8ByteSize = 1 := rfl
  have same : name ++ "=" ++ value = name ++ ("=" ++ value) := String.append_assoc
  have size : name.utf8ByteSize + 1 + value.utf8ByteSize = (name ++ "=" ++ value).utf8ByteSize := by
    simp [sign]
  have name_cut : Text.slice? (name ++ "=" ++ value) 0 name.utf8ByteSize = some name :=
    Text.slice?_eq_some_iff.mpr ⟨"", "=" ++ value, by simp [same], rfl, Nat.zero_add _⟩
  have value_cut : Text.slice? (name ++ "=" ++ value) (name.utf8ByteSize + 1)
      (name ++ "=" ++ value).utf8ByteSize = some value :=
    Text.slice?_eq_some_iff.mpr ⟨name ++ "=", "", by simp, by simp [sign], size⟩
  obtain ⟨-, -, -, valid_pos⟩ := Text.bounds_of_slice? name_cut
  obtain ⟨-, -, valid_behind, -⟩ := Text.bounds_of_slice? value_cut
  have found : String.find? (name ++ "=" ++ value) '=' = some ⟨_, valid_pos⟩ :=
    String.find?_char_eq_some_iff_splits.mpr ⟨name, value, ⟨same, rfl⟩, first⟩
  exact ⟨by rw [found]; rfl, first, valid_pos, valid_behind, name_cut, value_cut, rfl⟩

theorem exists_cuts {s : String} (sign : '=' ∈ s.toList) :
    ∃ pos name value, Cuts s pos name value ∧ split? s = some (name, value) := by
  obtain ⟨name, value, split, first⟩ := List.eq_append_cons_of_mem sign
  obtain rfl : s = String.ofList name ++ "=" ++ String.ofList value := by
    rw [← String.toList_inj, split]
    simp
  have free : '=' ∉ (String.ofList name).toList := by rwa [String.toList_ofList]
  exact ⟨_, _, _, cuts_append free _, split?_eq_some_iff.mpr ⟨rfl, free⟩⟩

end TableQuery.Pair

namespace TableQuery.Query

/-- The loops answer what the scan of a query does, so no cut of a name fails. They take the characters of
the query in order, each of them once: all of them, with the mentions that the scan finds, or those up to
the first sigil without a name, where they answer its byte. Behind every sigil that they meet outside
literals the name is cut out as the characters that the inner loop took, and the next round starts at the
byte where it ends. A pair is cut in the same way, at its first equals sign. -/
theorem loops_cut_what_they_read (text s : String) :
    (loops text).answer = some (scan text.toList) ∧
    (located 0 text.toList = (loops text).rounds.flatMap Round.visited ++ (loops text).left ∧
      (located 0 text.toList).Pairwise fun a b => a.1 < b.1) ∧
    ((∃ names, scan text.toList = .ok names ∧ (loops text).left = [] ∧
        (loops text).rounds.filterMap Round.mention? = mentions text.toList) ∨
      ∃ before offset more, scan text.toList = .error offset ∧
        (loops text).rounds = before ++ [.mention offset [] (offset + 1) (offset + 1)] ∧
        mentions text.toList = (loops text).rounds.filterMap Round.mention? ++ more) ∧
    (∀ before offset read start stop after,
      (loops text).rounds = before ++ .mention offset read start stop :: after →
      CutsName text offset read start stop (after.flatMap Round.visited ++ (loops text).left)) ∧
    ('=' ∈ s.toList → ∃ pos name value, Pair.Cuts s pos name value ∧
      Pair.split? s = some (name, value)) := by
  have walks := walks_loops text
  have ends : (loops text).Ends .empty (mentions text.toList) := walks.ends
  refine ⟨scan_of_ends ends, ⟨walks.visited, pairwise_located _⟩, ?_,
    fun before offset read start stop after split => cutsName_of_rounds split, Pair.exists_cuts⟩
  cases ends with
  | accepted named left found answer => exact .inl ⟨_, scan_of_named named, left, found⟩
  | refused before offset more named rounds found answer =>
    refine .inr ⟨before, offset, more, scan_of_unnamed found named, rounds, ?_⟩
    rw [found, rounds]
    simp [Round.mention?]

/-- A name of three bytes that a quote ends, a sigil that is refused behind it, and a pair with two equals
signs. -/
theorem loops_cut_what_they_read_accented :
    let q := "é=$né'$x' $ z"
    (loops q).rounds = [.single 0 'é', .single 2 '=', .mention 3 [(4, 'n'), (5, 'é')] 4 7,
        .single 7 '\x27', .single 8 '$', .single 9 'x', .single 10 '\x27', .single 11 ' ',
        .mention 12 [] 13 13] ∧
      CutsName q 3 [(4, 'n'), (5, 'é')] 4 7 (located 7 "'$x' $ z".toList) ∧
      CutsName q 12 [] 13 13 (located 13 " z".toList) ∧
      Pair.Cuts "né=a=ü" 3 "né" "a=ü" := by
  intro q
  obtain ⟨-, -, -, cuts, pair⟩ := loops_cut_what_they_read q "né=a=ü"
  have rounds : (loops q).rounds = [.single 0 'é', .single 2 '=', .mention 3 [(4, 'n'), (5, 'é')] 4 7,
      .single 7 '\x27', .single 8 '$', .single 9 'x', .single 10 '\x27', .single 11 ' ',
      .mention 12 [] 13 13] := by decide +kernel
  have left : (loops q).left = [(13, ' '), (14, 'z')] := by decide +kernel
  obtain ⟨pos, name, value, cut, split⟩ := pair (by decide)
  have parts : Pair.split? "né=a=ü" = some ("né", "a=ü") := by decide +kernel
  obtain ⟨rfl, rfl⟩ := Prod.mk.inj (Option.some.inj (split.symm.trans parts))
  obtain ⟨-, -, -, -, rfl⟩ := Text.slice?_eq_some_iff.mp cut.name_cut
  rw [rounds, left] at cuts
  exact ⟨rounds, cuts [_, _] _ _ _ _ _ rfl, cuts [_, _, _, _, _, _, _, _] _ _ _ _ _ rfl, cut⟩

end TableQuery.Query
