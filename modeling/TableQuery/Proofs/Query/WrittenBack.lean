import TableQuery.Proofs.Query.Arguments
import TableQuery.Proofs.Query.Items

/-! # Parameters written back

The parameters of a query are names that can be written (`IsName`), and each stands in the query after a
sigil. Conversely a row of such names, each after a sigil and before a separator, is divided into these
names and the characters of the separators (`divides_row`), so it is a query with just these parameters.
Together: the parameters of a query, written in a row, are read as the same set
(`ofText_row`). -/

namespace TableQuery.Query

/-- A name without delimiters, blanks and quotes. -/
def IsName (name : String) : Prop :=
  name ≠ "" ∧ ∀ c ∈ name.toList, c ∉ [',', ';', ')', '='] ∧ isQuote c = false ∧ Text.isBlank c = false

/-- Some delimiters and blanks. -/
def IsSeparator (separator : String) : Prop :=
  separator ≠ "" ∧ ∀ c ∈ separator.toList, isDelimiter c = true ∨ Text.isBlank c = true

instance (name : String) : Decidable (IsName name) :=
  @instDecidableAnd _ _ inferInstance (List.decidableBAll _ name.toList)

instance (separator : String) : Decidable (IsSeparator separator) :=
  @instDecidableAnd _ _ inferInstance (List.decidableBAll _ separator.toList)

/-- Names in a row, each with a sigil before it and its separator after it. -/
def row (parts : List (String × String)) : String :=
  String.join (parts.map fun (name, separator) => "$" ++ name ++ separator)

/-- The space is a delimiter and a blank, so it need not be named among the delimiters. -/
theorem endsName_eq_false_iff {c : Char} : endsName c = false ↔
    c ∉ [',', ';', ')', '='] ∧ isQuote c = false ∧ Text.isBlank c = false := by
  have space (h : Text.isBlank c = false) : c ≠ ' ' := by
    rintro rfl
    exact absurd h (by decide)
  simp only [endsName, isDelimiter, Bool.or_eq_false_iff, List.contains_eq_mem, decide_eq_false_iff_not,
    List.mem_cons, List.not_mem_nil, or_false, not_or]
  grind

theorem isName_iff {name : String} : IsName name ↔ name ≠ "" ∧ ∀ c ∈ name.toList, endsName c = false := by
  simp only [IsName, endsName_eq_false_iff]

theorem IsSeparator.endsName {separator : String} (h : IsSeparator separator) {c : Char}
    (hc : c ∈ separator.toList) : endsName c = true := by
  simpa [Query.endsName] using .inl (h.2 c hc)

theorem IsSeparator.plain {separator : String} (h : IsSeparator separator) {c : Char}
    (hc : c ∈ separator.toList) : (Item.plain c).Formed := by
  have separates := h.2 c hc
  constructor
  · refine Bool.eq_false_iff.mpr fun quote => ?_
    simp only [isQuote, Bool.or_eq_true, beq_iff_eq] at quote
    rcases quote with rfl | rfl <;> exact absurd separates (by decide)
  · rintro rfl
    exact absurd separates (by decide)

theorem Divides.occurs_of_mem {items : List Item} {cs : List Char} (h : Divides items cs) :
    ∀ item ∈ items, item.chars <:+: cs := by
  induction h with
  | nil => exact fun _ h => nomatch h
  | @cons first items rest _ _ _ ih =>
    intro item hitem
    rcases List.mem_cons.mp hitem with rfl | hitem
    · exact (List.prefix_append _ rest).isInfix
    · exact (ih item hitem).trans (List.suffix_append first.chars rest).isInfix

theorem exists_items_of_ofText {text : String} {q : Query} (h : ofText text = .ok q) :
    ∃ items, Divides items text.toList ∧ ∀ name, name ∈ q.parameters ↔ .mention name.toList ∈ items := by
  obtain ⟨items, divides⟩ := exists_divides text.toList
  have scanned := scan_of_ofText h
  by_cases unnamed : .mention [] ∈ items
  · obtain ⟨before, after, rfl, first⟩ := List.eq_append_cons_of_mem unnamed
    rw [divides.scan_unnamed first] at scanned
    cases scanned
  · obtain ⟨names, scanned', mem⟩ := divides.scan_named unnamed
    obtain rfl := Except.ok.inj (scanned'.symm.trans scanned)
    exact ⟨items, divides, mem⟩

theorem isName_of_ofText {text : String} {q : Query} (h : ofText text = .ok q) {name : String}
    (hn : name ∈ q.parameters) : IsName name ∧ sigil :: name.toList <:+: text.toList := by
  obtain ⟨items, divides, mem⟩ := exists_items_of_ofText h
  exact ⟨isName_iff.mpr (free_of_ofText h hn), divides.occurs_of_mem _ ((mem name).mp hn)⟩

/-- The items of a row. -/
def rowItems (parts : List (String × String)) : List Item :=
  parts.flatMap fun (name, separator) => .mention name.toList :: separator.toList.map .plain

theorem Divides.plains {items : List Item} {cs plains : List Char} (h : Divides items cs)
    (formed : ∀ c ∈ plains, (Item.plain c).Formed) : Divides (plains.map .plain ++ items) (plains ++ cs) := by
  induction plains with
  | nil => exact h
  | cons c plains ih =>
    exact .cons (formed c (by simp)) trivial (ih fun d hd => formed d (by simp [hd]))

theorem row_cons (name separator : String) (parts : List (String × String)) :
    (row ((name, separator) :: parts)).toList =
      sigil :: name.toList ++ (separator.toList ++ (row parts).toList) := by
  simp [row, sigil]

theorem divides_row {parts : List (String × String)} (h : ∀ p ∈ parts, IsName p.1 ∧ IsSeparator p.2) :
    Divides (rowItems parts) (row parts).toList := by
  induction parts with
  | nil => exact .nil
  | cons p parts ih =>
    obtain ⟨name, separator⟩ := p
    obtain ⟨isName, isSeparator⟩ := h (name, separator) (by simp)
    have rest : Divides (rowItems parts) (row parts).toList := ih fun p hp => h p (by simp [hp])
    rw [row_cons]
    have stops : ∀ c ∈ (separator.toList ++ (row parts).toList).head?, endsName c = true := by
      cases eq : separator.toList with
      | nil => exact absurd (String.toList_eq_nil_iff.mp eq) isSeparator.1
      | cons c cs => simpa using isSeparator.endsName (c := c) (by simp [eq])
    exact .cons (isName_iff.mp isName).2 stops (rest.plains fun c hc => isSeparator.plain hc)

theorem mem_rowItems {parts : List (String × String)} {name : List Char} :
    .mention name ∈ rowItems parts ↔ ∃ p ∈ parts, p.1.toList = name := by
  simp [rowItems, eq_comm]

theorem ofText_row_of_names {parts : List (String × String)} (h : ∀ p ∈ parts, IsName p.1 ∧ IsSeparator p.2) :
    ofText (row parts) = .ok ⟨row parts, .ofList (parts.map (·.1))⟩ := by
  have unnamed : .mention [] ∉ rowItems parts := by
    intro hn
    obtain ⟨p, hp, empty⟩ := mem_rowItems.mp hn
    exact (h p hp).1.1 (String.toList_eq_nil_iff.mp empty)
  obtain ⟨names, scanned, mem⟩ := (divides_row h).scan_named unnamed
  obtain rfl : names = .ofList (parts.map (·.1)) := NameSet.ext_mem fun a => by
    rw [mem, mem_rowItems, NameSet.mem_ofList, List.mem_map]
    simp only [String.toList_inj]
  exact ofText_of_scan_ok scanned

/-- The parameters of a query are names, and each stands in it after a sigil. Names in a row are a query
with just these parameters, whatever separates them. So the parameters of a query, written in a row in
any order and number, are the parameters of the row. -/
theorem ofText_row :
    (∀ text q, ofText text = .ok q → ∀ name ∈ q.parameters,
      IsName name ∧ sigil :: name.toList <:+: text.toList) ∧
    (∀ parts, (∀ p ∈ parts, IsName p.1 ∧ IsSeparator p.2) →
      ofText (row parts) = .ok ⟨row parts, .ofList (parts.map (·.1))⟩) ∧
    ∀ text q parts, ofText text = .ok q → (∀ p ∈ parts, IsSeparator p.2) →
      (∀ name, name ∈ parts.map (·.1) ↔ name ∈ q.parameters) →
      ofText (row parts) = .ok ⟨row parts, q.parameters⟩ := by
  refine ⟨fun text q h name hn => isName_of_ofText h hn, fun parts h => ofText_row_of_names h,
    fun text q parts h separators same => ?_⟩
  have names : ∀ p ∈ parts, IsName p.1 ∧ IsSeparator p.2 := fun p hp =>
    ⟨(isName_of_ofText h ((same p.1).mp (List.mem_map_of_mem hp))).1, separators p hp⟩
  have parameters : NameSet.ofList (parts.map (·.1)) = q.parameters :=
    NameSet.ext_mem fun a => by rw [NameSet.mem_ofList, same]
  rw [ofText_row_of_names names, parameters]

/-- Names with a sigil, a point and a character beyond ASCII, one of them twice. -/
def marks : List (String × String) := [("é", "=\n"), ("a.b", ";"), ("$x", ")\u00a0"), ("a.b", ",")]

/-- A query with these names. -/
def marked : Query := ⟨"set b = $$x, é=$é where a = '$c' or a = $a.b", .ofList ["a.b", "$x", "é"]⟩

theorem ofText_row_marks :
    ofText marked.text = .ok marked ∧ (∀ p ∈ marks, IsName p.1 ∧ IsSeparator p.2) ∧
    (∀ name, name ∈ marks.map (·.1) ↔ name ∈ marked.parameters) ∧
    ofText (row marks) = .ok ⟨row marks, marked.parameters⟩ ∧
    ∀ name ∈ marked.parameters, IsName name ∧ sigil :: name.toList <:+: marked.text.toList := by
  have read : ofText marked.text = .ok marked := rfl
  have names : ∀ p ∈ marks, IsName p.1 ∧ IsSeparator p.2 := by decide
  have same : ∀ name, name ∈ marks.map (·.1) ↔ name ∈ marked.parameters := by
    intro name
    simp only [marks, marked, NameSet.mem_ofList, List.map_cons, List.map_nil, List.mem_cons]
    grind
  obtain ⟨found, -, again⟩ := ofText_row
  exact ⟨read, names, same, again _ _ _ read (fun p hp => (names p hp).2) same, found _ _ read⟩

end TableQuery.Query
