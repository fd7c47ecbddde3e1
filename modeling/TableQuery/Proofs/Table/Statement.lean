import TableQuery.Proofs.Table.Clauses
import TableQuery.Table.Statement

/-! # What a statement tells

The clauses of a statement are recovered from it, and a column, a primary key and a foreign key are
told apart by their parentheses and first words, whatever the columns are called. So two definitions
that are `Legible` have the same statement only if they are the same, an absent primary key and an
empty one aside (`statement_eq_iff`). -/

namespace TableQuery.Definition

/-- A table with at least one of its columns, as in `users(id,name)`. -/
def IsGroupedReference (text : String) : Prop :=
  ∃ table columns, isIdentifier table = true ∧ columns ≠ [] ∧ (∀ c ∈ columns, isIdentifier c = true) ∧
    text = table ++ "(" ++ commaJoined columns ++ ")"

structure Legible (d : Definition) : Prop where
  valid : d.validate = .ok ()
  clauses : ∀ c ∈ d.columns, ∀ x ∈ c.clause.toList, x ≠ ',' ∧ x ≠ '(' ∧ x ≠ ')'
  references : ∀ k ∈ d.foreignKeys, IsGroupedReference k.reference

theorem toList_columnClause (c : Column) :
    (columnClause c).toList = c.name.toList ++ ' ' :: c.clause.toList := by
  have space : " ".toList = [' '] := rfl
  unfold columnClause
  generalize " " = between at space ⊢
  simp only [String.toList_append, space, List.append_assoc, List.singleton_append]

theorem toList_group {opening closing words : String} {after : List Char}
    (hopening : opening.toList = words.toList ++ ['(']) (hclosing : closing.toList = ')' :: after)
    (names : String) :
    (opening ++ names ++ closing).toList = words.toList ++ '(' :: (names.toList ++ ')' :: after) := by
  simp only [String.toList_append, hopening, hclosing, List.append_assoc, List.cons_append, List.nil_append]

theorem toList_primaryClause (keys : List String) :
    (primaryClause keys).toList = "PRIMARY KEY".toList ++ '(' :: ((commaJoined keys).toList ++ [')']) :=
  toList_group rfl rfl _

theorem toList_foreignClause (k : ForeignKey) :
    (foreignClause k).toList = "FOREIGN KEY".toList ++ '(' :: ((commaJoined k.keys).toList ++
      ')' :: (" REFERENCES ".toList ++ k.reference.toList)) := by
  have chars : (foreignClause k).toList = "FOREIGN KEY".toList ++
      '(' :: ((commaJoined k.keys).toList ++ ')' :: " REFERENCES ".toList) ++ k.reference.toList :=
    (String.toList_append ..).trans (congrArg (· ++ k.reference.toList) (toList_group rfl rfl _))
  generalize "FOREIGN KEY".toList = words at chars ⊢
  generalize " REFERENCES ".toList = refers at chars ⊢
  simpa only [List.append_assoc, List.cons_append] using chars

/-- What follows the closing parenthesis of a statement. -/
def rowidSuffix (d : Definition) : String := if d.withoutRowid then " WITHOUT ROWID" else ""

theorem toList_statement (d : Definition) :
    d.statement.toList = "CREATE TABLE IF NOT EXISTS ".toList ++ (d.name.toList ++
      (" (".toList ++ ((commaJoined d.clauses).toList ++ ')' :: d.rowidSuffix.toList))) := by
  have closing : ")".toList = [')'] := rfl
  unfold statement
  rw [← rowidSuffix]
  generalize "CREATE TABLE IF NOT EXISTS " = first
  generalize " (" = opening
  generalize ")" = last at closing ⊢
  simp only [String.toList_append, List.append_assoc, closing, List.singleton_append]

theorem primaryClauses_eq (d : Definition) :
    d.primaryClauses = match d.primaryKeys.getD [] with
      | [] => []
      | key :: keys => [primaryClause (key :: keys)] := by
  unfold primaryClauses
  cases d.primaryKeys with
  | none => rfl
  | some keys => cases keys <;> rfl

theorem passed_columnClause {c : Column} (name : isIdentifier c.name = true)
    (clause : ∀ x ∈ c.clause.toList, x ≠ ',' ∧ x ≠ '(' ∧ x ≠ ')') : Passed 0 (columnClause c).toList := by
  rw [toList_columnClause]
  refine (passed_of_isIdentifier name 0).append fun x hx => ?_
  rcases List.mem_cons.mp hx with rfl | hx
  · decide
  · obtain ⟨comma, opening, closing⟩ := clause x hx
    exact ⟨opening, closing, fun h => absurd h comma⟩

theorem closes_primaryClause {keys : List String} (h : ∀ key ∈ keys, isIdentifier key = true) :
    Closes 0 (primaryClause keys).toList := by
  have words : Passed 0 "PRIMARY KEY".toList := by decide
  rw [toList_primaryClause, Closes.group words (passed_commaJoined h 0)]
  rfl

theorem IsGroupedReference.closes {text : String} (h : IsGroupedReference text) : Closes 0 text.toList := by
  obtain ⟨table, columns, name, -, identifiers, rfl⟩ := h
  have chars : (table ++ "(" ++ commaJoined columns ++ ")").toList =
      table.toList ++ '(' :: ((commaJoined columns).toList ++ [')']) :=
    toList_group (String.toList_append ..) rfl _
  rw [chars, Closes.group (passed_of_isIdentifier name 0) (passed_commaJoined identifiers 0)]
  rfl

theorem closes_foreignClause {k : ForeignKey} (keys : ∀ key ∈ k.keys, isIdentifier key = true)
    (reference : IsGroupedReference k.reference) : Closes 0 (foreignClause k).toList := by
  have words : Passed 0 "FOREIGN KEY".toList := by decide
  have references : Passed 0 " REFERENCES ".toList := by decide
  rw [toList_foreignClause, Closes.group words (passed_commaJoined keys 0), Closes.passed_append references]
  exact reference.closes

theorem columnClause_inj {c c' : Column} (hc : isIdentifier c.name = true) (hc' : isIdentifier c'.name = true)
    (h : columnClause c = columnClause c') : c = c' := by
  have chars := congrArg String.toList h
  rw [toList_columnClause, toList_columnClause] at chars
  have space {cs : List Char} : ∀ x ∈ (' ' :: cs).head?, continuesIdentifier x = false := by
    rintro x ⟨⟩
    decide
  obtain ⟨names, clauses⟩ := identifier_append_inj hc hc' space space chars
  obtain ⟨name, clause⟩ := c
  obtain ⟨name', clause'⟩ := c'
  obtain rfl : name = name' := names
  obtain rfl : clause = clause' := String.toList_inj.mp (List.cons.inj clauses).2
  rfl

theorem primaryClause_inj {keys keys' : List String} (h : ∀ key ∈ keys, isIdentifier key = true)
    (h' : ∀ key ∈ keys', isIdentifier key = true) (eq : primaryClause keys = primaryClause keys') :
    keys = keys' := by
  have chars := congrArg String.toList eq
  rw [toList_primaryClause, toList_primaryClause] at chars
  have joined := (List.cons.inj (List.append_cancel_left chars)).2
  exact (commaJoined_append_inj (fun x hx => clause_of_isIdentifier (h x hx))
    (fun x hx => clause_of_isIdentifier (h' x hx)) joined).1

theorem foreignClause_inj {k k' : ForeignKey} (hk : ∀ key ∈ k.keys, isIdentifier key = true)
    (hk' : ∀ key ∈ k'.keys, isIdentifier key = true) (h : foreignClause k = foreignClause k') : k = k' := by
  have chars := congrArg String.toList h
  rw [toList_foreignClause, toList_foreignClause] at chars
  have joined := (List.cons.inj (List.append_cancel_left chars)).2
  obtain ⟨keys, rest⟩ := commaJoined_append_inj (fun x hx => clause_of_isIdentifier (hk x hx))
    (fun x hx => clause_of_isIdentifier (hk' x hx)) joined
  obtain ⟨_, reference⟩ := k
  obtain ⟨_, reference'⟩ := k'
  obtain rfl := keys
  obtain rfl : reference = reference' := String.toList_inj.mp (List.append_cancel_left rest)
  rfl

/-- Whether a clause has parentheses, as those of keys do. -/
def hasGroup (clause : String) : Bool := clause.toList.contains '('

/-- Whether a clause of keys starts as one of foreign keys does. -/
def startsForeign (clause : String) : Bool := clause.toList.head? == some 'F'

theorem hasGroup_of_passed {clause : String} (h : Passed 0 clause.toList) : hasGroup clause = false := by
  refine Bool.eq_false_iff.mpr fun group => ?_
  exact (h '(' (List.contains_iff_mem.mp group)).1 rfl

theorem hasGroup_primaryClause (keys : List String) : hasGroup (primaryClause keys) = true := by
  rw [hasGroup, toList_primaryClause, List.contains_iff_mem]
  exact List.mem_append_right _ (List.mem_cons_self ..)

theorem hasGroup_foreignClause (k : ForeignKey) : hasGroup (foreignClause k) = true := by
  rw [hasGroup, toList_foreignClause, List.contains_iff_mem]
  exact List.mem_append_right _ (List.mem_cons_self ..)

theorem startsForeign_primaryClause (keys : List String) : startsForeign (primaryClause keys) = false := by
  rw [startsForeign, toList_primaryClause]
  rfl

theorem startsForeign_foreignClause (k : ForeignKey) : startsForeign (foreignClause k) = true := by
  rw [startsForeign, toList_foreignClause]
  rfl

theorem exists_primaryClause {d : Definition} {x : String} (h : x ∈ d.primaryClauses) :
    x = primaryClause (d.primaryKeys.getD []) := by
  rw [primaryClauses_eq] at h
  split at h
  · cases h
  · rename_i key keys eq
    rw [eq]
    exact List.mem_singleton.mp h

/-! ### Reading the definition off its statement -/

namespace Legible
variable {a b d : Definition}

theorem column_isIdentifier (h : d.Legible) : ∀ c ∈ d.columns, isIdentifier c.name = true :=
  fun c hc => (validate_eq_ok_iff.mp h.valid).columns c.name (List.mem_map.mpr ⟨c, hc, rfl⟩)

theorem primaryKey_isIdentifier (h : d.Legible) :
    ∀ key ∈ d.primaryKeys.getD [], isIdentifier key = true := by
  have valid := validate_eq_ok_iff.mp h.valid
  exact fun key hkey => valid.columns key (valid.primary key hkey)

theorem foreignKey_isIdentifier (h : d.Legible) :
    ∀ k ∈ d.foreignKeys, ∀ key ∈ k.keys, isIdentifier key = true := by
  have valid := validate_eq_ok_iff.mp h.valid
  exact fun k hk key hkey => valid.columns key (valid.foreign k hk key hkey)

theorem passed_column (h : d.Legible) {c : Column} (hc : c ∈ d.columns) :
    Passed 0 (columnClause c).toList :=
  passed_columnClause (h.column_isIdentifier c hc) (h.clauses c hc)

theorem clause_of_mem (h : d.Legible) : ∀ x ∈ d.clauses, Clause x := by
  have clause {x : String} {c : Char} (hc : c ∈ x.toList) (closes : Closes 0 x.toList) : Clause x :=
    ⟨fun empty => by rw [empty] at hc; exact absurd hc (by simp), closes⟩
  intro x hx
  rcases List.mem_append.mp hx with hx | hx
  · rcases List.mem_append.mp hx with hx | hx
    · obtain ⟨c, hc, rfl⟩ := List.mem_map.mp hx
      have space : ' ' ∈ (columnClause c).toList := by simp [toList_columnClause]
      exact clause space (h.passed_column hc).closes
    · obtain rfl := exists_primaryClause hx
      exact clause (List.contains_iff_mem.mp (hasGroup_primaryClause _))
        (closes_primaryClause h.primaryKey_isIdentifier)
  · obtain ⟨k, hk, rfl⟩ := List.mem_map.mp hx
    exact clause (List.contains_iff_mem.mp (hasGroup_foreignClause k))
      (closes_foreignClause (h.foreignKey_isIdentifier k hk) (h.references k hk))

theorem clauses_inj (ha : a.Legible) (hb : b.Legible) (h : a.clauses = b.clauses) :
    a.columns.map columnClause = b.columns.map columnClause ∧ a.primaryClauses = b.primaryClauses ∧
      a.foreignKeys.map foreignClause = b.foreignKeys.map foreignClause := by
  have columns {d : Definition} (hd : d.Legible) : ∀ x ∈ d.columns.map columnClause, hasGroup x = false := by
    intro x hx
    obtain ⟨c, hc, rfl⟩ := List.mem_map.mp hx
    exact hasGroup_of_passed (hd.passed_column hc)
  have keys {d : Definition} :
      ∀ x ∈ (d.primaryClauses ++ d.foreignKeys.map foreignClause).head?, hasGroup x = true := by
    intro x hx
    rcases List.mem_append.mp (List.mem_of_mem_head? hx) with hx | hx
    · obtain rfl := exists_primaryClause hx
      exact hasGroup_primaryClause _
    · obtain ⟨k, -, rfl⟩ := List.mem_map.mp hx
      exact hasGroup_foreignClause k
  have primary {d : Definition} : ∀ x ∈ d.primaryClauses, startsForeign x = false := by
    intro x hx
    obtain rfl := exists_primaryClause hx
    exact startsForeign_primaryClause _
  have foreign {d : Definition} : ∀ x ∈ (d.foreignKeys.map foreignClause).head?, startsForeign x = true := by
    intro x hx
    obtain ⟨k, -, rfl⟩ := List.mem_map.mp (List.mem_of_mem_head? hx)
    exact startsForeign_foreignClause k
  rw [Definition.clauses, Definition.clauses, List.append_assoc, List.append_assoc] at h
  -- the columns go up to the first clause with parentheses, the primary key up to the first foreign key
  obtain ⟨same, rest⟩ := append_inj_of_stops (columns ha) (columns hb) keys keys h
  exact ⟨same, append_inj_of_stops primary primary foreign foreign rest⟩

theorem primaryKeys_of_clauses (ha : a.Legible) (hb : b.Legible) (h : a.primaryClauses = b.primaryClauses) :
    a.primaryKeys.getD [] = b.primaryKeys.getD [] := by
  have keysA := ha.primaryKey_isIdentifier
  have keysB := hb.primaryKey_isIdentifier
  rw [primaryClauses_eq, primaryClauses_eq] at h
  -- an absent key and an empty one have no clause, so only the listed keys matter
  cases eqA : a.primaryKeys.getD [] with
  | nil =>
    cases eqB : b.primaryKeys.getD [] with
    | nil => rfl
    | cons key keys => rw [eqA, eqB] at h; cases h
  | cons key keys =>
    cases eqB : b.primaryKeys.getD [] with
    | nil => rw [eqA, eqB] at h; cases h
    | cons key' keys' =>
      rw [eqA, eqB] at h
      exact primaryClause_inj (eqA ▸ keysA) (eqB ▸ keysB) (List.cons.inj h).1

theorem parts_of_statement (ha : a.Legible) (hb : b.Legible) (h : a.statement = b.statement) :
    a.name = b.name ∧ a.clauses = b.clauses ∧ a.rowidSuffix = b.rowidSuffix := by
  have chars := congrArg String.toList h
  rw [toList_statement, toList_statement] at chars
  have space {cs : List Char} : ∀ x ∈ (" (".toList ++ cs).head?, continuesIdentifier x = false := by
    rintro x ⟨⟩
    decide
  obtain ⟨name, rest⟩ := identifier_append_inj (validate_eq_ok_iff.mp ha.valid).name
    (validate_eq_ok_iff.mp hb.valid).name space space (List.append_cancel_left chars)
  obtain ⟨clauses, suffix⟩ :=
    commaJoined_append_inj ha.clause_of_mem hb.clause_of_mem (List.append_cancel_left rest)
  exact ⟨name, clauses, String.toList_inj.mp suffix⟩

end Legible

theorem withoutRowid_of_suffix {a b : Definition} (h : a.rowidSuffix = b.rowidSuffix) :
    a.withoutRowid = b.withoutRowid := by
  unfold rowidSuffix at h
  cases eqA : a.withoutRowid <;> cases eqB : b.withoutRowid <;> simp_all

/-- Nothing of a definition is lost in its statement but the difference of an absent primary key and an
empty one. -/
theorem statement_eq_iff {a b : Definition} (ha : a.Legible) (hb : b.Legible) :
    a.statement = b.statement ↔ a.name = b.name ∧ a.columns = b.columns ∧ a.foreignKeys = b.foreignKeys ∧
      a.withoutRowid = b.withoutRowid ∧ a.primaryKeys.getD [] = b.primaryKeys.getD [] := by
  constructor
  · intro h
    obtain ⟨name, clauses, suffix⟩ := ha.parts_of_statement hb h
    obtain ⟨columns, primary, foreign⟩ := ha.clauses_inj hb clauses
    refine ⟨name, ?_, ?_, withoutRowid_of_suffix suffix, ha.primaryKeys_of_clauses hb primary⟩
    · exact map_inj_on (fun c hc c' hc' =>
        columnClause_inj (ha.column_isIdentifier c hc) (hb.column_isIdentifier c' hc')) columns
    · exact map_inj_on (fun k hk k' hk' =>
        foreignClause_inj (ha.foreignKey_isIdentifier k hk) (hb.foreignKey_isIdentifier k' hk')) foreign
  · rintro ⟨name, columns, foreign, rowid, primary⟩
    have clauses : a.clauses = b.clauses := by
      rw [Definition.clauses, Definition.clauses, primaryClauses_eq, primaryClauses_eq, columns, foreign, primary]
    unfold statement
    rw [name, clauses, rowid]

/-- Columns called like the words before keys, an empty clause, and a foreign key without keys. -/
def keywords : Definition :=
  ⟨"keywords", [⟨"PRIMARY", "KEY"⟩, ⟨"FOREIGN", ""⟩], none, [⟨[], "pairs(x,y)"⟩, ⟨["FOREIGN"], "t(x)"⟩], true⟩

theorem statement_eq_iff_keywords :
    keywords.Legible ∧ (keywords.setPrimaryKeys []).Legible ∧
      (keywords.setPrimaryKeys ["PRIMARY"]).Legible ∧
      keywords.statement = (keywords.setPrimaryKeys []).statement ∧
      keywords.statement ≠ (keywords.setPrimaryKeys ["PRIMARY"]).statement := by
  have references : ∀ k ∈ keywords.foreignKeys, IsGroupedReference k.reference := by
    intro k hk
    rcases List.mem_cons.mp hk with rfl | hk
    · exact ⟨"pairs", ["x", "y"], rfl, by simp, by decide, rfl⟩
    · obtain rfl := List.mem_singleton.mp hk
      exact ⟨"t", ["x"], rfl, by simp, by decide, rfl⟩
  have clauses : ∀ c ∈ keywords.columns, ∀ x ∈ c.clause.toList, x ≠ ',' ∧ x ≠ '(' ∧ x ≠ ')' := by
    simp [keywords]
  have plain : keywords.Legible := ⟨rfl, clauses, references⟩
  have empty : (keywords.setPrimaryKeys []).Legible := ⟨rfl, clauses, references⟩
  have keyed : (keywords.setPrimaryKeys ["PRIMARY"]).Legible := ⟨rfl, clauses, references⟩
  refine ⟨plain, empty, keyed, ?_, fun same => ?_⟩
  · exact (statement_eq_iff plain empty).mpr ⟨rfl, rfl, rfl, rfl, rfl⟩
  · obtain ⟨-, -, -, -, keys⟩ := (statement_eq_iff plain keyed).mp same
    cases keys

end TableQuery.Definition
