import TableQuery.Proofs.Table.Kept
import TableQuery.Table.Catalog

/-! # References are shared and nothing else

A table made from a definition stays what it was made as, whatever references are taken of it
(`Table.IsOf`), and the references that it keeps are never moved or replaced. So a run of calls on the
tables of a catalog gives the texts that each call would give by itself, and two of its references are
the same shared text just when table, kind and columns are the same
(`run_ofDefinitions`). -/

namespace TableQuery

namespace Table
variable {d : Definition} {t : Table}

structure IsOf (d : Definition) (t : Table) : Prop where
  definition : t.definition = d
  statement : t.statement = d.statement
  columns : t.columns = d.columnNames
  faithful : t.Faithful
  distinct : (t.kept.map (·.1)).Nodup

theorem isOf_ofDefinition (d : Definition) : IsOf d (ofDefinition d) :=
  ⟨rfl, rfl, rfl, faithful_ofDefinition d, List.nodup_nil⟩

@[simp] theorem statement_reference (t : Table) (key : ReferenceKey) :
    (t.reference key).2.statement = t.statement := by
  unfold reference
  split <;> rfl

theorem kept_reference_of_kept {place : Nat} {entry : ReferenceKey × String}
    (h : t.kept[place]? = some entry) (key : ReferenceKey) :
    (t.reference key).2.kept[place]? = some entry := by
  unfold reference
  split
  · exact h
  · rw [List.getElem?_append_left (List.getElem?_eq_some_iff.mp h).1, h]

theorem kept_reference (t : Table) (key : ReferenceKey) :
    (t.reference key).2.kept[(t.reference key).1.place]? = some (key, (t.reference key).1.text) := by
  unfold reference
  split
  · rename_i place found
    obtain ⟨lt, same, -⟩ := List.findIdx?_eq_some_iff_getElem.mp found
    have entry : t.kept[place]? = some (key, t.kept[place].2) := by
      rw [List.getElem?_eq_getElem lt, ← eq_of_beq same]
    simp [entry]
  · simp

/-- What is kept for a key is given again, and nothing else happens. -/
theorem reference_of_kept (distinct : (t.kept.map (·.1)).Nodup) {place : Nat} {key : ReferenceKey} {text : String}
    (h : t.kept[place]? = some (key, text)) : t.reference key = (⟨place, text⟩, t) := by
  obtain ⟨lt, entry⟩ := List.getElem?_eq_some_iff.mp h
  have found : t.kept.findIdx? (·.1 == key) = some place := by
    refine List.findIdx?_eq_some_iff_getElem.mpr ⟨lt, by simp [entry], fun earlier before => ?_⟩
    -- an earlier entry for the key would be a second one
    have apart := (List.pairwise_iff_getElem.mp distinct) earlier place (by simp; omega) (by simpa) before
    simpa [entry] using apart
  rw [reference, found]
  simp [h]

theorem nodup_reference (distinct : (t.kept.map (·.1)).Nodup) (key : ReferenceKey) :
    ((t.reference key).2.kept.map (·.1)).Nodup := by
  unfold reference
  split
  · exact distinct
  · rename_i new
    have absent : key ∉ t.kept.map (·.1) := by
      intro mem
      obtain ⟨entry, hentry, rfl⟩ := List.mem_map.mp mem
      exact absurd (List.findIdx?_eq_none_iff.mp new entry hentry) (by simp)
    rw [List.map_append]
    refine List.nodup_append.mpr ⟨distinct, by simp, fun k hk k' hk' same => ?_⟩
    obtain rfl : k' = key := List.mem_singleton.mp hk'
    exact absent (same ▸ hk)

namespace IsOf

theorem name (h : IsOf d t) : t.name = d.name := by rw [Table.name, h.definition]

theorem hasColumn (h : IsOf d t) (column : String) : t.hasColumn column = d.hasColumn column := by
  rw [Table.hasColumn, h.columns]
  rfl

theorem reference (h : IsOf d t) (key : ReferenceKey) : IsOf d (t.reference key).2 where
  definition := by rw [definition_reference, h.definition]
  statement := by rw [statement_reference, h.statement]
  columns := by rw [columns_reference, h.columns]
  faithful := h.faithful.reference key
  distinct := nodup_reference h.distinct key

theorem checkColumns (h : IsOf d t) (columns : List String) :
    t.checkColumns columns = (ofDefinition d).checkColumns columns := by
  rw [checkColumns_eq, checkColumns_eq, h.columns, h.name, (isOf_ofDefinition d).columns,
    (isOf_ofDefinition d).name]

theorem checkRequest (h : IsOf d t) (r : Request) : t.checkRequest r = (ofDefinition d).checkRequest r := by
  cases r with
  | qualified column => exact h.checkColumns [column]
  | bare column => exact h.checkColumns [column]
  | grouped columns =>
    cases columns with
    | nil => rw [Table.checkRequest, Table.checkRequest, h.name, (isOf_ofDefinition d).name]
    | cons column rest => exact h.checkColumns (column :: rest)

end IsOf

/-- The text of a reference as it is worked out without looking at any kept before. -/
def Request.formula (table : String) : Request → String
  | .qualified column => table ++ "." ++ column
  | .bare column => column
  | .grouped columns => table ++ "(" ++ String.intercalate "," columns ++ ")"

/-- Whether two requests are of one kind and for the same column, or for columns that are the same when
they are joined. -/
def Request.Matches : Request → Request → Prop
  | .qualified column, .qualified column' => column = column'
  | .bare column, .bare column' => column = column'
  | .grouped columns, .grouped columns' =>
    String.intercalate "," columns = String.intercalate "," columns'
  | _, _ => False

theorem Request.key_eq_iff (r r' : Request) : r.key = r'.key ↔ r.Matches r' := by
  cases r <;> cases r' <;> simp [Request.key, Request.Matches, commaJoined]

theorem Request.render_key (table : String) (r : Request) : r.key.render table = r.formula table := by
  cases r <;> rfl

end Table

/-- Whether two references are one text, kept once. -/
def SharedReference.IsSame (r s : SharedReference) : Prop :=
  r.table = s.table ∧ r.reference.place = s.reference.place

namespace Catalog
variable {ds : List Definition} {c : Catalog}

def ofDefinitions (ds : List Definition) : Catalog := ⟨ds.map Table.ofDefinition⟩

/-- The answer to a call as it is worked out from the definitions alone. -/
def Call.uncached (ds : List Definition) (a : Call) : Option (Except Error String) :=
  ds[a.table]?.map fun d =>
    (if a.checked then (Table.ofDefinition d).checkRequest a.request else .ok ()).map fun _ =>
      a.request.formula d.name

def answerText : Option (Except Error SharedReference) → Option (Except Error String) :=
  Option.map (Except.map (·.reference.text))

/-- The tables of the catalog were made from `ds`, in this order. -/
def Serves (ds : List Definition) (c : Catalog) : Prop := ∀ i : Nat, Option.Rel Table.IsOf ds[i]? c.tables[i]?

/-- The catalog keeps the reference `r` for `key`. -/
def Holds (c : Catalog) (key : ReferenceKey) (r : SharedReference) : Prop :=
  ∃ t, c.tables[r.table]? = some t ∧ t.kept[r.reference.place]? = some (key, r.reference.text)

theorem serves_ofDefinitions (ds : List Definition) : (ofDefinitions ds).Serves ds := by
  intro i
  rw [ofDefinitions, List.getElem?_map]
  cases ds[i]? with
  | none => exact .none
  | some d => exact .some (Table.isOf_ofDefinition d)

namespace Serves

theorem definition (h : c.Serves ds) {i : Nat} {t : Table} (found : c.tables[i]? = some t) :
    ∃ d, ds[i]? = some d ∧ t.IsOf d := by
  have served := h i
  rw [found] at served
  cases eq : ds[i]? with
  | none => rw [eq] at served; cases served
  | some d =>
    rw [eq] at served
    cases served with
    | some isOf => exact ⟨d, rfl, isOf⟩

theorem table (h : c.Serves ds) {i : Nat} {d : Definition} (found : ds[i]? = some d) :
    ∃ t, c.tables[i]? = some t ∧ t.IsOf d := by
  have served := h i
  rw [found] at served
  cases eq : c.tables[i]? with
  | none => rw [eq] at served; cases served
  | some t =>
    rw [eq] at served
    cases served with
    | some isOf => exact ⟨t, rfl, isOf⟩

theorem set (h : c.Serves ds) {i : Nat} {d : Definition} {t : Table} (found : ds[i]? = some d)
    (isOf : t.IsOf d) : Serves ds ⟨c.tables.set i t⟩ := by
  intro j
  obtain ⟨old, hold, -⟩ := h.table found
  by_cases same : i = j
  · subst same
    rw [List.getElem?_set_self (List.getElem?_eq_some_iff.mp hold).1, found]
    exact .some isOf
  · rw [List.getElem?_set_ne same]
    exact h j

end Serves

theorem set_of_getElem? {i : Nat} {t : Table} (found : c.tables[i]? = some t) : ⟨c.tables.set i t⟩ = c := by
  obtain ⟨lt, rfl⟩ := List.getElem?_eq_some_iff.mp found
  rw [List.set_getElem_self]

/-- What a call can do: it may find no table, fail and change nothing, or take a reference. -/
theorem call_cases (c : Catalog) (a : Call) :
    (c.tables[a.table]? = none ∧ c.call a = (none, c)) ∨
    ∃ t, c.tables[a.table]? = some t ∧
      ((∃ e, a.checked = true ∧ t.checkRequest a.request = .error e ∧ c.call a = (some (.error e), c)) ∨
        ((a.checked = true → t.checkRequest a.request = .ok ()) ∧
          c.call a = (some (.ok ⟨a.table, (t.take a.request).1⟩),
            ⟨c.tables.set a.table (t.take a.request).2⟩))) := by
  unfold call
  cases found : c.tables[a.table]? with
  | none => exact .inl ⟨rfl, rfl⟩
  | some t =>
    refine .inr ⟨t, rfl, ?_⟩
    rcases t.access_cases a.checked a.request with ⟨e, checked, refused, eq⟩ | ⟨passed, eq⟩
    · -- the table that is put back is the one that was there
      refine .inl ⟨e, checked, refused, ?_⟩
      simp only [eq, Except.map, set_of_getElem? found]
    · refine .inr ⟨passed, ?_⟩
      simp only [eq, Except.map]

theorem call_of_failed {a : Call} {e : Error} (failed : (c.call a).1 = some (.error e)) : (c.call a).2 = c := by
  rcases call_cases c a with ⟨-, eq⟩ | ⟨t, -, ⟨e', -, -, eq⟩ | ⟨-, eq⟩⟩
  · rw [eq]
  · rw [eq]
  · rw [eq] at failed
    cases failed

theorem Serves.call (h : c.Serves ds) (a : Call) :
    (c.call a).2.Serves ds ∧ answerText (c.call a).1 = a.uncached ds := by
  rcases call_cases c a with ⟨missing, eq⟩ | ⟨t, found, ⟨e, checked, refused, eq⟩ | ⟨passed, eq⟩⟩
  · have served := h a.table
    rw [missing] at served
    cases found : ds[a.table]? with
    | none => exact ⟨eq ▸ h, by rw [eq, Call.uncached, found]; rfl⟩
    | some d => rw [found] at served; cases served
  · obtain ⟨d, hd, isOf⟩ := h.definition found
    rw [isOf.checkRequest] at refused
    exact ⟨eq ▸ h, by rw [eq, Call.uncached, hd, checked]; simp [answerText, refused, Except.map]⟩
  · obtain ⟨d, hd, isOf⟩ := h.definition found
    rw [isOf.checkRequest] at passed
    have text : (t.take a.request).1.text = a.request.formula d.name := by
      rw [Table.take, isOf.faithful.reference_text, isOf.name, Table.Request.render_key]
    refine ⟨eq ▸ h.set hd (isOf.reference a.request.key), ?_⟩
    rw [eq, Call.uncached, hd]
    cases checked : a.checked <;> simp_all [answerText, Except.map]

theorem holds_of_call {a : Call} {r : SharedReference} (h : (c.call a).1 = some (.ok r)) :
    r.table = a.table ∧ (c.call a).2.Holds a.request.key r := by
  rcases call_cases c a with ⟨-, eq⟩ | ⟨t, found, ⟨e, -, -, eq⟩ | ⟨-, eq⟩⟩
  · rw [eq] at h
    cases h
  · rw [eq] at h
    cases h
  · rw [eq] at h ⊢
    cases h
    refine ⟨rfl, _, List.getElem?_set_self (List.getElem?_eq_some_iff.mp found).1, ?_⟩
    exact t.kept_reference a.request.key

theorem Holds.call {key : ReferenceKey} {r : SharedReference} (h : c.Holds key r) (a : Call) :
    (c.call a).2.Holds key r := by
  rcases call_cases c a with ⟨-, eq⟩ | ⟨t, found, ⟨e, -, -, eq⟩ | ⟨-, eq⟩⟩
  · rwa [eq]
  · rwa [eq]
  · rw [eq]
    obtain ⟨t', found', entry⟩ := h
    -- a call on the same table appends to what it keeps; any other leaves the table alone
    by_cases same : a.table = r.table
    · rw [same] at found
      obtain rfl : t = t' := Option.some.inj (found.symm.trans found')
      refine ⟨(t.take a.request).2, ?_, ?_⟩
      · rw [same]
        exact List.getElem?_set_self (List.getElem?_eq_some_iff.mp found).1
      · exact Table.kept_reference_of_kept entry a.request.key
    · exact ⟨t', by rw [List.getElem?_set_ne same, found'], entry⟩

/-- Two kept references are the same if they are kept for the same key of the same table. -/
theorem Holds.isSame_iff {key key' : ReferenceKey} {r s : SharedReference} (served : c.Serves ds)
    (hr : c.Holds key r) (hs : c.Holds key' s) : r.IsSame s ↔ r.table = s.table ∧ key = key' := by
  refine and_congr_right fun table => ?_
  obtain ⟨t, found, entry⟩ := hr
  obtain ⟨t', found', entry'⟩ := hs
  rw [table] at found
  obtain rfl : t = t' := Option.some.inj (found.symm.trans found')
  obtain ⟨d, -, isOf⟩ := served.definition found
  have keyAt : (t.kept.map (·.1))[r.reference.place]? = some key := by rw [List.getElem?_map, entry]; rfl
  have keyAt' : (t.kept.map (·.1))[s.reference.place]? = some key' := by rw [List.getElem?_map, entry']; rfl
  -- no key is kept twice, so equal places and equal keys are the same thing
  rw [← List.getElem?_inj (List.getElem?_eq_some_iff.mp keyAt).1 isOf.distinct, keyAt, keyAt',
    Option.some.injEq]

/-- A call that is answered takes the reference that is kept for it, if there is one. -/
theorem Holds.call_again {a : Call} {r : SharedReference} {text : String} (h : c.Holds a.request.key r)
    (served : c.Serves ds) (table : r.table = a.table) (answered : a.uncached ds = some (.ok text)) :
    c.call a = (some (.ok r), c) := by
  obtain ⟨t, found, entry⟩ := h
  rw [table] at found
  have answer := (served.call a).2
  rcases call_cases c a with ⟨missing, -⟩ | ⟨t', found', ⟨e, -, -, eq⟩ | ⟨-, eq⟩⟩
  · rw [missing] at found
    cases found
  · rw [eq, answered] at answer
    cases answer
  · obtain rfl : t = t' := Option.some.inj (found.symm.trans found')
    obtain ⟨d, -, isOf⟩ := served.definition found
    have taken : t.take a.request = (r.reference, t) := Table.reference_of_kept isOf.distinct entry
    rw [eq, taken, ← table, set_of_getElem? (table ▸ found)]

/-! ### Calls one after the other -/

theorem Serves.run (h : c.Serves ds) (calls : List Call) :
    (c.run calls).2.Serves ds ∧ (c.run calls).1.map answerText = calls.map (Call.uncached ds) := by
  induction calls generalizing c with
  | nil => exact ⟨h, rfl⟩
  | cons a rest ih =>
    obtain ⟨served, answer⟩ := h.call a
    obtain ⟨served', answers⟩ := ih served
    exact ⟨served', by rw [Catalog.run, List.map_cons, List.map_cons, answer, answers]⟩

theorem Holds.run {key : ReferenceKey} {r : SharedReference} (h : c.Holds key r) (calls : List Call) :
    (c.run calls).2.Holds key r := by
  induction calls generalizing c with
  | nil => exact h
  | cons a rest ih => exact ih (h.call a)

/-- Every reference that a run gives is still kept at its end. -/
theorem holds_of_run {calls : List Call} {i : Nat} {a : Call} {r : SharedReference}
    (called : calls[i]? = some a) (answered : (c.run calls).1[i]? = some (some (.ok r))) :
    r.table = a.table ∧ (c.run calls).2.Holds a.request.key r := by
  induction calls generalizing c i with
  | nil => cases called
  | cons first rest ih =>
    cases i with
    | zero =>
      -- kept by this call, and no later one takes it away
      obtain rfl : first = a := Option.some.inj called
      obtain ⟨table, held⟩ := holds_of_call (Option.some.inj answered)
      exact ⟨table, held.run rest⟩
    | succ i => exact ih called answered

theorem uncached_of_answered {calls : List Call} (texts : (c.run calls).1.map answerText = calls.map (Call.uncached ds))
    {i : Nat} {a : Call} {r : SharedReference} (called : calls[i]? = some a)
    (answered : (c.run calls).1[i]? = some (some (.ok r))) : a.uncached ds = some (.ok r.reference.text) := by
  have same : ((c.run calls).1.map answerText)[i]? = (calls.map (Call.uncached ds))[i]? := by rw [texts]
  rw [List.getElem?_map, List.getElem?_map, called, answered] at same
  exact (Option.some.inj same).symm

/-- A run of calls on the tables of definitions. Each call is answered by what it would give without any
reference kept. Each reference given stays kept for what it was asked for, and is given again by the same
call, which then changes nothing; two references are one if and only if the calls match and are for the
same table. A call that fails changes nothing, and the tables stay what they were made as. -/
theorem run_ofDefinitions (ds : List Definition) (calls : List Call) :
    let answers := ((ofDefinitions ds).run calls).1
    let c := ((ofDefinitions ds).run calls).2
    answers.map answerText = calls.map (Call.uncached ds) ∧
    (∀ (i : Nat) (a : Call) (r : SharedReference), calls[i]? = some a → answers[i]? = some (some (.ok r)) →
      r.table = a.table ∧ c.Holds a.request.key r ∧ c.call a = (some (.ok r), c)) ∧
    (∀ (i j : Nat) (a b : Call) (r s : SharedReference), calls[i]? = some a → calls[j]? = some b →
      answers[i]? = some (some (.ok r)) → answers[j]? = some (some (.ok s)) →
      (r.IsSame s ↔ a.table = b.table ∧ a.request.Matches b.request)) ∧
    (∀ (a : Call) (e : Error), (c.call a).1 = some (.error e) → (c.call a).2 = c) ∧
    ∀ (i : Nat) (d : Definition), ds[i]? = some d →
      ∃ t, c.tables[i]? = some t ∧ t.definition = d ∧ t.statement = d.statement ∧
        t.columns = d.columns.map (·.name) ∧ ∀ column, t.hasColumn column = d.hasColumn column := by
  intro answers c
  obtain ⟨served, texts⟩ := (serves_ofDefinitions ds).run calls
  refine ⟨texts, fun i a r hi hr => ?_, fun i j a b r s hi hj hr hs => ?_, fun a e => call_of_failed,
    fun i d hd => ?_⟩
  · obtain ⟨table, held⟩ := holds_of_run hi hr
    exact ⟨table, held, held.call_again served table (uncached_of_answered texts hi hr)⟩
  · obtain ⟨tableA, heldA⟩ := holds_of_run hi hr
    obtain ⟨tableB, heldB⟩ := holds_of_run hj hs
    rw [heldA.isSame_iff served heldB, tableA, tableB, Table.Request.key_eq_iff]
  · obtain ⟨t, found, isOf⟩ := served.table hd
    exact ⟨t, found, isOf.definition, isOf.statement, isOf.columns, isOf.hasColumn⟩

/-- Two tables with a column of one name. -/
def userAndNote : List Definition :=
  [⟨"user", [⟨"a", "int"⟩, ⟨"b", "text"⟩], some ["a"], [], false⟩, ⟨"note", [⟨"a", "text"⟩], none, [], false⟩]

/-- A column that is asked for twice and of both tables, lists that are the same when they are joined, and
a column that one of the tables does not have. -/
def mixedCalls : List Call :=
  [⟨0, .qualified "a", false⟩, ⟨1, .qualified "a", true⟩, ⟨0, .grouped ["a,b"], false⟩,
    ⟨0, .grouped ["a", "b"], true⟩, ⟨1, .bare "b", true⟩, ⟨0, .qualified "a", true⟩]

theorem run_ofDefinitions_userAndNote :
    let answers := ((ofDefinitions userAndNote).run mixedCalls).1
    let c := ((ofDefinitions userAndNote).run mixedCalls).2
    let missing : Error := ⟨.undeclaredColumn "b" "note", []⟩
    answers = [some (.ok ⟨0, 0, "user.a"⟩), some (.ok ⟨1, 0, "note.a"⟩), some (.ok ⟨0, 1, "user(a,b)"⟩),
      some (.ok ⟨0, 1, "user(a,b)"⟩), some (.error missing), some (.ok ⟨0, 0, "user.a"⟩)] ∧
    c.Holds (.qualified "a") ⟨0, 0, "user.a"⟩ ∧ c.Holds (.grouped "a,b") ⟨0, 1, "user(a,b)"⟩ ∧
    c.call ⟨0, .grouped ["a", "b"], true⟩ = (some (.ok ⟨0, 1, "user(a,b)"⟩), c) ∧
    SharedReference.IsSame ⟨0, 1, "user(a,b)"⟩ ⟨0, 1, "user(a,b)"⟩ ∧
    ¬SharedReference.IsSame ⟨0, 0, "user.a"⟩ ⟨1, 0, "note.a"⟩ ∧
    c.call ⟨1, .bare "b", true⟩ = (some (.error missing), c) := by
  intro answers c missing
  obtain ⟨-, kept, same, unchanged, -⟩ := run_ofDefinitions userAndNote mixedCalls
  obtain ⟨-, column, -⟩ := kept 0 _ _ rfl rfl
  obtain ⟨-, joined, again⟩ := kept 3 _ _ rfl rfl
  have one := (same 2 3 _ _ _ _ rfl rfl rfl rfl).mpr ⟨rfl, rfl⟩
  have two : ¬SharedReference.IsSame ⟨0, 0, "user.a"⟩ ⟨1, 0, "note.a"⟩ :=
    mt (same 0 1 _ _ _ _ rfl rfl rfl rfl).mp fun tables => nomatch tables.1
  have refused : (c.call ⟨1, .bare "b", true⟩).1 = some (.error missing) := rfl
  have left : (c.call ⟨1, .bare "b", true⟩).2 = c := unchanged _ _ refused
  exact ⟨rfl, column, joined, again, one, two, Prod.ext refused left⟩

end Catalog

end TableQuery
