import TableQuery.Proofs.Query.Mentions
import TableQuery.Proofs.Table.Clauses
import TableQuery.Proofs.Table.Kept

/-! # Queries composed of texts and references to tables

A text may be a piece of a query if its scan succeeds and ends outside literals and names
(`EndsPlain`); then the scan of what follows starts afresh (`run_flatMap`). The names and references
of a valid table hold neither quotes nor sigils, so they are passed over, and a composed query has the
parameters of its texts (`ofText_join_pieces`). -/

namespace TableQuery.Query

/-- No literal and no name is open at the end of `text`. -/
def EndsPlain (text : List Char) : Prop := (Mode.plain.run 0 text).1 = .plain

namespace EndsPlain
variable {text : List Char}

theorem run_fst (h : EndsPlain text) (offset : Nat) : (Mode.plain.run offset text).1 = .plain := by
  have shifted := Mode.run_shift offset 0 .plain text
  rw [h] at shifted
  exact congrArg Prod.fst shifted

theorem run_snd (h : EndsPlain text) (offset : Nat) :
    (Mode.plain.run offset text).2.map Mention.name = (mentions text).map Mention.name := by
  have found : (Mode.plain.run offset text).2 = Mode.plain.mentions offset text := by
    rw [Mode.mentions, h.run_fst, Mode.finish_plain, List.append_nil]
  rw [found, mentions_from, List.map_map]
  rfl

end EndsPlain

section
variable {ι : Type} {parts : List ι} {text : ι → List Char} {names : ι → NameSet}

theorem run_flatMap (plain : ∀ p ∈ parts, EndsPlain (text p)) (offset : Nat) :
    (Mode.plain.run offset (parts.flatMap text)).1 = .plain ∧
      (Mode.plain.run offset (parts.flatMap text)).2.map Mention.name =
        parts.flatMap fun p => (mentions (text p)).map Mention.name := by
  induction parts generalizing offset with
  | nil => exact ⟨rfl, rfl⟩
  | cons p parts ih =>
    have hp : EndsPlain (text p) := plain p (by simp)
    obtain ⟨mode, found⟩ := ih (fun q hq => plain q (by simp [hq])) (offset + byteLength (text p))
    rw [List.flatMap_cons, Mode.run_append, hp.run_fst]
    exact ⟨mode, by simp [hp.run_snd, found]⟩

theorem mem_mentions_flatMap (plain : ∀ p ∈ parts, EndsPlain (text p)) (name : List Char) :
    (∃ m ∈ mentions (parts.flatMap text), m.name = name) ↔
      ∃ p ∈ parts, ∃ m ∈ mentions (text p), m.name = name := by
  obtain ⟨mode, found⟩ := run_flatMap plain 0
  rw [← List.mem_map, mentions_eq, Mode.mentions, mode, Mode.finish_plain, List.append_nil, found,
    List.mem_flatMap]
  simp

/-- Texts in a row have the parameters of each of them. -/
theorem scan_flatMap (plain : ∀ p ∈ parts, EndsPlain (text p))
    (scanned : ∀ p ∈ parts, scan (text p) = .ok (names p)) :
    ∃ all, scan (parts.flatMap text) = .ok all ∧ ∀ a, a ∈ all ↔ ∃ p ∈ parts, a ∈ names p := by
  refine ⟨_, scan_of_named fun m hm hn => ?_, fun a => ?_⟩
  · obtain ⟨p, hp, m', hm', hn'⟩ := (mem_mentions_flatMap plain []).mp ⟨m, hm, hn⟩
    exact (scan_eq_ok_iff.mp (scanned p hp)).1 m' hm' hn'
  · have spelled (m : Mention) : String.ofList m.name = a ↔ m.name = a.toList := by
      rw [← String.toList_inj, String.toList_ofList]
    simp only [NameSet.mem_ofList, List.mem_map, spelled, mem_mentions_flatMap plain a.toList]
    refine exists_congr fun p => and_congr_right fun hp => ?_
    rw [(scan_eq_ok_iff.mp (scanned p hp)).2]
    simp only [NameSet.mem_ofList, List.mem_map, spelled]

end

/-! ### Names and references of tables -/

def Inert (text : List Char) : Prop := ∀ c ∈ text, isQuote c = false ∧ c ≠ sigil

namespace Inert

theorem run {text : List Char} (h : Inert text) (offset : Nat) :
    Mode.plain.run offset text = (.plain, []) := by
  induction text generalizing offset with
  | nil => rfl
  | cons c text ih =>
    obtain ⟨quote, ne⟩ := h c (by simp)
    simp [Mode.run, Mode.step, quote, ne, ih fun d hd => h d (by simp [hd])]

theorem endsPlain {text : List Char} (h : Inert text) : EndsPlain text := by
  rw [EndsPlain, h.run]

theorem scan {text : List Char} (h : Inert text) : scan text = .ok .empty := by
  simp [Query.scan, mentions, h.run, Mode.finish, NameSet.ofList]

theorem append {a b : List Char} (ha : Inert a) (hb : Inert b) : Inert (a ++ b) := by
  intro c hc
  rcases List.mem_append.mp hc with hc | hc
  · exact ha c hc
  · exact hb c hc

theorem commaJoined {names : List String} (h : ∀ name ∈ names, Inert name.toList) :
    Inert (commaJoined names).toList := by
  intro c hc
  rcases mem_toList_commaJoined hc with rfl | ⟨name, hname, hc⟩
  · decide
  · exact h name hname c hc

theorem of_isIdentifier {name : String} (h : isIdentifier name = true) : Inert name.toList := by
  intro c hc
  have continues := continuesIdentifier_of_mem h c hc
  constructor
  · refine Bool.eq_false_iff.mpr fun quote => ?_
    simp only [isQuote, Bool.or_eq_true, beq_iff_eq] at quote
    rcases quote with rfl | rfl <;> exact absurd continues (by decide)
  · rintro rfl
    exact absurd continues (by decide)

theorem render {t : Table} {r : Table.Request} (name : Inert t.name.toList)
    (columns : ∀ column ∈ r.columns, Inert column.toList) : Inert (r.key.render t.name).toList := by
  cases r with
  | qualified column =>
    have point : Inert ".".toList := by simp [Inert, isQuote, sigil]
    simpa [Table.Request.key, ReferenceKey.render] using
      (name.append point).append (columns column (by simp [Table.Request.columns]))
  | bare column => exact columns column (by simp [Table.Request.columns])
  | grouped names =>
    have opening : Inert "(".toList := by simp [Inert, isQuote, sigil]
    have closing : Inert ")".toList := by simp [Inert, isQuote, sigil]
    have joined : Inert (TableQuery.commaJoined names).toList := commaJoined columns
    simpa [Table.Request.key, ReferenceKey.render] using
      ((name.append opening).append joined).append closing

end Inert

/-- `Piece text names`: a part that a query may be composed of, and the parameters it brings. -/
inductive Piece : String → NameSet → Prop where
  /-- A text that is a query of its own and leaves no literal and no name open. -/
  | text {s : String} {names : NameSet} (scanned : ofText s = .ok ⟨s, names⟩)
      (plain : EndsPlain s.toList) : Piece s names
  | name {t : Table} (checked : t.Checked) : Piece t.name .empty
  /-- All columns of a table. -/
  | columns {t : Table} (checked : t.Checked) : Piece (commaJoined t.columns) .empty
  | reference {t t' : Table} {r : Table.Request} {ref : Reference} (checked : t.Checked)
      (taken : t.takeChecked r = (.ok ref, t')) : Piece ref.text .empty

namespace Piece
variable {s : String} {names : NameSet}

theorem inert_of_taken {t t' : Table} {r : Table.Request} {ref : Reference} (checked : t.Checked)
    (taken : t.takeChecked r = (.ok ref, t')) : Inert ref.text.toList := by
  rw [checked.text_of_taken taken]
  exact .render (.of_isIdentifier checked.identifiers.1) fun column hc =>
    .of_isIdentifier (checked.isIdentifier_of_taken taken column hc)

theorem scan_eq (h : Piece s names) : EndsPlain s.toList ∧ scan s.toList = .ok names := by
  have of_inert {s : String} (h : Inert s.toList) : EndsPlain s.toList ∧ scan s.toList = .ok .empty :=
    ⟨h.endsPlain, h.scan⟩
  cases h with
  | text scanned plain => exact ⟨plain, scan_of_ofText scanned⟩
  | name checked => exact of_inert (.of_isIdentifier checked.identifiers.1)
  | columns checked =>
    exact of_inert (.commaJoined fun column hc => .of_isIdentifier (checked.identifiers.2 column hc))
  | reference checked taken => exact of_inert (inert_of_taken checked taken)

end Piece

/-- A query composed of texts and references to tables, in any number and order, has the parameters
of its texts. -/
theorem ofText_join_pieces {pieces : List (String × NameSet)} (h : ∀ p ∈ pieces, Piece p.1 p.2) :
    ∃ names, ofText (String.join (pieces.map (·.1))) = .ok ⟨String.join (pieces.map (·.1)), names⟩ ∧
      ∀ a, a ∈ names ↔ ∃ p ∈ pieces, a ∈ p.2 := by
  obtain ⟨names, whole, mem⟩ :=
    scan_flatMap (fun p hp => (h p hp).scan_eq.1) (fun p hp => (h p hp).scan_eq.2)
  refine ⟨names, ofText_of_scan_ok ?_, mem⟩
  rw [String.toList_join, List.flatMap_map]
  exact whole

/-- A valid definition with a column named like a keyword. -/
def orders : Definition := ⟨"orders", [⟨"id", "int"⟩, ⟨"select", "text"⟩], some ["id"], [], false⟩

/-- The table of `orders` after a reference that names no column of it. -/
def ordersInUse : Table := ((Table.ofDefinition orders).take (.grouped ["id,$x", "'"])).2

/-- Texts with a literal and a name, between references. -/
def orderPieces : List (String × NameSet) :=
  [("select ", .empty), ("orders(id,select)", .empty), (" from ", .empty), ("orders", .empty),
    (" where '$x' = $id;", .ofList ["id"]), ("id,select", .empty)]

theorem ofText_join_orderPieces :
    (∀ p ∈ orderPieces, Piece p.1 p.2) ∧
      ∃ names, ofText (String.join (orderPieces.map (·.1))) =
          .ok ⟨String.join (orderPieces.map (·.1)), names⟩ ∧
        ∀ a, a ∈ names ↔ ∃ p ∈ orderPieces, a ∈ p.2 := by
  have checked : ordersInUse.Checked :=
    .taken (.built (Table.ofValid_eq_ok_iff.mpr ⟨rfl, rfl⟩)) (.grouped ["id,$x", "'"])
  have pieces : ∀ p ∈ orderPieces, Piece p.1 p.2 := by
    intro p hp
    simp only [orderPieces, List.mem_cons, List.not_mem_nil, or_false] at hp
    rcases hp with rfl | rfl | rfl | rfl | rfl | rfl
    · exact .text rfl rfl
    · have taken : ordersInUse.takeChecked (.grouped ["id", "select"]) =
          (.ok ⟨1, "orders(id,select)"⟩, (ordersInUse.take (.grouped ["id", "select"])).2) := rfl
      exact .reference checked taken
    · exact .text rfl rfl
    · exact .name checked
    · exact .text rfl rfl
    · exact .columns checked
  exact ⟨pieces, ofText_join_pieces pieces⟩

end TableQuery.Query
