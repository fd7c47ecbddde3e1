import Mathlib.Data.List.Basic
import TableQuery.Proofs.Query.Items
import TableQuery.Proofs.Query.Literals

/-! # Queries joined end to end

What a query answers when a text is put behind it depends on where its own scan ends: in ordinary
text, in a name, or in a literal. In the first two cases the text is read as a query of its own unless it
goes on with the name, in the third from behind the quote that closes the literal (`ofText_append`). A
sigil without a name is refused whatever follows, unless it ends the query. -/

namespace TableQuery.Query

/-- The end of `text` is reached in a literal that `quote` opened. -/
def OpensLiteral (quote : Char) (text : List Char) : Prop := (Mode.plain.run 0 text).1 = .literal quote

/-- What a mode says of the query up to byte `offset`: an open literal starts with a quote, and a name
goes from its sigil up to here. -/
def Mode.Placed (offset : Nat) : Mode → Prop
  | .plain => True
  | .literal quote => isQuote quote = true
  | .name start read => start + 1 + byteLength read = offset

namespace Mode
variable {offset : Nat} {m : Mode}

theorem placed_afterPlain (offset : Nat) (c : Char) :
    (afterPlain offset c).Placed (offset + c.utf8Size) := by
  unfold afterPlain
  split
  · assumption
  · split
    · rename_i eq
      subst eq
      show offset + 1 + byteLength [] = offset + sigil.utf8Size
      rfl
    · trivial

theorem Placed.step (h : m.Placed offset) (c : Char) :
    (m.step offset c).1.Placed (offset + c.utf8Size) := by
  cases m with
  | plain => exact placed_afterPlain offset c
  | literal quote =>
    by_cases eq : c = quote
    · simp [Mode.step, eq, Placed]
    · simpa [Mode.step, eq, Placed] using h
  | name start read =>
    have here : start + 1 + byteLength read = offset := h
    by_cases ends : endsName c = true
    · simpa [Mode.step, ends] using placed_afterPlain offset c
    · simp only [Mode.step, if_neg ends, Placed, byteLength_cons]
      omega

theorem placed_run (text : List Char) : (Mode.plain.run 0 text).1.Placed (byteLength text) := by
  have start : Mode.plain.Placed 0 := trivial
  have kept := run_keeps (P := fun offset m => m.Placed offset) (Q := fun _ => True)
    (fun _ _ c h => ⟨h.step c, fun _ _ => trivial⟩) start text
  rw [Nat.zero_add] at kept
  exact kept.1

end Mode

theorem utf8Size_of_isQuote {c : Char} (h : isQuote c = true) : c.utf8Size = 1 := by
  simp only [isQuote, Bool.or_eq_true, beq_iff_eq] at h
  rcases h with rfl | rfl <;> rfl

theorem OpensLiteral.isQuote {quote : Char} {text : List Char} (h : OpensLiteral quote text) :
    isQuote quote = true := by
  have placed := Mode.placed_run text
  rwa [h] at placed

section
variable {a : List Char} {quote : Char}

theorem OpensLiteral.mentions_append (h : OpensLiteral quote a) (b : List Char) :
    mentions (a ++ b) = mentions a ++ (Mode.literal quote).mentions (byteLength a) b := by
  have found : mentions a = (Mode.plain.run 0 a).2 := by
    rw [mentions_eq, Mode.mentions, h, Mode.finish_literal, List.append_nil]
  rw [found, mentions_eq, Mode.mentions_append, h, Nat.zero_add]

theorem scan_congr {a b : List Char} (h : mentions a = mentions b) : scan a = scan b := by
  rw [scan, scan, h]

/-- A sigil without a name stays so if the character behind it is there already. -/
theorem scan_append_of_error {offset : Nat} (refused : scan a = .error offset)
    (inside : offset + 1 ≠ byteLength a) (b : List Char) : scan (a ++ b) = .error offset := by
  obtain ⟨m, first, rfl⟩ := scan_eq_error_iff_find.mp refused
  rw [mentions_eq, Mode.mentions, List.find?_append, Option.or_eq_some_iff] at first
  rcases first with first | ⟨-, last⟩
  · refine scan_eq_error_iff_find.mpr ⟨m, ?_, rfl⟩
    rw [mentions_eq, Mode.mentions_append, List.find?_append, first, Option.some_or]
  · -- the name that the end of the query cuts short goes from its sigil to that end
    have placed := Mode.placed_run a
    cases mode : (Mode.plain.run 0 a).1 with
    | plain => simp [mode] at last
    | literal quote => simp [mode] at last
    | name start read =>
      rw [mode] at placed last
      simp only [Mode.finish_name, List.find?_singleton] at last
      obtain ⟨rfl, rfl⟩ : read = [] ∧ ⟨start, read.reverse⟩ = m := by simpa using last
      exact absurd placed inside

end

/-- From byte `k` on `whole` is read as the query `rest` is, with the parameters `names` found before: it
has the parameters of both, or is refused for the sigil that `rest` is refused for. -/
structure ReadsOn (names : NameSet) (k : Nat) (rest whole : String) : Prop where
  accepted : ∀ r, ofText rest = .ok r →
    ∃ all, ofText whole = .ok ⟨whole, all⟩ ∧ ∀ n, n ∈ all ↔ n ∈ names ∨ n ∈ r.parameters
  refused : ∀ offset, ofText rest = .error ⟨.emptyParameterName offset rest, []⟩ →
    ofText whole = .error ⟨.emptyParameterName (k + offset) whole, []⟩

section
variable {a b : String} {q : Query} {quote : Char}

theorem readsOn_of_mentions {whole rest : String} {k : Nat} (first : ofText a = .ok q)
    (found : mentions whole.toList = mentions a.toList ++ (mentions rest.toList).map (Mention.shift k)) :
    ReadsOn q.parameters k rest whole := by
  have scanned := scan_of_mentions_append found (scan_of_ofText first)
  constructor
  · intro r second
    rw [scan_of_ofText second] at scanned
    refine ⟨_, ofText_of_scan_ok scanned, fun n => ?_⟩
    rw [(scan_eq_ok_iff.mp (scan_of_ofText first)).2, (scan_eq_ok_iff.mp (scan_of_ofText second)).2,
      List.map_append]
    simp only [NameSet.mem_ofList, List.mem_append]
  · intro offset second
    rw [scan_of_ofText_error second] at scanned
    exact ofText_of_scan_error scanned

theorem readsOn_append (first : ofText a = .ok q) (closed : ClosesLiterals a.toList)
    (stops : EndsInName a.toList → ∀ c ∈ b.toList.head?, endsName c = true) :
    ReadsOn q.parameters a.utf8ByteSize b (a ++ b) := by
  refine readsOn_of_mentions first ?_
  rw [String.toList_append, mentions_append_of_stops closed stops, mentions_from, byteLength_toList]

theorem ofText_append_of_open (first : ofText a = .ok q) (opens : OpensLiteral quote a.toList)
    (inside : quote ∉ b.toList) : ofText (a ++ b) = .ok ⟨a ++ b, q.parameters⟩ := by
  refine ofText_of_scan_ok ?_
  rw [← scan_of_ofText first]
  refine scan_congr ?_
  rw [String.toList_append, opens.mentions_append, Mode.mentions_open_literal inside, List.append_nil]

theorem readsOn_append_of_open (first : ofText a = .ok q) (opens : OpensLiteral quote a.toList) {u : String}
    (inside : quote ∉ u.toList) (v : String) :
    ReadsOn q.parameters (a.utf8ByteSize + u.utf8ByteSize + 1) v (a ++ (u ++ String.singleton quote ++ v)) := by
  refine readsOn_of_mentions first ?_
  have split : (u ++ String.singleton quote ++ v).toList = u.toList ++ quote :: v.toList := by simp
  have size : quote.utf8Size = 1 := utf8Size_of_isQuote opens.isQuote
  rw [String.toList_append, opens.mentions_append, split, Mode.mentions_literal inside, mentions_from,
    byteLength_append, byteLength_toList, byteLength_toList, byteLength_cons, byteLength_nil, size,
    ← Nat.add_assoc]

theorem ofText_append_of_error {offset : Nat}
    (refused : ofText a = .error ⟨.emptyParameterName offset a, []⟩) (inside : offset + 1 ≠ a.utf8ByteSize)
    (b : String) : ofText (a ++ b) = .error ⟨.emptyParameterName offset (a ++ b), []⟩ := by
  refine ofText_of_scan_error ?_
  rw [String.toList_append]
  exact scan_append_of_error (scan_of_ofText_error refused) (byteLength_toList a ▸ inside) b.toList

end

/-- A text behind a query adds its own parameters, or its own error as many bytes further on, where the
query ends outside literals and the text does not go on with its last name. Where the query ends in a
literal, this holds of what follows the quote that closes it, and a text without that quote adds nothing.
A query that is refused for a sigil before its last character is refused for it whatever follows. -/
theorem ofText_append (a b : String) :
    (∀ q, ofText a = .ok q → ClosesLiterals a.toList →
      (EndsInName a.toList → ∀ c ∈ b.toList.head?, endsName c = true) →
      ReadsOn q.parameters a.utf8ByteSize b (a ++ b)) ∧
    (∀ q quote, ofText a = .ok q → OpensLiteral quote a.toList →
      (quote ∉ b.toList → ofText (a ++ b) = .ok ⟨a ++ b, q.parameters⟩) ∧
      ∀ u v, b = u ++ String.singleton quote ++ v → quote ∉ u.toList →
        ReadsOn q.parameters (a.utf8ByteSize + u.utf8ByteSize + 1) v (a ++ b)) ∧
    ∀ offset, ofText a = .error ⟨.emptyParameterName offset a, []⟩ → offset + 1 ≠ a.utf8ByteSize →
      ofText (a ++ b) = .error ⟨.emptyParameterName offset (a ++ b), []⟩ := by
  refine ⟨fun q first closed stops => readsOn_append first closed stops, fun q quote first opens => ⟨?_, ?_⟩,
    fun offset refused inside => ofText_append_of_error refused inside b⟩
  · exact ofText_append_of_open first opens
  · rintro u v rfl inside
    exact readsOn_append_of_open first opens inside v

/-- A name that a comma ends, a literal closed behind the seam with a sigil at the very end, and a sigil
that was refused already. -/
theorem ofText_append_three_seams :
    (∃ all, ofText ("select $a" ++ ", $b") = .ok ⟨"select $a" ++ ", $b", all⟩ ∧
      ∀ n, n ∈ all ↔ n = "a" ∨ n = "b") ∧
    ofText ("$a = '$it" ++ "s' or $") = .error ⟨.emptyParameterName 15 ("$a = '$it" ++ "s' or $"), []⟩ ∧
    ofText ("$ = 1" ++ " or 'x' = $b") = .error ⟨.emptyParameterName 0 ("$ = 1" ++ " or 'x' = $b"), []⟩ := by
  refine ⟨?_, ?_, ?_⟩
  · have first : ofText "select $a" = .ok ⟨"select $a", .ofList ["a"]⟩ := rfl
    have second : ofText ", $b" = .ok ⟨", $b", .ofList ["b"]⟩ := rfl
    have name : (Mode.plain.run 0 "select $a".toList).1 = .name 7 ['a'] := rfl
    have closed : ClosesLiterals "select $a".toList := by
      intro quote
      rw [name]
      exact nofun
    have comma : ∀ c ∈ ", $b".toList.head?, endsName c = true := by
      intro c hc
      obtain rfl : ',' = c := by simpa using hc
      decide
    obtain ⟨all, whole, mem⟩ :=
      ((ofText_append "select $a" ", $b").1 _ first closed fun _ => comma).accepted _ second
    exact ⟨all, whole, fun n => by rw [mem]; simp⟩
  · have first : ofText "$a = '$it" = .ok ⟨"$a = '$it", .ofList ["a"]⟩ := rfl
    have opens : OpensLiteral '\x27' "$a = '$it".toList := rfl
    have last : ofText " or $" = .error ⟨.emptyParameterName 4 " or $", []⟩ := rfl
    obtain ⟨-, closed⟩ := (ofText_append "$a = '$it" "s' or $").2.1 _ _ first opens
    exact (closed "s" " or $" rfl (by decide)).refused 4 last
  · have refused : ofText "$ = 1" = .error ⟨.emptyParameterName 0 "$ = 1", []⟩ := rfl
    exact (ofText_append "$ = 1" " or 'x' = $b").2.2 0 refused (by decide)

end TableQuery.Query
