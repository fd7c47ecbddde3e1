import TableQuery.Proofs.Query.Mentions

/-! # Literals in a query

A text is put into a query as a literal between two quotes, each quote in it doubled
(`quotedLiteral`). The scan leaves such a literal and enters it again at every doubled quote, but it
never reads another character of the text in between (`run_doubled`), so the text is not seen
(`mentions_quotedLiteral`). What a query mentions behind a literal differs by its place alone. -/

namespace TableQuery.Query

/-- A text with every `quote` in it doubled. -/
def doubled (quote : Char) (content : List Char) : List Char :=
  content.flatMap fun c => if c = quote then [quote, quote] else [c]

theorem doubled_cons (quote c : Char) (content : List Char) : doubled quote (c :: content) =
    (if c = quote then [quote, quote] else [c]) ++ doubled quote content := rfl

/-- A text as a literal between two `quote`s. -/
def quotedLiteral (quote : Char) (content : String) : String :=
  String.ofList (quote :: (doubled quote content.toList ++ [quote]))

/-- No literal is open at the end of `text`; it may end in a name. -/
def ClosesLiterals (text : List Char) : Prop := ∀ quote, (Mode.plain.run 0 text).1 ≠ .literal quote

/-- The end of `text` is reached in a name, which may go on in what follows. -/
def EndsInName (text : List Char) : Prop := ∃ start read, (Mode.plain.run 0 text).1 = .name start read

namespace Mode
variable {offset : Nat}

/-- Where no literal is open, the rest is read as ordinary text is, unless it goes on with a name. -/
theorem mentions_of_stops {m : Mode} {rest : List Char} (closed : ∀ quote, m ≠ .literal quote)
    (stops : (∃ start read, m = .name start read) → ∀ c ∈ rest.head?, endsName c = true) :
    m.mentions offset rest = m.finish ++ Mode.plain.mentions offset rest := by
  cases m with
  | plain => rfl
  | literal quote => exact absurd rfl (closed quote)
  | name start read =>
    have ended : (Mode.name start read).mentions offset ([] ++ rest) =
        ⟨start, read.reverse ++ []⟩ :: Mode.plain.mentions (offset + byteLength []) rest :=
      mentions_name (by simp) (stops ⟨start, read, rfl⟩)
    simpa [finish] using ended

theorem run_doubled (quote : Char) (content : List Char) (offset : Nat) (isQuote : isQuote quote = true) :
    (Mode.literal quote).run offset (doubled quote content) = (.literal quote, []) := by
  induction content generalizing offset with
  | nil => rfl
  | cons c content ih =>
    rw [doubled_cons, run_append]
    by_cases h : c = quote
    · -- the first half closes the literal, and the second, read as plain text, opens it again
      simp [h, run, step, isQuote, ih]
    · simp [h, run, step, ih]

theorem mentions_quotedLiteral {quote : Char} (isQuote : isQuote quote = true) (content : String)
    (after : List Char) :
    Mode.plain.mentions offset ((quotedLiteral quote content).toList ++ after) =
      Mode.plain.mentions (offset + byteLength (quotedLiteral quote content).toList) after := by
  have body := run_doubled quote content.toList (offset + quote.utf8Size) isQuote
  simp [quotedLiteral, mentions_cons, mentions_append, step, isQuote, body, Nat.add_assoc]

end Mode

theorem head_quotedLiteral_endsName {quote : Char} (isQuote : isQuote quote = true) (content : String)
    (after : List Char) :
    ∀ c ∈ ((quotedLiteral quote content).toList ++ after).head?, endsName c = true := by
  intro c hc
  obtain rfl : quote = c := by simpa [quotedLiteral] using hc
  simp [endsName, isQuote]

theorem mentions_append_of_stops {a b : List Char} (closed : ClosesLiterals a)
    (stops : EndsInName a → ∀ c ∈ b.head?, endsName c = true) :
    mentions (a ++ b) = mentions a ++ Mode.plain.mentions (byteLength a) b := by
  rw [mentions_eq, Mode.mentions_append, Mode.mentions_of_stops closed stops, Nat.zero_add,
    ← List.append_assoc]
  rfl

/-- A literal behind a text that is accepted is not seen by the scan. -/
theorem scan_quotedLiteral {quote : Char} (isQuote : isQuote quote = true) {before : List Char}
    {names : NameSet} (accepted : scan before = .ok names) (closed : ClosesLiterals before)
    (content : String) (after : List Char) :
    scan (before ++ ((quotedLiteral quote content).toList ++ after)) = match scan after with
      | .ok _ => .ok (.ofList ((mentions before ++ mentions after).map fun m => String.ofList m.name))
      | .error offset =>
        .error (byteLength before + byteLength (quotedLiteral quote content).toList + offset) := by
  refine scan_of_mentions_append ?_ accepted
  rw [mentions_append_of_stops closed fun _ => head_quotedLiteral_endsName isQuote content after,
    Mode.mentions_quotedLiteral isQuote, mentions_from]

def withLiteral (before : String) (quote : Char) (content after : String) : String :=
  before ++ quotedLiteral quote content ++ after

theorem ofText_withLiteral {quote : Char} (isQuote : isQuote quote = true) {before : String} {q : Query}
    (accepted : ofText before = .ok q) (closed : ClosesLiterals before.toList) (content after : String) :
    ofText (withLiteral before quote content after) = match scan after.toList with
      | .ok _ => .ok ⟨withLiteral before quote content after,
          .ofList ((mentions before.toList ++ mentions after.toList).map fun m => String.ofList m.name)⟩
      | .error offset => .error ⟨.emptyParameterName
          (before.utf8ByteSize + (quotedLiteral quote content).utf8ByteSize + offset)
          (withLiteral before quote content after), []⟩ := by
  have scanned := scan_quotedLiteral isQuote (scan_of_ofText accepted) closed content after.toList
  rw [← List.append_assoc, ← String.toList_append, ← String.toList_append, byteLength_toList,
    byteLength_toList, ← withLiteral] at scanned
  cases rest : scan after.toList with
  | ok more => exact ofText_of_scan_ok (by rw [scanned, rest])
  | error offset => exact ofText_of_scan_error (by rw [scanned, rest])

/-- Two queries that differ in the text of a literal alone have the same parameters, or are refused for
the same sigil; that text adds no parameter and no error to those of the query around it. -/
theorem ofText_literal_content {quote : Char} (quoted : isQuote quote = true) {before : String} {q : Query}
    (accepted : ofText before = .ok q) (closed : ClosesLiterals before.toList) (after : String) :
    (∀ t t' : String,
      (∃ names,
        ofText (withLiteral before quote t after) = .ok ⟨withLiteral before quote t after, names⟩ ∧
        ofText (withLiteral before quote t' after) = .ok ⟨withLiteral before quote t' after, names⟩) ∨
      (∃ offset offset' : Nat,
        ofText (withLiteral before quote t after) =
          .error ⟨.emptyParameterName offset (withLiteral before quote t after), []⟩ ∧
        ofText (withLiteral before quote t' after) =
          .error ⟨.emptyParameterName offset' (withLiteral before quote t' after), []⟩ ∧
        (offset : Int) - offset' =
          (quotedLiteral quote t).utf8ByteSize - (quotedLiteral quote t').utf8ByteSize)) ∧
    ∀ t : String,
      (∀ r, ofText after = .ok r → ∃ names,
        ofText (withLiteral before quote t after) = .ok ⟨withLiteral before quote t after, names⟩ ∧
        ∀ a, a ∈ names ↔ a ∈ q.parameters ∨ a ∈ r.parameters) ∧
      ∀ offset, ofText after = .error ⟨.emptyParameterName offset after, []⟩ →
        ofText (withLiteral before quote t after) = .error ⟨.emptyParameterName
          (before.utf8ByteSize + (quotedLiteral quote t).utf8ByteSize + offset)
          (withLiteral before quote t after), []⟩ := by
  -- what comes after the literal decides, and its scan does not depend on the literal's text
  have whole (t : String) := ofText_withLiteral quoted accepted closed t after
  have named := (scan_eq_ok_iff.mp (scan_of_ofText accepted)).2
  cases rest : scan after.toList with
  | ok more =>
    simp only [rest] at whole
    refine ⟨fun t t' => .inl ⟨_, whole t, whole t'⟩, fun t => ⟨fun r hr => ⟨_, whole t, fun a => ?_⟩, ?_⟩⟩
    · have second := (scan_eq_ok_iff.mp (scan_of_ofText hr)).2
      rw [named, second, List.map_append]
      simp only [NameSet.mem_ofList, List.mem_append]
    · intro offset refused
      rw [ofText_of_scan_ok rest] at refused
      cases refused
  | error offset =>
    simp only [rest] at whole
    refine ⟨fun t t' => .inr ⟨_, _, whole t, whole t', by omega⟩, fun t => ⟨fun r hr => ?_, ?_⟩⟩
    · rw [ofText_of_scan_error rest] at hr
      cases hr
    · intro offset' refused
      rw [ofText_of_scan_error rest] at refused
      cases refused
      exact whole t

/-- A name that ends at the opening quote, and another one behind the literal. -/
theorem ofText_literal_between_names :
    isQuote '\x27' = true ∧ ofText "select $a" = .ok ⟨"select $a", .ofList ["a"]⟩ ∧
      ClosesLiterals "select $a".toList ∧ ∀ t, ∃ names,
        ofText (withLiteral "select $a" '\x27' t "=$b") =
          .ok ⟨withLiteral "select $a" '\x27' t "=$b", names⟩ ∧
        ∀ a, a ∈ names ↔ a = "a" ∨ a = "b" := by
  have quoted : isQuote '\x27' = true := by decide
  have accepted : ofText "select $a" = .ok ⟨"select $a", .ofList ["a"]⟩ := rfl
  have closed : ClosesLiterals "select $a".toList := by
    intro quote
    have name : (Mode.plain.run 0 "select $a".toList).1 = .name 7 ['a'] := rfl
    rw [name]
    exact nofun
  refine ⟨quoted, accepted, closed, fun t => ?_⟩
  have behind : ofText "=$b" = .ok ⟨"=$b", .ofList ["b"]⟩ := rfl
  obtain ⟨names, whole, mem⟩ := ((ofText_literal_content quoted accepted closed "=$b").2 t).1 _ behind
  exact ⟨names, whole, fun a => by rw [mem]; simp⟩

end TableQuery.Query
