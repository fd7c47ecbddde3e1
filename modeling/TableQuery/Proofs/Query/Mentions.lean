import TableQuery.Query.Basic

/-! # What a scan finds, part by part

`Mode.mentions`: the sigils found from a place in the query on, where the scan stands in some mode.
It is the whole of a scan (`mentions_eq`), takes a literal or a name at once (`mentions_literal`,
`mentions_name`), and decides what `scan` answers (`scan_of_named`, `scan_of_unnamed`). -/

namespace TableQuery.Query

@[simp] theorem byteLength_nil : byteLength [] = 0 := rfl

@[simp] theorem byteLength_cons (c : Char) (cs : List Char) :
    byteLength (c :: cs) = c.utf8Size + byteLength cs := rfl

@[simp] theorem byteLength_append (a b : List Char) :
    byteLength (a ++ b) = byteLength a + byteLength b := by
  induction a with
  | nil => simp
  | cons c a ih => simp [ih, Nat.add_assoc]

theorem utf8ByteSize_ofList (cs : List Char) : (String.ofList cs).utf8ByteSize = byteLength cs := by
  induction cs with
  | nil => rfl
  | cons c cs ih =>
    rw [← List.singleton_append, String.ofList_append, String.utf8ByteSize_append, ih]
    simp

theorem byteLength_toList (s : String) : byteLength s.toList = s.utf8ByteSize := by
  rw [← utf8ByteSize_ofList, String.ofList_toList]

theorem ne_sigil_of_isQuote {c : Char} (h : isQuote c = true) : c ≠ sigil := by
  rintro rfl
  exact absurd h (by decide)

namespace Mode
variable {offset start : Nat} {read : List Char}

/-- The sigils with their names in `cs`, which starts at byte `offset` where the scan stands in `m`. -/
def mentions (m : Mode) (offset : Nat) (cs : List Char) : List Mention :=
  (m.run offset cs).2 ++ (m.run offset cs).1.finish

@[simp] theorem finish_plain : Mode.plain.finish = [] := rfl

@[simp] theorem finish_literal (quote : Char) : (Mode.literal quote).finish = [] := rfl

@[simp] theorem finish_name (start : Nat) (read : List Char) :
    (Mode.name start read).finish = [⟨start, read.reverse⟩] := rfl

@[simp] theorem mentions_nil (m : Mode) : m.mentions offset [] = m.finish := rfl

theorem mentions_cons (m : Mode) (c : Char) (cs : List Char) :
    m.mentions offset (c :: cs) =
      (m.step offset c).2 ++ (m.step offset c).1.mentions (offset + c.utf8Size) cs := by
  simp [mentions, run]

theorem mentions_append (m : Mode) (a b : List Char) :
    m.mentions offset (a ++ b) =
      (m.run offset a).2 ++ (m.run offset a).1.mentions (offset + byteLength a) b := by
  simp [mentions, run_append]

/-- What every step keeps, and says of what it finds, holds for a run. -/
theorem run_keeps {P : Nat → Mode → Prop} {Q : Mention → Prop}
    (keeps : ∀ offset m c, P offset m →
      P (offset + c.utf8Size) (m.step offset c).1 ∧ ∀ found ∈ (m.step offset c).2, Q found)
    {m : Mode} (h : P offset m) (cs : List Char) :
    P (offset + byteLength cs) (m.run offset cs).1 ∧ ∀ found ∈ (m.run offset cs).2, Q found := by
  induction cs generalizing offset m with
  | nil => exact ⟨h, fun _ hf => nomatch hf⟩
  | cons c cs ih =>
    obtain ⟨next, first⟩ := keeps offset m c h
    obtain ⟨last, more⟩ := ih next
    refine ⟨by rwa [byteLength_cons, ← Nat.add_assoc], fun f hf => ?_⟩
    rcases List.mem_append.mp hf with hf | hf
    · exact first f hf
    · exact more f hf

@[simp] theorem afterPlain_quote {c : Char} (h : isQuote c = true) :
    afterPlain offset c = .literal c := by simp [afterPlain, h]

@[simp] theorem afterPlain_sigil : afterPlain offset sigil = .name offset [] := rfl

@[simp] theorem afterPlain_ordinary {c : Char} (quote : isQuote c = false) (ne : c ≠ sigil) :
    afterPlain offset c = .plain := by simp [afterPlain, quote, ne]

/-- Inside a literal nothing is found and its end is not missed, whatever it holds. -/
theorem run_literal {quote : Char} {body : List Char} (h : quote ∉ body) :
    (Mode.literal quote).run offset body = (.literal quote, []) := by
  induction body generalizing offset with
  | nil => rfl
  | cons c body ih =>
    obtain ⟨hc, hbody⟩ : quote ≠ c ∧ quote ∉ body := by simpa using h
    simp [run, step, Ne.symm hc, ih hbody]

theorem mentions_literal {quote : Char} {body : List Char} (h : quote ∉ body) (rest : List Char) :
    (Mode.literal quote).mentions offset (body ++ quote :: rest) =
      Mode.plain.mentions (offset + byteLength (body ++ [quote])) rest := by
  rw [mentions_append, run_literal h, mentions_cons]
  simp [step, Nat.add_assoc]

theorem mentions_open_literal {quote : Char} {body : List Char} (h : quote ∉ body) :
    (Mode.literal quote).mentions offset body = [] := by
  simp [mentions, run_literal h, finish]

/-- A name goes on up to the first character that ends it. -/
theorem run_name {name : List Char} (h : ∀ c ∈ name, endsName c = false) :
    (Mode.name start read).run offset name = (.name start (name.reverse ++ read), []) := by
  induction name generalizing offset read with
  | nil => rfl
  | cons c name ih =>
    have hc : endsName c = false := h c (by simp)
    simp [run, step, hc, ih fun d hd => h d (by simp [hd])]

/-- The character that ends a name is read as if the name had not been there. -/
theorem mentions_name {name rest : List Char} (h : ∀ c ∈ name, endsName c = false)
    (stops : ∀ c ∈ rest.head?, endsName c = true) :
    (Mode.name start read).mentions offset (name ++ rest) =
      ⟨start, read.reverse ++ name⟩ :: Mode.plain.mentions (offset + byteLength name) rest := by
  rw [mentions_append, run_name h]
  cases rest with
  | nil => simp [finish]
  | cons c rest =>
    have hc : endsName c = true := stops c rfl
    simp [mentions_cons, step, hc]

end Mode

theorem mentions_eq (query : List Char) : mentions query = Mode.plain.mentions 0 query := rfl

/-- The mention in a text that starts `k` bytes further on. -/
def Mention.shift (k : Nat) (m : Mention) : Mention := ⟨k + m.offset, m.name⟩

namespace Mode

def shift (k : Nat) : Mode → Mode
  | .name start read => .name (k + start) read
  | m => m

theorem afterPlain_shift (k offset : Nat) (c : Char) :
    afterPlain (k + offset) c = (afterPlain offset c).shift k := by
  unfold afterPlain
  split
  · rfl
  · split <;> rfl

theorem step_shift (k offset : Nat) (c : Char) (m : Mode) :
    (m.shift k).step (k + offset) c =
      ((m.step offset c).1.shift k, (m.step offset c).2.map (Mention.shift k)) := by
  cases m with
  | plain => simp [shift, step, afterPlain_shift]
  | literal quote => by_cases h : c = quote <;> simp [shift, step, h]
  | name start read =>
    by_cases h : endsName c = true <;> simp [shift, step, h, afterPlain_shift, Mention.shift]

theorem run_shift (k offset : Nat) (m : Mode) (cs : List Char) :
    (m.shift k).run (k + offset) cs =
      ((m.run offset cs).1.shift k, (m.run offset cs).2.map (Mention.shift k)) := by
  induction cs generalizing offset m with
  | nil => rfl
  | cons c cs ih => simp [run, step_shift, Nat.add_assoc, ih]

theorem finish_shift (k : Nat) (m : Mode) : (m.shift k).finish = m.finish.map (Mention.shift k) := by
  cases m <;> rfl

theorem mentions_shift (k offset : Nat) (m : Mode) (cs : List Char) :
    (m.shift k).mentions (k + offset) cs = (m.mentions offset cs).map (Mention.shift k) := by
  simp only [mentions, run_shift, finish_shift, List.map_append]

end Mode

theorem mentions_from (k : Nat) (cs : List Char) :
    Mode.plain.mentions k cs = (mentions cs).map (Mention.shift k) := Mode.mentions_shift k 0 .plain cs

theorem scan_of_named {query : List Char} (h : ∀ m ∈ mentions query, m.name ≠ []) :
    scan query = .ok (.ofList ((mentions query).map fun m => String.ofList m.name)) := by
  have hnone : (mentions query).find? (·.name.isEmpty) = none := by simpa using h
  simp [scan, hnone]

theorem scan_eq_ok_iff {query : List Char} {names : NameSet} :
    scan query = .ok names ↔ (∀ m ∈ mentions query, m.name ≠ []) ∧
      names = .ofList ((mentions query).map fun m => String.ofList m.name) := by
  constructor
  · intro h
    have named : ∀ m ∈ mentions query, m.name ≠ [] := by
      simp only [scan] at h
      split at h
      · exact absurd h (by simp)
      · rename_i hnone
        simpa using hnone
    rw [scan_of_named named] at h
    exact ⟨named, (Except.ok.inj h).symm⟩
  · rintro ⟨named, rfl⟩
    exact scan_of_named named

theorem scan_of_unnamed {query : List Char} {before after : List Mention} {offset : Nat}
    (split : mentions query = before ++ ⟨offset, []⟩ :: after) (h : ∀ m ∈ before, m.name ≠ []) :
    scan query = .error offset := by
  have hnone : before.find? (·.name.isEmpty) = none := by simpa using h
  simp [scan, split, hnone]

theorem scan_eq_error_iff_find {query : List Char} {offset : Nat} : scan query = .error offset ↔
    ∃ m, (mentions query).find? (·.name.isEmpty) = some m ∧ m.offset = offset := by
  rw [scan]
  cases (mentions query).find? (·.name.isEmpty) <;> simp

theorem scan_eq_error_iff {query : List Char} {offset : Nat} :
    scan query = .error offset ↔ ∃ before after, mentions query = before ++ ⟨offset, []⟩ :: after ∧
      ∀ m ∈ before, m.name ≠ [] := by
  constructor
  · intro h
    obtain ⟨⟨start, name⟩, found, rfl⟩ := scan_eq_error_iff_find.mp h
    obtain ⟨unnamed, before, after, split, named⟩ := List.find?_eq_some_iff_append.mp found
    obtain rfl : name = [] := by simpa using unnamed
    exact ⟨before, after, split, fun m hm => by simpa using named m hm⟩
  · rintro ⟨before, after, split, named⟩
    exact scan_of_unnamed split named

theorem named_append_shift {found more : List Mention} (k : Nat) (h : ∀ m ∈ found, m.name ≠ [])
    (h' : ∀ m ∈ more, m.name ≠ []) : ∀ m ∈ found ++ more.map (Mention.shift k), m.name ≠ [] := by
  intro m hm
  rcases List.mem_append.mp hm with hm | hm
  · exact h m hm
  · obtain ⟨m', hm', rfl⟩ := List.mem_map.mp hm
    exact h' m' hm'

/-- Beyond a text that is accepted the rest of a query decides what is answered. -/
theorem scan_of_mentions_append {query a b : List Char} {k : Nat} {names : NameSet}
    (found : mentions query = mentions a ++ (mentions b).map (Mention.shift k))
    (accepted : scan a = .ok names) :
    scan query = match scan b with
      | .ok _ => .ok (.ofList ((mentions a ++ mentions b).map fun m => String.ofList m.name))
      | .error offset => .error (k + offset) := by
  have first := (scan_eq_ok_iff.mp accepted).1
  cases rest : scan b with
  | ok more =>
    have second := (scan_eq_ok_iff.mp rest).1
    refine scan_eq_ok_iff.mpr ⟨found ▸ named_append_shift k first second, ?_⟩
    rw [found, List.map_append, List.map_append, List.map_map]
    rfl
  | error offset =>
    obtain ⟨before, after, split, named⟩ := scan_eq_error_iff.mp rest
    refine scan_eq_error_iff.mpr ⟨mentions a ++ before.map (Mention.shift k),
      after.map (Mention.shift k), ?_, named_append_shift k first named⟩
    simp [found, split, Mention.shift]

theorem ofText_of_scan_ok {text : String} {names : NameSet} (h : scan text.toList = .ok names) :
    ofText text = .ok ⟨text, names⟩ := by simp [ofText, h]

theorem scan_of_ofText {text : String} {q : Query} (h : ofText text = .ok q) :
    scan text.toList = .ok q.parameters := by
  unfold ofText at h
  split at h
  · rename_i names scanned
    obtain rfl := Except.ok.inj h
    exact scanned
  · exact absurd h (by simp)

theorem ofText_of_scan_error {text : String} {offset : Nat} (h : scan text.toList = .error offset) :
    ofText text = .error ⟨.emptyParameterName offset text, []⟩ := by simp [ofText, h]

theorem scan_of_ofText_error {text : String} {offset : Nat}
    (h : ofText text = .error ⟨.emptyParameterName offset text, []⟩) : scan text.toList = .error offset := by
  cases scanned : scan text.toList with
  | ok names =>
    rw [ofText_of_scan_ok scanned] at h
    cases h
  | error offset' =>
    rw [ofText_of_scan_error scanned] at h
    cases h
    rfl

end TableQuery.Query
