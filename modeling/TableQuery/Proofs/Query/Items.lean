import Mathlib.Data.List.TakeWhile
import TableQuery.Proofs.Query.Mentions
import TableQuery.Proofs.Text.Separated
import TableQuery.Query.Item

/-! # A query has one reading

Every query is divided into items in exactly one way (`exists_divides`, `Divides.unique`), since the
first character says what an item is and each item goes as far as it can. The scan finds the mentions
among these items (`Divides.mentions_eq`), so it gives their names unless one has none
(`ofText_reads_items`). -/

namespace TableQuery.Query

namespace Item

theorem body_inj {quote : Char} {a b s t : List Char} (ha : quote ∉ a) (hb : quote ∉ b)
    (h : a ++ quote :: s = b ++ quote :: t) : a = b ∧ s = t := by
  have apart {body : List Char} (hq : quote ∉ body) : ∀ c ∈ body, (c == quote) = false := by
    intro c hc
    have : c ≠ quote := fun e => hq (e ▸ hc)
    simpa using this
  obtain ⟨hab, hst⟩ := append_inj_of_stops (apart ha) (apart hb) (by simp) (by simp) h
  exact ⟨hab, (List.cons.inj hst).2⟩

/-- The text tells the item it starts with, and so what follows that item. -/
theorem chars_append_inj {a b : Item} {s t : List Char} (fa : a.Formed) (fb : b.Formed)
    (sa : a.Stops s) (sb : b.Stops t) (h : a.chars ++ s = b.chars ++ t) : a = b ∧ s = t := by
  -- items of two kinds differ in their first character, the others are compared beyond it
  cases a <;> cases b <;> simp only [chars, List.cons_append, List.cons.injEq] at h
  case plain.plain => exact ⟨by rw [h.1], by simpa using h.2⟩
  case plain.literal => exact absurd fb.1 (by simp [← h.1, fa.1])
  case plain.mention => exact absurd h.1 fa.2
  case literal.plain => exact absurd fa.1 (by simp [h.1, fb.1])
  case literal.mention => exact absurd h.1 (ne_sigil_of_isQuote fa.1)
  case mention.plain => exact absurd h.1.symm fb.2
  case mention.literal => exact absurd h.1.symm (ne_sigil_of_isQuote fb.1)
  case mention.mention =>
    obtain ⟨rfl, rfl⟩ := append_inj_of_stops fa fb sa sb h.2
    exact ⟨rfl, rfl⟩
  case literal.literal quote body closed quote' body' closed' =>
    obtain ⟨rfl, h⟩ := h
    cases closed with
    | false =>
      obtain rfl : s = [] := sa
      cases closed' with
      | false =>
        obtain rfl : t = [] := sb
        obtain rfl : body = body' := by simpa using h
        exact ⟨rfl, rfl⟩
      | true =>
        obtain rfl : body = body' ++ quote :: t := by simpa using h
        exact absurd (by simp) fa.2
    | true =>
      cases closed' with
      | false =>
        obtain rfl : t = [] := sb
        obtain rfl : body ++ quote :: s = body' := by simpa using h
        exact absurd (by simp) fb.2
      | true =>
        obtain ⟨rfl, rfl⟩ := body_inj fa.2 fb.2 (by simpa using h)
        exact ⟨rfl, rfl⟩

/-- Every text that is not empty starts with an item. -/
theorem exists_first (c : Char) (cs : List Char) :
    ∃ (item : Item) (rest : List Char),
      item.Formed ∧ item.Stops rest ∧ c :: cs = item.chars ++ rest ∧ rest.length ≤ cs.length := by
  by_cases quote : isQuote c = true
  · by_cases closed : c ∈ cs
    · obtain ⟨body, rest, rfl, hc⟩ := List.eq_append_cons_of_mem closed
      exact ⟨.literal c body true, rest, ⟨quote, hc⟩, trivial, by simp [chars], by simp; omega⟩
    · exact ⟨.literal c cs false, [], ⟨quote, closed⟩, rfl, by simp [chars], by simp⟩
  · by_cases hc : c = sigil
    · subst hc
      refine ⟨.mention (cs.takeWhile fun d => !endsName d), cs.dropWhile fun d => !endsName d,
        fun d hd => by simpa using List.mem_takeWhile_imp hd, fun d hd => ?_, ?_,
        List.length_dropWhile_le _ _⟩
      · have := List.head?_dropWhile_not (fun d => !endsName d) cs
        rw [Option.mem_def.mp hd] at this
        simpa using this
      · simp [chars, List.takeWhile_append_dropWhile]
    · exact ⟨.plain c, cs, ⟨by simpa using quote, hc⟩, trivial, rfl, Nat.le_refl _⟩

theorem chars_ne_nil (item : Item) : item.chars ≠ [] := by cases item <;> simp [chars]

end Item

theorem exists_divides : (cs : List Char) → ∃ items, Divides items cs
  | [] => ⟨[], .nil⟩
  | c :: cs => by
    obtain ⟨item, rest, formed, stops, eq, _⟩ := Item.exists_first c cs
    obtain ⟨items, tail⟩ := exists_divides rest
    exact ⟨item :: items, eq ▸ .cons formed stops tail⟩
termination_by cs => cs.length

theorem Divides.unique {items items' : List Item} {cs : List Char} (h : Divides items cs)
    (h' : Divides items' cs) : items = items' := by
  induction h generalizing items' with
  | nil =>
    generalize hcs : ([] : List Char) = cs at h'
    cases h' with
    | nil => rfl
    | cons formed stops tail => exact absurd (List.append_eq_nil_iff.mp hcs.symm).1 (Item.chars_ne_nil _)
  | @cons item items rest formed stops tail ih =>
    generalize hcs : item.chars ++ rest = cs at h'
    cases h' with
    | nil => exact absurd (List.append_eq_nil_iff.mp hcs).1 (Item.chars_ne_nil _)
    | cons formed' stops' tail' =>
      obtain ⟨rfl, rfl⟩ := Item.chars_append_inj formed formed' stops stops' hcs
      rw [ih tail']

/-- The mentions among items that start at byte `offset`. -/
def itemMentions (offset : Nat) : List Item → List Mention
  | [] => []
  | .mention name :: items =>
    ⟨offset, name⟩ :: itemMentions (offset + byteLength (Item.mention name).chars) items
  | item :: items => itemMentions (offset + byteLength item.chars) items

theorem Divides.mentions_eq {items : List Item} {cs : List Char} (h : Divides items cs)
    (offset : Nat) : Mode.plain.mentions offset cs = itemMentions offset items := by
  induction h generalizing offset with
  | nil => rfl
  | @cons item items rest formed stops tail ih =>
    cases item with
    | plain c =>
      simp [Item.chars, Mode.mentions_cons, Mode.step, formed.1, formed.2, ih, itemMentions]
    | literal quote body closed =>
      cases closed with
      | true =>
        simp [Item.chars, Mode.mentions_cons, Mode.step, formed.1, Mode.mentions_literal formed.2, ih,
          itemMentions, Nat.add_assoc]
      | false =>
        obtain rfl : rest = [] := stops
        simp [Item.chars, Mode.mentions_cons, Mode.step, formed.1, Mode.mentions_open_literal formed.2,
          itemMentions, ← ih, Mode.finish]
    | mention name =>
      simp [Item.chars, Mode.mentions_cons, Mode.step, Mode.mentions_name formed stops, ih,
        itemMentions, Nat.add_assoc]

theorem mem_itemMentions_name {items : List Item} {offset : Nat} {name : List Char} :
    (∃ m ∈ itemMentions offset items, m.name = name) ↔ Item.mention name ∈ items := by
  induction items generalizing offset with
  | nil => simp [itemMentions]
  | cons item items ih => cases item <;> simp [itemMentions, ih, @eq_comm _ name]

theorem itemMentions_append (offset : Nat) (a b : List Item) :
    itemMentions offset (a ++ b) =
      itemMentions offset a ++ itemMentions (offset + byteLength (a.flatMap Item.chars)) b := by
  induction a generalizing offset with
  | nil => simp [itemMentions]
  | cons item a ih => cases item <;> simp [itemMentions, ih, Nat.add_assoc]

theorem Divides.scan_named {items : List Item} {cs : List Char} (h : Divides items cs)
    (named : .mention [] ∉ items) :
    ∃ names, scan cs = .ok names ∧ ∀ name, name ∈ names ↔ Item.mention name.toList ∈ items := by
  have eq : Query.mentions cs = itemMentions 0 items := h.mentions_eq 0
  refine ⟨_, scan_of_named fun m hm hn => named ?_, fun name => ?_⟩
  · exact mem_itemMentions_name.mp ⟨m, eq ▸ hm, hn⟩
  · rw [NameSet.mem_ofList, List.mem_map, eq, ← @mem_itemMentions_name _ 0]
    refine exists_congr fun m => and_congr_right fun _ => ?_
    rw [← String.toList_inj, String.toList_ofList]

theorem Divides.scan_unnamed {before after : List Item} {cs : List Char}
    (h : Divides (before ++ .mention [] :: after) cs) (first : .mention [] ∉ before) :
    scan cs = .error (byteLength (before.flatMap Item.chars)) := by
  have eq : Query.mentions cs = _ := h.mentions_eq 0
  rw [itemMentions_append, itemMentions, Nat.zero_add] at eq
  exact scan_of_unnamed eq fun m hm hn => first (mem_itemMentions_name.mp ⟨m, hm, hn⟩)

/-- A query is read in exactly one way as items. If every sigil among them has a name, the parameters
are these names; otherwise the first sigil without one is refused, at its byte. -/
theorem ofText_reads_items (text : String) :
    ∃ items, (∀ others, Divides others text.toList ↔ others = items) ∧
      ((.mention [] ∉ items ∧ ∃ names, ofText text = .ok ⟨text, names⟩ ∧
          ∀ name, name ∈ names ↔ .mention name.toList ∈ items) ∨
        ∃ before after, items = before ++ .mention [] :: after ∧ .mention [] ∉ before ∧
          ofText text =
            .error ⟨.emptyParameterName (byteLength (before.flatMap Item.chars)) text, []⟩) := by
  obtain ⟨items, h⟩ := exists_divides text.toList
  refine ⟨items, fun others => ⟨fun h' => h'.unique h, fun e => e ▸ h⟩, ?_⟩
  by_cases unnamed : .mention [] ∈ items
  · obtain ⟨before, after, rfl, first⟩ := List.eq_append_cons_of_mem unnamed
    exact .inr ⟨before, after, rfl, first, ofText_of_scan_error (h.scan_unnamed first)⟩
  · obtain ⟨names, scanned, mem⟩ := h.scan_named unnamed
    exact .inl ⟨unnamed, names, ofText_of_scan_ok scanned, mem⟩

end TableQuery.Query
