import TableQuery.Proofs.Json.Skip
import TableQuery.Proofs.Json.Verdict

/-! # Arrays and objects read by their value

Going through an array gives what the elements give, in order, and going through an object folds over
its members. A reader for a fixed number of places meets the elements of the array one after the
other. The clocks never run out: each part takes at least one character (`Spells.length_lt`). -/

namespace TableQuery.Json

variable {α β σ : Type} {cs rest : List Char}

theorem Lead.length_le {first : Bool} (h : Lead first cs rest) : rest.length ≤ cs.length := by
  cases first with
  | true => exact Nat.le_of_eq (congrArg List.length h).symm
  | false => exact Nat.le_of_lt (Token.length_lt h)

theorem Number.Literal.Formed.chars_ne_nil {l : Number.Literal} (h : l.Formed) : 0 < l.chars.length := by
  obtain ⟨c, more, eq, -⟩ := h.exists_first
  simp [eq]

mutual

theorem Spells.length_lt : (d : Document) → {cs rest : List Char} → Spells cs d rest →
    rest.length < cs.length
  | .null, _, _, .null token => token.length_lt_append
  | .boolean true, _, _, .yes token => token.length_lt_append
  | .boolean false, _, _, .no token => token.length_lt_append
  | .number _, _, _, .number _ formed _ chars _ => by
    have := formed.chars_ne_nil
    simp [chars]
    omega
  | .text s, _, _, h => by
    cases h with
    | text token chars => exact Nat.lt_trans chars.length_lt token.length_lt
  | .array ds, _, _, .array token elements =>
    Nat.lt_trans (SpellsElements.length_lt ds elements) token.length_lt
  | .object ms, _, _, .object token members =>
    Nat.lt_trans (SpellsMembers.length_lt ms members) token.length_lt

theorem SpellsElements.length_lt : (ds : List Document) → {first : Bool} → {cs rest : List Char} →
    SpellsElements first cs ds rest → rest.length < cs.length
  | [], _, _, _, .close token => token.length_lt
  | d :: ds, _, _, _, .element lead value tail =>
    calc _ < _ := SpellsElements.length_lt ds tail
      _ < _ := Spells.length_lt d value
      _ ≤ _ := lead.length_le

theorem SpellsMembers.length_lt : (ms : List (String × Document)) → {first : Bool} →
    {cs rest : List Char} → SpellsMembers first cs ms rest → rest.length < cs.length
  | [], _, _, _, .close token => token.length_lt
  | (_, d) :: ms, _, _, _, .member lead quote key colon value tail =>
    calc _ < _ := SpellsMembers.length_lt ms tail
      _ < _ := Spells.length_lt d value
      _ < _ := length_lt_of_key quote key colon
      _ ≤ _ := lead.length_le

end

section
variable {first : Bool} {inner more : List Char} {d : Document}

theorem nextElement_close (token : Token ']' cs rest) : nextElement first cs = .ok (.closed rest) := by
  simp [nextElement, token.skipBlanks_eq rfl]

theorem nextElement_element (lead : Lead first cs inner) (value : Spells inner d more) :
    nextElement first cs = .ok (.element (skipBlanks inner)) := by
  obtain ⟨c, after, eq, kind⟩ := value.exists_first
  have ne : c ≠ ']' := by
    rintro rfl
    cases kind
  cases first with
  | true =>
    obtain rfl : cs = inner := lead
    simp [nextElement, eq, ne]
  | false => simp [nextElement, Token.skipBlanks_eq lead rfl, eq, ne]

end

theorem gives_elementsFrom {read : Reader α} {verdict : Document → Verdict α}
    (h : Follows read verdict) (ds : List Document) (index : Nat) (done : List α) (clock : List Char)
    (elements : SpellsElements (index == 0) cs ds rest) (longer : cs.length < clock.length) :
    Gives (Leaves rest) (do return done.reverse ++ (← ds.mapM verdict))
      (elementsFrom read clock index done cs) := by
  induction ds generalizing cs index done clock with
  | nil =>
    cases elements with
    | close token =>
      cases clock with
      | nil => exact absurd longer (by simp)
      | cons t clock =>
        rw [elementsFrom, nextElement_close token]
        exact .pure (by simp [Leaves])
  | cons d ds ih =>
    cases elements with
    | @element _ _ inner more _ _ _ lead value tail =>
      cases clock with
      | nil => exact absurd longer (by simp)
      | cons t clock =>
        rw [elementsFrom, nextElement_element lead value]
        -- a tick is gone, and at least one character with it
        have shorter : more.length < clock.length := by
          have := Spells.length_lt d value
          have := lead.length_le
          simp at longer
          omega
        have split : (do return done.reverse ++ (← (d :: ds).mapM verdict)) =
            verdict d >>= fun a => do return (a :: done).reverse ++ (← ds.mapM verdict) := by
          simp [List.mapM_cons]
        rw [split]
        refine ((h value.blanks).within _).bind ?_
        rintro a _ rfl
        exact ih (index + 1) (a :: done) clock (by simpa using tail) shorter

theorem follows_readList {read : Reader α} {verdict : Document → Verdict α} (h : Follows read verdict) :
    Follows (readList read) (Verdict.list verdict) := by
  intro cs d rest spells
  obtain ⟨c, more, first, kind⟩ := spells.exists_first
  rw [readList, startingAt_eq first]
  cases spells with
  | array token elements =>
    obtain ⟨rfl, rfl⟩ := token.eq_of_first rfl first
    rw [if_pos rfl]
    have all := gives_elementsFrom h _ 0 [] ('[' :: more) elements (by simp)
    simpa [Verdict.list, Json.elements] using all
  | _ =>
    have ne : c ≠ '[' := by
      rintro rfl
      cases kind
    rw [if_neg ne]
    exact exists_refuse _ _ _

theorem follows_readOptional {read : Reader α} {verdict : Document → Verdict α}
    (h : Follows read verdict) : Follows (readOptional read) (Verdict.optional verdict) := by
  intro cs d rest spells
  obtain ⟨c, more, first, kind⟩ := spells.exists_first
  rw [readOptional, startingAt_eq first]
  by_cases null : d = .null
  · subst null
    cases spells with
    | null token =>
      obtain ⟨rfl, rfl⟩ := token.eq_of_first rfl first
      rw [if_pos rfl, readWord_append]
      exact .pure rfl
  · have ne : c ≠ 'n' := by
      rintro rfl
      have : some Kind.null = some d.kind := kind
      cases d <;> simp_all [Document.kind]
    have present : Verdict.optional verdict d = do return some (← verdict d) := by
      cases d <;> first | exact absurd rfl null | rfl
    rw [if_neg ne, present, ← first]
    refine (h spells.blanks).bind ?_
    rintro a _ rfl
    exact .pure rfl

/-! ### Members -/

/-- The reader of a member, which starts after the key, does to the state what `step` says of the key
and the value. -/
def FollowsMember (member : σ → String → Reader σ) (step : σ → String × Document → Verdict σ) : Prop :=
  ∀ ⦃state key colon value d rest⦄, Token ':' colon value → Spells value d rest →
    Gives (Leaves rest) (step state (key, d)) (member state key colon)

theorem follows_memberValue {read : Reader α} {verdict : Document → Verdict α} (key : String)
    (h : Follows read verdict) {colon value : List Char} {d : Document} (token : Token ':' colon value)
    (spells : Spells value d rest) : Gives (Leaves rest) (verdict d) (memberValue key read colon) := by
  have found : skipColon colon = .ok value := by simp [skipColon, token.skipBlanks_eq rfl]
  rw [memberValue, found]
  exact (h spells).within _

section
variable {first : Bool} {inner body s colon : List Char}

theorem nextKey_close (token : Token '\x7d' cs rest) : nextKey first cs = .ok (.closed rest) := by
  simp [nextKey, nextKeyUnlocated, within, token.skipBlanks_eq rfl]

theorem nextKey_member (lead : Lead first cs inner) (quote : Token '\x22' inner body)
    (key : SpellsChars body s colon) : nextKey first cs = .ok (.member (String.ofList s) colon) := by
  have start : keyAt ('\x22' :: body) = .ok (.member (String.ofList s) colon) := by
    simp [keyAt, key.readString, bind, Except.bind, pure, Except.pure]
  have inside := quote.skipBlanks_eq rfl
  cases first with
  | true =>
    obtain rfl : cs = inner := lead
    simp [nextKey, nextKeyUnlocated, within, inside, start]
  | false => simp [nextKey, nextKeyUnlocated, within, Token.skipBlanks_eq lead rfl, inside, start]

end

theorem gives_membersFrom {member : σ → String → Reader σ} {step : σ → String × Document → Verdict σ}
    (h : FollowsMember member step) (ms : List (String × Document)) (first : Bool) (state : σ)
    (clock : List Char) (spells : SpellsMembers first cs ms rest) (longer : cs.length < clock.length) :
    Gives (Leaves rest) (ms.foldlM step state) (membersFrom member clock first state cs) := by
  induction ms generalizing cs first state clock with
  | nil =>
    cases spells with
    | close token =>
      cases clock with
      | nil => exact absurd longer (by simp)
      | cons t clock =>
        rw [membersFrom, nextKey_close token]
        exact .pure rfl
  | cons m ms ih =>
    cases spells with
    | @member _ _ inner _ _ _ _ more _ d _ lead quote key colon value tail =>
      cases clock with
      | nil => exact absurd longer (by simp)
      | cons t clock =>
        rw [membersFrom, nextKey_member lead quote key, List.foldlM_cons]
        have shorter : more.length < clock.length := by
          have := Spells.length_lt d value
          have := length_lt_of_key quote key colon
          have := lead.length_le
          simp at longer
          omega
        refine (h colon value).bind ?_
        rintro state' _ rfl
        exact ih false state' clock tail shorter

theorem gives_members {member : σ → String → Reader σ} {step : σ → String × Document → Verdict σ}
    (h : FollowsMember member step) {ms : List (String × Document)} (state : σ)
    (spells : SpellsMembers true cs ms rest) :
    Gives (Leaves rest) (ms.foldlM step state) (members member state cs) :=
  gives_membersFrom h ms true state _ spells (by simp)

theorem cause_leaving (cause : Cause) (cs : List Char) : (Fault.leaving cause cs).cause = cause := by
  unfold Fault.leaving
  split <;> rfl

/-- The places of an array from `index` on hold the elements `ds`, and `rest` follows the array. -/
inductive Places.Hold (index : Nat) : Places → List Document → List Char → Prop where
  | closed {rest : List Char} : Hold index (.closed rest) [] rest
  | inside {cs rest : List Char} {ds : List Document}
      (elements : SpellsElements (index == 0) cs ds rest) : Hold index (.inside cs) ds rest

namespace Verdict

/-- What stands at the first of the places left, if something does. -/
def place (element : Document → Verdict α) : List Document → Verdict (Option α)
  | [] => .ok none
  | d :: _ => do return some (← element d)

def filled : Option α → Verdict α
  | none => .error none
  | some a => .ok a

def finished : List Document → Verdict Unit
  | [] => .ok ()
  | _ :: _ => .error none

end Verdict

namespace Places.Hold
variable {index : Nat} {places : Places} {ds : List Document}

theorem gives_placeAt {read : Reader α} {verdict : Document → Verdict α} (h : Follows read verdict)
    (hold : Hold index places ds rest) :
    Gives (fun a b => b.1 = a ∧ Hold (index + 1) b.2 ds.tail rest) (Verdict.place verdict ds)
      (placeAt index read places) := by
  cases hold with
  | closed => exact .pure ⟨rfl, .closed⟩
  | inside elements =>
    cases elements with
    | close token =>
      rw [placeAt, nextElement_close token]
      exact .pure ⟨rfl, .closed⟩
    | element lead value tail =>
      rw [placeAt, nextElement_element lead value]
      refine ((h value.blanks).within _).bind ?_
      rintro a _ rfl
      exact .pure ⟨rfl, .inside (by simpa using tail)⟩

theorem gives_close (hold : Hold (index + 1) places ds rest) :
    Gives (fun () b => b = rest) (Verdict.finished ds) places.close := by
  cases hold with
  | closed => exact .pure rfl
  | inside elements =>
    cases elements with
    | close token =>
      rw [Places.close, token.skipBlanks_eq rfl]
      exact .pure rfl
    | element lead value tail =>
      have comma := Token.skipBlanks_eq lead rfl
      simp only [Places.close, comma, ↓reduceIte, Char.reduceEq]
      split <;> exact ⟨_, rfl⟩

end Places.Hold

theorem gives_required (length : Nat) (wanted : String) (places : Places) (a : Option α) :
    Gives (fun a b => b = a) (Verdict.filled a) (required length wanted places a) := by
  cases a with
  | none => exact ⟨_, rfl⟩
  | some a => exact .pure rfl

/-- The verdict on a value that is to be an object or an array. -/
def Verdict.compound (object : List (String × Document) → Verdict α)
    (array : List Document → Verdict α) : Document → Verdict α
  | .object ms => object ms
  | .array ds => array ds
  | _ => .error none

theorem follows_compound {readObject readArray : Reader α} {object : List (String × Document) → Verdict α}
    {array : List Document → Verdict α} (wanted : String)
    (members : ∀ ⦃cs ms rest⦄, SpellsMembers true cs ms rest →
      Gives (Leaves rest) (object ms) (readObject cs))
    (elements : ∀ ⦃cs ds rest⦄, SpellsElements true cs ds rest →
      Gives (Leaves rest) (array ds) (readArray cs)) :
    Follows (startingAt fun c rest => if c = '\x7b' then readObject rest
      else if c = '[' then readArray rest else refuse wanted c rest) (Verdict.compound object array) := by
  intro cs d rest spells
  obtain ⟨c, more, first, kind⟩ := spells.exists_first
  rw [startingAt_eq first]
  cases spells with
  | object token inside =>
    obtain ⟨rfl, rfl⟩ := token.eq_of_first rfl first
    exact members inside
  | array token inside =>
    obtain ⟨rfl, rfl⟩ := token.eq_of_first rfl first
    exact elements inside
  | _ =>
    have ne : c ≠ '\x7b' ∧ c ≠ '[' := by
      constructor <;> rintro rfl <;> cases kind
    rw [if_neg ne.1, if_neg ne.2]
    exact exists_refuse _ _ _

end TableQuery.Json
