import TableQuery.Command.Settings
import TableQuery.Proofs.Text.Trimmed

/-! # What a setting is read as

A setting comes as bytes. It asks for strict checks if it is a text that counts as on, which is every
text but those that `SpellsOff` describes (`isOn_eq_false_iff`). Bytes that are no text do not ask for
strict checks (`strictSetting_eq_false_iff`), although they are neither nothing nor `0` nor `false`
(`strictSetting_stays_off_without_text`). -/

namespace TableQuery

theorem fromUTF8?_toUTF8 (s : String) : String.fromUTF8? s.toUTF8 = some s := by
  unfold String.fromUTF8?
  rw [String.toUTF8_eq_toByteArray, dif_pos s.isValidUTF8]
  rfl

theorem fromUTF8?_eq_some_iff {bytes : ByteArray} {s : String} :
    String.fromUTF8? bytes = some s ↔ bytes = s.toUTF8 := by
  constructor
  · intro decoded
    unfold String.fromUTF8? at decoded
    split at decoded
    · obtain rfl := Option.some.inj decoded
      rfl
    · cases decoded
  · rintro rfl
    exact fromUTF8?_toUTF8 s

namespace Command

theorem strictSetting_eq_true_iff {setting : Option ByteArray} :
    strictSetting setting = true ↔ ∃ value : String, setting = some value.toUTF8 ∧ isOn value = true := by
  cases setting with
  | none => simp [strictSetting]
  | some bytes =>
    simp only [Option.some.injEq, ← fromUTF8?_eq_some_iff]
    rw [strictSetting]
    cases String.fromUTF8? bytes with
    | none => simp
    | some text => simp

/-- Nothing, `0`, or `false` in any case, with blanks around it. -/
def SpellsOff (text : String) : Prop :=
  ∃ before core after, text.toList = before ++ core ++ after ∧ Text.Blanks before ∧ Text.Blanks after ∧
    (core = [] ∨ core = ['0'] ∨ core.map Char.toLower = ['f', 'a', 'l', 's', 'e'])

theorem asciiLower_eq_toLower (c : Char) : asciiLower c = c.toLower := by
  have upper : ('A' ≤ c && c ≤ 'Z') = true ↔ c.val ≥ 'A'.val ∧ c.val ≤ 'Z'.val := by simp [Char.le_def]
  unfold asciiLower Char.toLower
  by_cases h : c.val ≥ 'A'.val ∧ c.val ≤ 'Z'.val
  · rw [if_pos (upper.mpr h), dif_pos h]
    have le : c.toNat ≤ 90 := UInt32.le_iff_toNat_le.mp h.2
    have valid : (c.toNat + 32).isValidChar := .inl (by omega)
    rw [Char.ofNat, dif_pos valid]
    refine Char.toNat_inj.mp ?_
    change c.toNat + 32 = (c.toNat + 32) % 2 ^ 32
    omega
  · rw [if_neg (mt upper.mp h), dif_neg h]

/-- The letters of `false` are no blanks, and neither are those in upper case. -/
theorem not_isBlank_of_toLower {c : Char} (h : c.toLower ∈ ['f', 'a', 'l', 's', 'e']) :
    Text.isBlank c = false := by
  have letters : ['f', 'a', 'l', 's', 'e'].all (!Text.isBlank ·) = true := by decide
  rw [← asciiLower_eq_toLower, asciiLower] at h
  split at h
  · rename_i upper
    simp only [Bool.and_eq_true, decide_eq_true_eq, Char.le_def, UInt32.le_iff_toNat_le] at upper
    have range : 65 ≤ c.toNat ∧ c.toNat ≤ 90 := upper
    simp only [Text.isBlank, Text.blankRanges, List.any_eq_false, List.forall_mem_cons, Bool.and_eq_true,
      decide_eq_true_eq]
    grind
  · simpa using List.all_eq_true.mp letters c h

theorem isOn_eq_false_iff {text : String} : isOn text = false ↔ SpellsOff text := by
  have lower : asciiLower = Char.toLower := funext asciiLower_eq_toLower
  have off : isOn text = false ↔ Text.trim text.toList = [] ∨ Text.trim text.toList = ['0'] ∨
      (Text.trim text.toList).map Char.toLower = ['f', 'a', 'l', 's', 'e'] := by
    simp only [isOn, lower, Bool.not_eq_false', Bool.or_eq_true, List.isEmpty_iff, beq_iff_eq, or_assoc]
  rw [off]
  constructor
  · intro h
    obtain ⟨before, after, eq, hb, ha⟩ := Text.exists_trim text.toList
    exact ⟨before, Text.trim text.toList, after, eq, hb, ha, h⟩
  · rintro ⟨before, core, after, eq, hb, ha, h⟩
    have full : ∀ c ∈ core, Text.isBlank c = false := by
      rcases h with rfl | rfl | spelled
      · simp
      · simp only [List.mem_singleton, forall_eq]
        decide
      · intro c hc
        exact not_isBlank_of_toLower (spelled ▸ List.mem_map_of_mem hc)
    rwa [eq, Text.trim_between hb ha full]

/-- A setting does not ask for strict checks if it is no text, or a text that spells off. -/
theorem strictSetting_eq_false_iff (bytes : ByteArray) : strictSetting (some bytes) = false ↔
    (∀ value : String, bytes ≠ value.toUTF8) ∨
      ∃ value : String, bytes = value.toUTF8 ∧ SpellsOff value := by
  simp only [← isOn_eq_false_iff, ← fromUTF8?_eq_some_iff, strictSetting, ne_eq]
  cases String.fromUTF8? bytes <;> simp

/-- A byte that is no text does not turn strict checks on, although it is none of the values for off. -/
theorem strictSetting_stays_off_without_text :
    strictSetting (some ⟨#[0xFF]⟩) = false ∧
      ¬∃ value : String, (⟨#[0xFF]⟩ : ByteArray) = value.toUTF8 ∧ SpellsOff value := by
  have hnone : String.fromUTF8? ⟨#[0xFF]⟩ = none := by decide +kernel
  refine ⟨?_, ?_⟩
  · rw [strictSetting, hnone]
  · rintro ⟨value, text, -⟩
    rw [fromUTF8?_eq_some_iff.mpr text] at hnone
    cases hnone

end Command

end TableQuery
