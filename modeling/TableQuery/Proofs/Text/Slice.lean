import TableQuery.Text

/-! # Which parts of a text exist

A part exists between two bytes exactly if the text is this part between two others of fitting sizes
(`slice?_eq_some_iff`), so both bytes are boundaries of characters (`bounds_of_slice?`). -/

namespace TableQuery.Text
variable {text part : String} {start stop : Nat}

theorem slice?_eq_some_iff : slice? text start stop = some part ↔
    ∃ before after, text = before ++ (part ++ after) ∧ before.utf8ByteSize = start ∧
      start + part.utf8ByteSize = stop := by
  constructor
  · intro h
    unfold slice? at h
    split at h
    · rename_i bounds
      rw [Option.some.injEq, String.extract_eq_copy_slice _ _ bounds.1] at h
      obtain ⟨before, after, first, last⟩ := String.copy_slice_eq_iff_splits.mp ⟨_, h⟩
      have starts := String.Pos.Raw.ext_iff.mp first.offset_eq_rawEndPos
      have stops := String.Pos.Raw.ext_iff.mp last.offset_eq_rawEndPos
      simp only [String.byteIdx_rawEndPos, String.utf8ByteSize_append] at starts stops
      exact ⟨before, after, first.eq_append, starts.symm, by omega⟩
    · cases h
  · rintro ⟨before, after, rfl, rfl, rfl⟩
    have same : before ++ (part ++ after) = before ++ part ++ after := String.append_assoc.symm
    have size : String.Pos.Raw.mk (before.utf8ByteSize + part.utf8ByteSize) = (before ++ part).rawEndPos := by
      simp [String.Pos.Raw.ext_iff]
    have first : (String.Pos.Raw.mk before.utf8ByteSize).IsValid (before ++ (part ++ after)) :=
      String.Pos.Raw.isValid_iff_exists_append.mpr ⟨before, part ++ after, rfl, rfl⟩
    have last : (String.Pos.Raw.mk (before.utf8ByteSize + part.utf8ByteSize)).IsValid
        (before ++ (part ++ after)) :=
      String.Pos.Raw.isValid_iff_exists_append.mpr ⟨before ++ part, after, same, size⟩
    have starts : (⟨_, first⟩ : String.Pos (before ++ (part ++ after))).Splits before (part ++ after) :=
      ⟨rfl, rfl⟩
    have stops : (⟨_, last⟩ : String.Pos (before ++ (part ++ after))).Splits (before ++ part) after :=
      ⟨same, size⟩
    obtain ⟨ordered, cut⟩ := String.copy_slice_eq_iff_splits.mpr ⟨before, after, starts, stops⟩
    rw [slice?, dif_pos ⟨ordered, first, last⟩, String.extract_eq_copy_slice _ _ ordered, cut]

theorem bounds_of_slice? (h : slice? text start stop = some part) :
    start ≤ stop ∧ stop ≤ text.utf8ByteSize ∧ String.Pos.Raw.IsValid text ⟨start⟩ ∧
      String.Pos.Raw.IsValid text ⟨stop⟩ := by
  unfold slice? at h
  split at h
  · rename_i bounds
    exact ⟨bounds.1, bounds.2.2.le_utf8ByteSize, bounds.2.1, bounds.2.2⟩
  · cases h

-- the second byte of a character is no place to stop
example : slice? "né" 1 3 = some "é" ∧ slice? "né" 1 2 = none := by decide

end TableQuery.Text
