import Parley.Proofs.Frame.Canonical

/-!
# Frames that were cut off

A wire text may be cut anywhere: between two segments, in the digits of a length, in a text or in
one of its characters. The segments before the cut are read as they were written, and the first one
that is not whole is told, for the reader looks at the length of a text before it looks at the text.
-/

namespace Parley.Frame

/-! ## One segment -/

theorem length_bytes_segmentText {text : String} (hfits : text.utf8ByteSize ≤ maxFieldLength) :
    (Text.bytes (segmentText text)).length = 5 + text.utf8ByteSize := by
  rw [segmentText, Text.bytes_append, List.length_append, (declares_lengthChars hfits).width,
    Text.bytes_length]

theorem fault_of_part (field : FrameField) {text : String} {part : List UInt8}
    (hfits : text.utf8ByteSize ≤ maxFieldLength) (hpart : part <+: Text.bytes (segmentText text))
    (hshort : part.length < 5 + text.utf8ByteSize) :
    Fault field part (if part.length < 5 then .truncated field 5 part.length
      else .truncated field text.utf8ByteSize (part.length - 5)) := by
  have hheader := declares_lengthChars hfits
  split
  · rename_i hfive
    exact .short hfive
  · rename_i hfive
    rw [segmentText, Text.bytes_append] at hpart
    obtain ⟨body, rfl⟩ : Text.bytes (String.ofList (lengthChars text.utf8ByteSize)) <+: part :=
      List.prefix_of_prefix_length_le (List.prefix_append _ _) hpart
        (by rw [hheader.width]; omega)
    rw [List.length_append, hheader.width] at hshort ⊢
    rw [Nat.add_sub_cancel_left]
    exact .overrun hheader (by omega)

/-! ## A row of segments -/

/-- A row was cut off in the segment of `text`: those before it are whole, and of this one `present`
bytes are there and some are missing. -/
structure CutIn (row : List (FrameField × String)) (cut : List UInt8)
    (before : List (FrameField × String)) (field : FrameField) (text : String)
    (present : Nat) : Prop where
  reached : before ++ [(field, text)] <+: row
  bytes : ∃ part, cut = Text.bytes (rowText (before.map Prod.snd)) ++ part ∧
    part <+: Text.bytes (segmentText text) ∧ part.length = present
  missing : present < 5 + text.utf8ByteSize

theorem exists_cutIn {row : List (FrameField × String)} {cut : List UInt8}
    (hfits : ∀ p ∈ row, p.2.utf8ByteSize ≤ maxFieldLength)
    (hcut : cut <+: Text.bytes (rowText (row.map Prod.snd)))
    (hproper : cut ≠ Text.bytes (rowText (row.map Prod.snd))) :
    ∃ before field text present, CutIn row cut before field text present := by
  induction row generalizing cut with
  | nil => exact absurd (List.prefix_nil.mp hcut) hproper
  | cons p row ih =>
      obtain ⟨hp, hrow⟩ := List.forall_mem_cons.mp hfits
      rw [List.map_cons, bytes_rowText_cons] at hcut hproper
      by_cases hshort : cut.length < (Text.bytes (segmentText p.2)).length
      · have hpart : cut <+: Text.bytes (segmentText p.2) :=
          List.prefix_of_prefix_length_le hcut (List.prefix_append _ _) (Nat.le_of_lt hshort)
        rw [length_bytes_segmentText hp] at hshort
        exact ⟨[], p.1, p.2, cut.length, ⟨row, rfl⟩, ⟨cut, rfl, hpart, rfl⟩, hshort⟩
      · -- The first segment is whole, and the cut lies behind it.
        obtain ⟨later, rfl⟩ : Text.bytes (segmentText p.2) <+: cut :=
          List.prefix_of_prefix_length_le (List.prefix_append _ _) hcut (Nat.not_lt.mp hshort)
        obtain ⟨before, field, text, present, hbefore, ⟨part, rfl, hpart⟩, hmissing⟩ :=
          ih hrow ((List.prefix_append_right_inj _).mp hcut) fun heq => hproper (by rw [heq])
        refine ⟨p :: before, field, text, present, (List.prefix_cons_inj p).mpr hbefore,
          ⟨part, ?_, hpart⟩, hmissing⟩
        rw [List.map_cons, bytes_rowText_cons, List.append_assoc]

/-! ## Frames -/

theorem fields_fieldTexts (f : Frame) : f.fieldTexts.map Prod.fst = wireOrder := rfl

/-- The first of the texts of a frame names its action. -/
theorem namesAction_of_head {f : Frame} {before : List (FrameField × String)}
    (h : before <+: f.fieldTexts) : ∀ action ∈ (before.map Prod.snd).head?, NamesAction action := by
  cases before with
  | nil => nofun
  | cons p before =>
      rintro _ ⟨⟩
      obtain ⟨rest, hrest⟩ := h
      obtain rfl := (List.cons.inj hrest).1
      exact namesAction_iff.mpr ⟨f.action, [], _, _, String.toList_ofList,
        Text.spells_toDigits _, .inl ⟨.inl rfl, rfl⟩⟩

theorem firstFault_of_cutIn {f : Frame}
    (hopen : ∀ p ∈ f.openTexts, p.2.utf8ByteSize ≤ maxFieldLength) {cut : List UInt8}
    {before : List (FrameField × String)} {field : FrameField} {text : String} {present : Nat}
    (h : CutIn f.fieldTexts cut before field text present) :
    FirstFault cut (if present < 5 then .truncated field 5 present
      else .truncated field text.utf8ByteSize (present - 5)) := by
  obtain ⟨⟨after, hrow⟩, ⟨part, rfl, hpart, rfl⟩, hmissing⟩ := h
  rw [List.append_assoc] at hrow
  have hfits := fits_fieldTexts hopen
  rw [← hrow, List.map_append, List.forall_mem_append] at hfits
  obtain ⟨hbefore, hafter⟩ := hfits
  have hfield : wireOrder[(before.map Prod.snd).length]? = some field := by
    rw [← fields_fieldTexts f, ← hrow, List.length_map, List.getElem?_map,
      List.getElem?_append_right (Nat.le_refl _), Nat.sub_self]
    rfl
  exact .field (segments_iff.mpr ⟨hbefore, rfl⟩) (namesAction_of_head ⟨_, hrow⟩) hfield
    (fault_of_part field (hafter text (by simp)) hpart hmissing)

/-- However a frame was cut off, there is a first segment that is not whole, and the reading fails
for it: if not all five bytes of its length are there, it is told that five were needed and how many
are left, and else how many bytes of its text were needed and how many of them are left. -/
theorem decode_cut {f : Frame} {wire : String} (h : encode f = .ok wire) {cut : List UInt8}
    (hcut : cut <+: Text.bytes wire) (hproper : cut ≠ Text.bytes wire) :
    (∃ before field text present, CutIn f.fieldTexts cut before field text present) ∧
    ∀ before field text present, CutIn f.fieldTexts cut before field text present →
      decode cut = .error (if present < 5 then .truncated field 5 present
        else .truncated field text.utf8ByteSize (present - 5)) := by
  obtain ⟨hopen, rfl⟩ := encode_eq_ok_iff.mp h
  rw [wireText_eq] at hcut hproper
  exact ⟨exists_cutIn (List.forall_mem_map.mp (fits_fieldTexts hopen)) hcut hproper,
    fun before field text present hin => decode_eq_error_iff.mpr (firstFault_of_cutIn hopen hin)⟩

/-- The cut goes through a character of the topic, of which one byte is left. -/
theorem decode_cut_character :
    let f : Frame := ⟨.text, true, false, "", "é", "", "hi"⟩
    let cut := Text.bytes "000021200001t00001f0000000002" ++ [0xC3]
    ∃ wire, encode f = .ok wire ∧ cut <+: Text.bytes wire ∧ cut ≠ Text.bytes wire ∧
      CutIn f.fieldTexts cut (f.fieldTexts.take 4) .topic "é" 6 ∧
      decode cut = .error (.truncated .topic 2 1) := by
  intro f cut
  have hwire : encode f = .ok f.wireText := encode_eq_ok_iff.mpr ⟨by decide, rfl⟩
  have hcut : cut <+: Text.bytes f.wireText := by decide
  have hproper : cut ≠ Text.bytes f.wireText := by decide
  have hin : CutIn f.fieldTexts cut (f.fieldTexts.take 4) .topic "é" 6 :=
    ⟨by decide, ⟨Text.bytes "00002" ++ [0xC3], by decide, by decide, by decide⟩, by decide⟩
  exact ⟨_, hwire, hcut, hproper, hin, (decode_cut hwire hcut hproper).2 _ _ _ _ hin⟩

end Parley.Frame
