import Parley.Proofs.Frame.Grammar

/-!
# Writing a frame and reading it

A frame is written field by field, so its wire text is a row of segments in the sense of the
grammar, and the reader takes that row back whatever follows it. Only four of the seven fields have
a text of any length. Since the bytes after a frame are of no account to the reader, a frame is
known from any bytes that begin with its wire text; this is why no wire text begins with another
one.
-/

namespace Parley.Frame

/-! ## Digits -/

theorem toNat_digitChar (n : Nat) : (digitChar n).toNat = 0x30 + n % 10 := by
  rw [digitChar, Char.ofNat, dif_pos (.inl (by omega))]
  rfl

theorem isDigit_digitChar (n : Nat) : (digitChar n).isDigit = true := by
  rw [Char.isDigit_iff_toNat, toNat_digitChar]
  change 0x30 ≤ 0x30 + n % 10 ∧ 0x30 + n % 10 ≤ 0x39
  omega

theorem spells_lengthChars {n : Nat} (h : n ≤ maxFieldLength) : Text.Spells (lengthChars n) n := by
  refine ⟨nofun, ?_, ?_⟩
  · simp only [lengthChars, List.forall_mem_cons, isDigit_digitChar, List.not_mem_nil,
      false_implies, implies_true, and_self]
  · rw [← Text.foldl_digits]
    simp only [lengthChars, List.foldl_cons, List.foldl_nil, toNat_digitChar]
    rw [maxFieldLength] at h
    omega

theorem utf8EncodeChar_digit {c : Char} (h : c.isDigit = true) :
    String.utf8EncodeChar c = [c.val.toUInt8] := by
  have hbounds := Char.isDigit_iff_toNat.mp h
  have hc : c.val.toNat ≤ 0x39 := hbounds.2
  refine String.utf8EncodeChar_eq_singleton (Char.utf8Size_eq_one_iff.mpr ?_)
  rw [UInt32.le_iff_toNat_le]
  change c.val.toNat ≤ 127
  omega

theorem map_bytes_digits {cs : List Char} (h : ∀ c ∈ cs, c.isDigit = true) :
    (Text.bytes (String.ofList cs)).map (fun b => Char.ofNat b.toNat) = cs := by
  induction cs with
  | nil => rfl
  | cons c cs ih =>
      obtain ⟨hc, hcs⟩ := List.forall_mem_cons.mp h
      have hvalue : c.val.toUInt8.toNat = c.toNat := by
        have hbounds := Char.isDigit_iff_toNat.mp hc
        have hlow : c.toNat ≤ 0x39 := hbounds.2
        rw [UInt32.toNat_toUInt8]
        change c.toNat % 256 = c.toNat
        omega
      have hsplit : String.ofList (c :: cs) = String.ofList [c] ++ String.ofList cs := by
        rw [← String.ofList_append]
        rfl
      have hfirst : Text.bytes (String.ofList [c]) = [c.val.toUInt8] := by
        rw [Text.bytes, String.toByteArray_ofList, List.utf8Encode_singleton,
          utf8EncodeChar_digit hc, List.toList_data_toByteArray]
      rw [hsplit, Text.bytes_append, hfirst, List.map_append, ih hcs, List.map_singleton, hvalue,
        Char.ofNat_toNat]
      rfl

theorem declares_lengthChars {n : Nat} (h : n ≤ maxFieldLength) :
    Declares (Text.bytes (String.ofList (lengthChars n))) n := by
  have hmap := map_bytes_digits (spells_lengthChars h).digits
  constructor
  · have hlength := congrArg List.length hmap
    rwa [List.length_map] at hlength
  · rw [hmap]
    exact spells_lengthChars h

/-! ## Rows of segments -/

/-- The text of a segment. -/
def segmentText (text : String) : String :=
  String.ofList (lengthChars text.utf8ByteSize) ++ text

/-- Whether the text of a field cannot be written. -/
def tooLong (p : FrameField × String) : Bool := maxFieldLength < p.2.utf8ByteSize

theorem segment_of_tooLong {p : FrameField × String} (h : tooLong p = true) :
    segment p.1 p.2 = .error (.fieldTooLong p.1 p.2.utf8ByteSize) :=
  if_pos (of_decide_eq_true h)

theorem segment_of_fits {p : FrameField × String} (h : tooLong p = false) :
    segment p.1 p.2 = .ok (segmentText p.2) :=
  if_neg (of_decide_eq_false h)

/-- A row of segments is written if no text of it is too long; else the first such text is told. -/
theorem mapM_segment (row : List (FrameField × String)) :
    (row.mapM fun p => segment p.1 p.2) =
      match row.find? tooLong with
      | some p => .error (.fieldTooLong p.1 p.2.utf8ByteSize)
      | none => .ok (row.map fun p => segmentText p.2) := by
  induction row with
  | nil => rfl
  | cons p row ih =>
      rw [List.mapM_cons, List.find?_cons]
      cases hp : tooLong p with
      | true =>
          rw [segment_of_tooLong hp]
          rfl
      | false =>
          rw [segment_of_fits hp, ih, ok_bind]
          cases row.find? tooLong <;> rfl

theorem segments_join {texts : List String} (h : ∀ text ∈ texts, text.utf8ByteSize ≤ maxFieldLength)
    (rest : List UInt8) :
    Segments texts (Text.bytes (String.join (texts.map segmentText)) ++ rest) rest := by
  induction texts with
  | nil => exact .nil
  | cons text texts ih =>
      obtain ⟨htext, htexts⟩ := List.forall_mem_cons.mp h
      refine .cons ⟨_, declares_lengthChars htext, ?_⟩ (ih htexts)
      rw [List.map_cons, String.join_cons, segmentText, Text.bytes_append, Text.bytes_append,
        List.append_assoc, List.append_assoc]

/-! ## Frames -/

/-- The fields that have a text of any length, in wire order. -/
def openTexts (f : Frame) : List (FrameField × String) :=
  [(.timestamp, f.timestamp), (.topic, f.topic), (.sender, f.sender), (.payload, f.payload)]

/-- The texts of the fields before them. -/
def fixedTexts (f : Frame) : List (FrameField × String) :=
  [(.action, String.ofList (Nat.toDigits 10 f.action.ordinal)), (.store, flagText f.store),
    (.historical, flagText f.historical)]

theorem fieldTexts_eq (f : Frame) : f.fieldTexts = f.fixedTexts ++ f.openTexts := rfl

theorem tooLong_fixedTexts (f : Frame) : ∀ p ∈ f.fixedTexts, tooLong p = false := by
  have haction : tooLong (.action, String.ofList (Nat.toDigits 10 f.action.ordinal)) = false := by
    cases f.action <;> decide
  have hflag : ∀ field b, tooLong (field, flagText b) = false := by
    intro field b
    cases b <;> rfl
  intro p hp
  simp only [fixedTexts, List.mem_cons, List.not_mem_nil, or_false] at hp
  rcases hp with rfl | rfl | rfl
  · exact haction
  · exact hflag ..
  · exact hflag ..

theorem find?_fieldTexts (f : Frame) : f.fieldTexts.find? tooLong = f.openTexts.find? tooLong := by
  have hfixed : f.fixedTexts.find? tooLong = none := by
    rw [List.find?_eq_none]
    intro p hp
    rw [tooLong_fixedTexts f p hp]
    exact Bool.false_ne_true
  rw [fieldTexts_eq, List.find?_append, hfixed, Option.none_or]

/-- The wire text of a frame, if it has one. -/
def wireText (f : Frame) : String := String.join (f.fieldTexts.map fun p => segmentText p.2)

theorem encode_eq (f : Frame) :
    encode f =
      match f.openTexts.find? tooLong with
      | some p => .error (.fieldTooLong p.1 p.2.utf8ByteSize)
      | none => .ok f.wireText := by
  have hencode : encode f =
      (f.fieldTexts.mapM fun p => segment p.1 p.2) >>= fun row => pure (String.join row) := rfl
  rw [hencode, mapM_segment, find?_fieldTexts]
  cases f.openTexts.find? tooLong <;> rfl

theorem encode_eq_ok_iff {f : Frame} {wire : String} :
    encode f = .ok wire ↔ (∀ p ∈ f.openTexts, p.2.utf8ByteSize ≤ maxFieldLength) ∧
      wire = f.wireText := by
  rw [encode_eq]
  cases hfind : f.openTexts.find? tooLong with
  | none =>
      have hfits := List.find?_eq_none.mp hfind
      simp only [tooLong, decide_eq_true_eq, Nat.not_lt] at hfits
      exact ⟨fun h => ⟨hfits, (Except.ok.inj h).symm⟩, fun h => congrArg Except.ok h.2.symm⟩
  | some p =>
      refine ⟨nofun, fun h => ?_⟩
      have hlong := List.find?_some hfind
      have hfits := h.1 p (List.mem_of_find?_eq_some hfind)
      simp only [tooLong, decide_eq_true_eq] at hlong
      omega

theorem exists_encode_iff {f : Frame} :
    (∃ wire, encode f = .ok wire) ↔ ∀ p ∈ f.openTexts, p.2.utf8ByteSize ≤ maxFieldLength := by
  simp only [encode_eq_ok_iff, exists_and_left, exists_eq, and_true]

theorem encode_eq_error_iff {f : Frame} {e : FrameError} :
    encode f = .error e ↔ ∃ p, f.openTexts.find? tooLong = some p ∧
      e = .fieldTooLong p.1 p.2.utf8ByteSize := by
  rw [encode_eq]
  cases f.openTexts.find? tooLong with
  | none => exact ⟨nofun, fun ⟨_, h, _⟩ => nomatch h⟩
  | some p =>
      constructor
      · intro h
        exact ⟨p, rfl, (Except.error.inj h).symm⟩
      · rintro ⟨_, ⟨⟩, rfl⟩
        rfl

theorem flagText_eq_iff (b : Bool) : b = true ↔ flagText b = "t" := by
  cases b <;> decide

/-- Only the texts of any length have to fit. -/
theorem fits_fieldTexts {f : Frame} (h : ∀ p ∈ f.openTexts, p.2.utf8ByteSize ≤ maxFieldLength) :
    ∀ text ∈ f.fieldTexts.map Prod.snd, text.utf8ByteSize ≤ maxFieldLength := by
  rw [fieldTexts_eq]
  simp only [List.forall_mem_map, List.forall_mem_append]
  exact ⟨fun p hp => Nat.not_lt.mp (of_decide_eq_false (tooLong_fixedTexts f p hp)), h⟩

/-- The wire text of a frame, and any bytes after it, are that frame. -/
theorem represents_wireText {f : Frame}
    (h : ∀ p ∈ f.openTexts, p.2.utf8ByteSize ≤ maxFieldLength) (rest : List UInt8) :
    Represents (Text.bytes f.wireText ++ rest) f := by
  have hsegments := segments_join (fits_fieldTexts h) rest
  rw [List.map_map] at hsegments
  refine ⟨_, _, _, rest, hsegments, ?_, flagText_eq_iff f.store, flagText_eq_iff f.historical⟩
  exact ⟨[], _, _, String.toList_ofList, Text.spells_toDigits _, .inl ⟨.inl rfl, rfl⟩⟩

theorem decode_encode {f : Frame} {wire : String} (h : encode f = .ok wire) (rest : List UInt8) :
    decode (Text.bytes wire ++ rest) = .ok f := by
  obtain ⟨hfits, rfl⟩ := encode_eq_ok_iff.mp h
  exact decode_eq_ok_iff.mpr (represents_wireText hfits rest)

/-- Bytes that begin with the wire text of a frame are no other frame's wire text. -/
theorem eq_of_encode_isPrefix {f g : Frame} {wire wire' : String} (hf : encode f = .ok wire)
    (hg : encode g = .ok wire') (hbegins : Text.bytes wire <+: Text.bytes wire') : f = g := by
  obtain ⟨rest, hrest⟩ := hbegins
  have hread := decode_encode hg []
  rw [List.append_nil, ← hrest, decode_encode hf rest] at hread
  exact Except.ok.inj hread

/-- A frame is written if each of the four texts whose length is open has at most 99 999 bytes, and
else the first that is longer is told. What is written is read back as that frame, whatever follows
it; so no two frames are written alike, and none is written as the beginning of another. -/
theorem encode_roundTrip (f : Frame) :
    ((∃ wire, encode f = .ok wire) ↔ ∀ p ∈ f.openTexts, p.2.utf8ByteSize ≤ 99999) ∧
    (∀ e, encode f = .error e ↔ ∃ field text,
      f.openTexts.find? (fun p => 99999 < p.2.utf8ByteSize) = some (field, text) ∧
        e = .fieldTooLong field text.utf8ByteSize) ∧
    ∀ wire, encode f = .ok wire →
      (∀ rest, decode (Text.bytes wire ++ rest) = .ok f) ∧
      ∀ g wire', encode g = .ok wire' → (wire = wire' → f = g) ∧
        (Text.bytes wire <+: Text.bytes wire' → wire = wire') := by
  refine ⟨exists_encode_iff, fun e => ?_, fun wire hf => ⟨decode_encode hf,
    fun g wire' hg => ⟨?_, ?_⟩⟩⟩
  · rw [encode_eq_error_iff, Prod.exists]
    exact Iff.rfl
  · rintro rfl
    exact eq_of_encode_isPrefix hf hg (List.prefix_refl _)
  · intro hbegins
    cases eq_of_encode_isPrefix hf hg hbegins
    exact Except.ok.inj (hf.symm.trans hg)

/-- A topic that looks like a length, a sender of six bytes in two characters, and half a character
after the frame; a longer payload does not make a wire text that continues the shorter one. -/
theorem encode_roundTrip_lookalike :
    ∃ wire wire', encode ⟨.text, true, false, "", "00003", "é😀", "a"⟩ = .ok wire ∧
      encode ⟨.text, true, false, "", "00003", "é😀", "ab"⟩ = .ok wire' ∧
      decode (Text.bytes wire ++ [0xC3]) = .ok ⟨.text, true, false, "", "00003", "é😀", "a"⟩ ∧
      ¬ Text.bytes wire <+: Text.bytes wire' := by
  have short := encode_roundTrip ⟨.text, true, false, "", "00003", "é😀", "a"⟩
  have long := encode_roundTrip ⟨.text, true, false, "", "00003", "é😀", "ab"⟩
  obtain ⟨wire, hwire⟩ := short.1.mpr (by decide)
  obtain ⟨wire', hwire'⟩ := long.1.mpr (by decide)
  obtain ⟨hread, hothers⟩ := short.2.2 wire hwire
  refine ⟨wire, wire', hwire, hwire', hread [0xC3], fun hbegins => ?_⟩
  have hsame := (hothers _ wire' hwire').1 ((hothers _ wire' hwire').2 hbegins)
  exact absurd (congrArg Frame.payload hsame) (by decide)

end Parley.Frame
