import Parley.Proofs.Frame.RoundTrip

/-!
# The canonical form of a frame

Every segment is what the writer writes for its text, for the five digits in front of a text leave
no choice (`segment_iff`). So what was read as a frame differs from what is written for that frame
only where the reader forgets what a text was: an action may have a sign or zeros in front, and
every text but `t` stands for a flag that is not set. Written again, such a frame is in its
canonical form, which is read as the same frame and written as the same text.
-/

namespace Parley.Frame

/-! ## Segments are what the writer writes -/

theorem Declares.le {header : List UInt8} {n : Nat} (h : Declares header n) :
    n ≤ maxFieldLength := by
  have hlt := h.spells.lt
  rw [List.length_map, h.width] at hlt
  exact Nat.le_of_lt_succ hlt

theorem ofNat_toNat_inj {b c : UInt8} (h : Char.ofNat b.toNat = Char.ofNat c.toNat) : b = c := by
  have hnat := congrArg Char.toNat h
  rw [toNat_ofNat_byte, toNat_ofNat_byte] at hnat
  exact UInt8.toNat_inj.mp hnat

theorem Declares.eq_lengthChars {header : List UInt8} {n : Nat} (h : Declares header n) :
    header = Text.bytes (String.ofList (lengthChars n)) := by
  have hwritten := declares_lengthChars h.le
  refine List.map_inj_right (fun _ _ => ofNat_toNat_inj) |>.mp (h.spells.unique hwritten.spells ?_)
  rw [List.length_map, List.length_map, h.width, hwritten.width]

theorem segment_iff {text : String} {bs rest : List UInt8} :
    Segment text bs rest ↔
      text.utf8ByteSize ≤ maxFieldLength ∧ bs = Text.bytes (segmentText text) ++ rest := by
  rw [segmentText, Text.bytes_append, List.append_assoc]
  constructor
  · rintro ⟨header, hheader, rfl⟩
    exact ⟨hheader.le, by rw [hheader.eq_lengthChars]⟩
  · rintro ⟨hfits, rfl⟩
    exact ⟨_, declares_lengthChars hfits, rfl⟩

/-- The text of a row of segments. -/
def rowText (texts : List String) : String := String.join (texts.map segmentText)

theorem bytes_rowText_cons (text : String) (texts : List String) :
    Text.bytes (rowText (text :: texts)) =
      Text.bytes (segmentText text) ++ Text.bytes (rowText texts) := by
  rw [rowText, List.map_cons, String.join_cons, Text.bytes_append, rowText]

theorem segments_iff {texts : List String} {bs rest : List UInt8} :
    Segments texts bs rest ↔
      (∀ text ∈ texts, text.utf8ByteSize ≤ maxFieldLength) ∧
        bs = Text.bytes (rowText texts) ++ rest := by
  constructor
  · intro h
    induction h with
    | nil => exact ⟨nofun, rfl⟩
    | cons hsegment _ ih =>
        obtain ⟨hfits, hbs⟩ := segment_iff.mp hsegment
        obtain ⟨hrest, hmiddle⟩ := ih
        refine ⟨List.forall_mem_cons.mpr ⟨hfits, hrest⟩, ?_⟩
        rw [hbs, hmiddle, bytes_rowText_cons, List.append_assoc]
  · rintro ⟨hfits, rfl⟩
    exact segments_join hfits rest

theorem Segments.append {texts : List String} {bs rest : List UInt8} (h : Segments texts bs rest)
    (more : List UInt8) : Segments texts (bs ++ more) (rest ++ more) := by
  obtain ⟨hfits, rfl⟩ := segments_iff.mp h
  exact segments_iff.mpr ⟨hfits, List.append_assoc ..⟩

/-- Bytes begin with one row of segments of each length. -/
theorem Segments.unique {texts others : List String} {bs rest rest' : List UInt8}
    (h : Segments texts bs rest) (h' : Segments others bs rest')
    (hlength : texts.length = others.length) : texts = others := by
  induction h generalizing others with
  | nil => exact (List.eq_nil_of_length_eq_zero hlength.symm).symm
  | cons hsegment _ ih =>
      cases h' with
      | nil => cases hlength
      | cons hsegment' hsegments' =>
          have hread := takeSegment_of_segment .action hsegment
          rw [takeSegment_of_segment .action hsegment'] at hread
          cases hread
          rw [ih hsegments' (Nat.succ.inj hlength)]

/-! ## What the reader forgets -/

theorem wireText_eq (f : Frame) : f.wireText = rowText (f.fieldTexts.map Prod.snd) := by
  rw [rowText, List.map_map]
  rfl

/-- The plain spelling of an ordinal is the one that is written for it. -/
theorem plain_iff_of_spellsInt {s : String} {n : Nat} (h : SpellsInt s n) :
    s = String.ofList (Nat.toDigits 10 n) ↔ Text.IsPlainNumber s := by
  constructor
  · rintro rfl
    exact Text.isPlainNumber_toDigits n
  · intro hs
    obtain ⟨sign, digits, m, hchars, hspells, hsign⟩ := h
    -- A sign is no digit, so there is none.
    have hnone : sign = [] := by
      refine List.eq_nil_iff_forall_not_mem.mpr fun c hc => ?_
      have hdigit := hs.digits c (hchars ▸ List.mem_append_left _ hc)
      rcases hsign with ⟨rfl | rfl, -⟩ | ⟨rfl, -⟩
      · cases hc
      · rw [List.mem_singleton.mp hc] at hdigit
        cases hdigit
      · rw [List.mem_singleton.mp hc] at hdigit
        cases hdigit
    subst hnone
    obtain rfl : n = m := by
      rcases hsign with ⟨-, hv⟩ | ⟨h, -⟩
      · exact Int.ofNat.inj hv
      · cases h
    rw [← List.nil_append digits, ← hchars] at hspells
    exact hspells.eq_toDigits hs

theorem flagText_eq_iff_of_iff {b : Bool} {text : String} (h : b = true ↔ text = "t") :
    text = flagText b ↔ text = "t" ∨ text = "f" := by
  cases b with
  | true =>
      obtain rfl := h.mp rfl
      decide
  | false =>
      have hnot : text ≠ "t" := fun ht => Bool.false_ne_true (h.mpr ht)
      rw [or_iff_right hnot]
      rfl

/-- What is written for a frame is the row of its texts. -/
theorem bytes_wireText_eq_iff {f : Frame}
    (hopen : ∀ p ∈ f.openTexts, p.2.utf8ByteSize ≤ maxFieldLength)
    {action store historical : String} {read : List UInt8} (hread : Segments
      [action, store, historical, f.timestamp, f.topic, f.sender, f.payload] read []) :
    Text.bytes f.wireText = read ↔
      action = String.ofList (Nat.toDigits 10 f.action.ordinal) ∧ store = flagText f.store ∧
        historical = flagText f.historical := by
  have hwritten : Segments (f.fieldTexts.map Prod.snd) (Text.bytes f.wireText) [] :=
    segments_iff.mpr ⟨fits_fieldTexts hopen, by rw [wireText_eq, List.append_nil]⟩
  constructor
  · rintro rfl
    have htexts := hread.unique hwritten rfl
    simp only [fieldTexts, List.map_cons, List.cons.injEq] at htexts
    exact ⟨htexts.1, htexts.2.1, htexts.2.2.1⟩
  · rintro ⟨rfl, rfl, rfl⟩
    rw [(segments_iff.mp hread).2, List.append_nil, wireText_eq]
    rfl

/-- The bytes `read` are the seven segments that stand first: these texts for the action and the
flags, and those of the frame. -/
def ReadFrom (bs : List UInt8) (f : Frame) (action store historical : String)
    (read : List UInt8) : Prop :=
  Segments [action, store, historical, f.timestamp, f.topic, f.sender, f.payload] read [] ∧
    read <+: bs

/-- The texts of a frame that was read fit, for each of them was declared. -/
theorem openTexts_fit {bs : List UInt8} {f : Frame} (h : decode bs = .ok f) :
    ∀ p ∈ f.openTexts, p.2.utf8ByteSize ≤ maxFieldLength := by
  obtain ⟨action, store, historical, rest, hsegments, -⟩ := decode_eq_ok_iff.mp h
  obtain ⟨hfits, -⟩ := segments_iff.mp hsegments
  intro p hp
  refine hfits p.2 ?_
  simp only [openTexts, List.mem_cons, List.not_mem_nil, or_false] at hp
  rcases hp with rfl | rfl | rfl | rfl <;> simp

/-- Whatever bytes were read as a frame, the frame can be written. What is written is read as the
same frame, and reading and writing it once more changes nothing. It is the seven segments that
were read exactly if the first is a number without a sign and without zeros in front, and each of
the next two is `t` or `f`. -/
theorem encode_of_decode {bs : List UInt8} {f : Frame} (h : decode bs = .ok f) :
    (∃ wire, encode f = .ok wire ∧ decodeText wire = .ok f ∧
      (decodeText wire >>= encode) = .ok wire ∧
      ∀ action store historical read, ReadFrom bs f action store historical read →
        (Text.bytes wire = read ↔ Text.IsPlainNumber action ∧ (store = "t" ∨ store = "f") ∧
          (historical = "t" ∨ historical = "f"))) ∧
    ∃ action store historical read, ReadFrom bs f action store historical read := by
  obtain ⟨action, store, historical, rest, hsegments, haction, hstore, hhistorical⟩ :=
    decode_eq_ok_iff.mp h
  obtain ⟨hfits, hbs⟩ := segments_iff.mp hsegments
  have hopen := openTexts_fit h
  have hwire : encode f = .ok f.wireText := encode_eq_ok_iff.mpr ⟨hopen, rfl⟩
  have hagain : decodeText f.wireText = .ok f := by
    have hagain := decode_encode hwire []
    rwa [List.append_nil] at hagain
  refine ⟨⟨_, hwire, hagain, by rw [hagain]; exact hwire, ?_⟩, action, store, historical, _,
    segments_iff.mpr ⟨hfits, (List.append_nil _).symm⟩, rest, hbs.symm⟩
  rintro action' store' historical' read ⟨hread, rest', rfl⟩
  -- No other segments stand there than those that made the frame.
  have hsame := hsegments.unique (hread.append rest') rfl
  cases hsame
  rw [bytes_wireText_eq_iff hopen hread, plain_iff_of_spellsInt haction,
    flagText_eq_iff_of_iff hstore, flagText_eq_iff_of_iff hhistorical]

/-- An action with a sign and a flag in capitals, with bytes after the frame: what is written for
the frame is not what was read. -/
theorem encode_of_decode_signed :
    let f : Frame := ⟨.text, false, true, "", "room", "", "hi"⟩
    let read := Text.bytes "00003+1200001T00001t0000000004room0000000002hi"
    decode (read ++ [0xC3]) = .ok f ∧ ReadFrom (read ++ [0xC3]) f "+12" "T" "t" read ∧
    ∃ wire, encode f = .ok wire ∧ decodeText wire = .ok f ∧ Text.bytes wire ≠ read := by
  intro f read
  have hsegments : Segments ["+12", "T", "t", "", "room", "", "hi"] read [] :=
    segments_iff.mpr ⟨by decide, by decide⟩
  have hnumber : SpellsInt "+12" 12 :=
    ⟨['+'], ['1', '2'], 12, by decide, ⟨by decide, by simp, by decide⟩, .inl ⟨.inr rfl, rfl⟩⟩
  have hdecode : decode (read ++ [0xC3]) = .ok f :=
    decode_eq_ok_iff.mpr ⟨_, _, _, _, hsegments.append [0xC3], hnumber, by decide, by decide⟩
  have hread : ReadFrom (read ++ [0xC3]) f "+12" "T" "t" read :=
    ⟨hsegments, List.prefix_append _ _⟩
  obtain ⟨⟨wire, hwire, hagain, -, hsame⟩, -⟩ := encode_of_decode hdecode
  refine ⟨hdecode, hread, wire, hwire, hagain, fun heq => ?_⟩
  obtain ⟨hplain, -⟩ := (hsame _ _ _ _ hread).mp heq
  exact absurd (hplain.digits '+' (by decide)) (by decide)

end Parley.Frame
