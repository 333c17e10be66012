import Parley.Proofs.Frame.Segments

/-!
# The bytes of a frame

Bytes are a frame if they begin with seven segments, of which the first names an action and the
second and third are flags; whatever follows is of no account. Bytes that are no frame have a first
fault, and that is the one that is told. As with segments, every bytes are one or the other
(`represents_or_firstFault`), so it is enough to know the reader on both.
-/

namespace Parley.Frame

/-! ## Segments in a row -/

/-- `bs` begins with the segments of `texts`, one after the other, and `rest` follows them. -/
inductive Segments : List String → List UInt8 → List UInt8 → Prop
  | nil {bs : List UInt8} : Segments [] bs bs
  | cons {text : String} {texts : List String} {bs middle rest : List UInt8} :
      Segment text bs middle → Segments texts middle rest → Segments (text :: texts) bs rest

/-- The texts of one segment for each field, and the bytes after them. -/
def takeSegments : List FrameField → List UInt8 → Except FrameError (List String × List UInt8)
  | [], bs => return ([], bs)
  | field :: fields, bs => do
    let p ← takeSegment field bs
    let q ← takeSegments fields p.2
    return (p.1 :: q.1, q.2)

theorem takeSegments_cons_of_segment (field : FrameField) (fields : List FrameField)
    {text : String} {bs rest : List UInt8} (h : Segment text bs rest) :
    takeSegments (field :: fields) bs =
      takeSegments fields rest >>= fun q => pure (text :: q.1, q.2) := by
  rw [takeSegments, takeSegment_of_segment field h]
  rfl

theorem takeSegments_of_segments {texts : List String} {bs rest : List UInt8}
    (h : Segments texts bs rest) {fields : List FrameField} (hl : texts.length = fields.length) :
    takeSegments fields bs = .ok (texts, rest) := by
  induction h generalizing fields with
  | nil =>
      rw [List.eq_nil_of_length_eq_zero hl.symm]
      rfl
  | cons htext _ ih =>
      cases fields with
      | nil => cases hl
      | cons field fields =>
          rw [takeSegments_cons_of_segment field fields htext, ih (Nat.succ.inj hl)]
          rfl

theorem takeSegments_of_fault {texts : List String} {bs rest : List UInt8} {field : FrameField}
    {e : FrameError} (h : Segments texts bs rest) {fields : List FrameField}
    (hfield : fields[texts.length]? = some field) (hfault : Fault field rest e) :
    takeSegments fields bs = .error e := by
  induction h generalizing fields with
  | nil =>
      cases fields with
      | nil => cases hfield
      | cons first fields =>
          cases hfield
          rw [takeSegments, takeSegment_of_fault hfault]
          rfl
  | cons htext _ ih =>
      cases fields with
      | nil => cases hfield
      | cons first fields =>
          rw [takeSegments_cons_of_segment first fields htext, ih hfield hfault]
          rfl

theorem segments_or_fault (fields : List FrameField) (bs : List UInt8) :
    (∃ texts rest, texts.length = fields.length ∧ Segments texts bs rest) ∨
      ∃ texts rest field e, Segments texts bs rest ∧ fields[texts.length]? = some field ∧
        Fault field rest e := by
  induction fields generalizing bs with
  | nil => exact .inl ⟨[], bs, rfl, .nil⟩
  | cons field fields ih =>
      rcases segment_or_fault field bs with ⟨text, middle, htext⟩ | ⟨e, hfault⟩
      · rcases ih middle with ⟨texts, rest, hl, htexts⟩ | ⟨texts, rest, field', e, htexts, hrest⟩
        · exact .inl ⟨text :: texts, rest, congrArg (· + 1) hl, .cons htext htexts⟩
        · exact .inr ⟨text :: texts, rest, field', e, .cons htext htexts, hrest⟩
      · exact .inr ⟨[], bs, field, e, .nil, rfl, hfault⟩

/-! ## The reader of frames -/

/-- The fields after the action, in wire order. -/
def contentFields : List FrameField :=
  [.store, .historical, .timestamp, .topic, .sender, .payload]

/-- The frame with these texts in its fields after the action. -/
def ofTexts (a : Action) : List String → Frame
  | [store, historical, timestamp, topic, sender, payload] =>
    ⟨a, store == "t", historical == "t", timestamp, topic, sender, payload⟩
  | _ => { action := a }

theorem ok_bind {ε α β : Type} (x : α) (f : α → Except ε β) : (Except.ok x >>= f) = f x := rfl

theorem decode_of_fault {bs : List UInt8} {e : FrameError} (h : Fault .action bs e) :
    decode bs = .error e := by
  rw [decode, takeSegment_of_fault h]
  rfl

theorem decode_of_unknown {text : String} {bs rest : List UInt8} (h : Segment text bs rest)
    (ha : actionOfText? text = none) : decode bs = .error (.unknownAction text) := by
  simp only [decode, takeSegment_of_segment .action h, ok_bind, ha]
  rfl

theorem decode_of_action {text : String} {bs rest : List UInt8} {a : Action}
    (h : Segment text bs rest) (ha : actionOfText? text = some a) :
    decode bs = takeSegments contentFields rest >>= fun q => pure (ofTexts a q.1) := by
  simp only [decode, takeSegment_of_segment .action h, ok_bind, ha, contentFields, takeSegments,
    bind_assoc, pure_bind]
  rfl

/-! ## Frames and faults -/

/-- The fields in wire order. -/
def wireOrder : List FrameField := .action :: contentFields

/-- `bs` begins with the segments of the frame `f`. A flag is set if it is the text `t`, whatever it
is otherwise. -/
def Represents (bs : List UInt8) (f : Frame) : Prop :=
  ∃ action store historical rest,
    Segments [action, store, historical, f.timestamp, f.topic, f.sender, f.payload] bs rest ∧
      SpellsInt action f.action.ordinal ∧ (f.store = true ↔ store = "t") ∧
      (f.historical = true ↔ historical = "t")

/-- The first reason, in the order of the segments, why bytes are no frame. A first segment that
names no action comes before anything about the second one. -/
inductive FirstFault : List UInt8 → FrameError → Prop
  /-- As many segments as `texts` are there, and the next one is not. -/
  | field {texts : List String} {bs rest : List UInt8} {field : FrameField} {e : FrameError} :
      Segments texts bs rest → (∀ action ∈ texts.head?, NamesAction action) →
      wireOrder[texts.length]? = some field → Fault field rest e → FirstFault bs e
  | action {action : String} {bs rest : List UInt8} :
      Segment action bs rest → ¬ NamesAction action → FirstFault bs (.unknownAction action)

theorem decode_of_represents {bs : List UInt8} {f : Frame} (h : Represents bs f) :
    decode bs = .ok f := by
  obtain ⟨action, store, historical, rest, hsegments, haction, hstore, hhistorical⟩ := h
  cases hsegments with
  | cons hsegment hcontent =>
      have hlength : [store, historical, f.timestamp, f.topic, f.sender, f.payload].length =
          contentFields.length := rfl
      rw [decode_of_action hsegment (actionOfText?_eq_some_iff.mpr haction),
        takeSegments_of_segments hcontent hlength]
      have hs : (store == "t") = f.store := by rw [Bool.eq_iff_iff, beq_iff_eq, hstore]
      have hh : (historical == "t") = f.historical := by
        rw [Bool.eq_iff_iff, beq_iff_eq, hhistorical]
      simp only [ok_bind, ofTexts, hs, hh]
      rfl

theorem decode_of_firstFault {bs : List UInt8} {e : FrameError} (h : FirstFault bs e) :
    decode bs = .error e := by
  cases h with
  | action hsegment hnone => exact decode_of_unknown hsegment (actionOfText?_eq_none_iff.mpr hnone)
  | field hsegments hnames hfield hfault =>
      cases hsegments with
      | nil =>
          cases hfield
          exact decode_of_fault hfault
      | cons hsegment hcontent =>
          obtain ⟨a, ha⟩ := namesAction_iff.mp (hnames _ rfl)
          rw [decode_of_action hsegment (actionOfText?_eq_some_iff.mpr ha),
            takeSegments_of_fault hcontent hfield hfault]
          rfl

/-- Seven segments of which the first names an action are a frame, whatever the others hold. -/
theorem exists_represents_iff {bs : List UInt8} :
    (∃ f, Represents bs f) ↔ ∃ action texts rest, texts.length = contentFields.length ∧
      Segments (action :: texts) bs rest ∧ NamesAction action := by
  constructor
  · rintro ⟨f, action, store, historical, rest, hsegments, haction, -, -⟩
    exact ⟨action, _, rest, rfl, hsegments, namesAction_iff.mpr ⟨_, haction⟩⟩
  · rintro ⟨action, texts, rest, hl, hsegments, hnames⟩
    obtain ⟨a, ha⟩ := namesAction_iff.mp hnames
    obtain ⟨store, historical, timestamp, topic, sender, payload, rfl⟩ :
        ∃ store historical timestamp topic sender payload,
          texts = [store, historical, timestamp, topic, sender, payload] := by
      match texts, hl with
      | [_, _, _, _, _, _], _ => exact ⟨_, _, _, _, _, _, rfl⟩
    exact ⟨⟨a, store == "t", historical == "t", timestamp, topic, sender, payload⟩,
      action, store, historical, rest, hsegments, ha, beq_iff_eq, beq_iff_eq⟩

/-- Any bytes are a frame, or there is a first reason why they are not. -/
theorem represents_or_firstFault (bs : List UInt8) :
    (∃ f, Represents bs f) ∨ ∃ e, FirstFault bs e := by
  rcases segment_or_fault .action bs with ⟨action, middle, hsegment⟩ | ⟨e, hfault⟩
  · by_cases hnames : NamesAction action
    · rcases segments_or_fault contentFields middle with
        ⟨texts, rest, hl, hcontent⟩ | ⟨texts, rest, field, e, hcontent, hfield, hfault⟩
      · exact .inl (exists_represents_iff.mpr
          ⟨action, texts, rest, hl, .cons hsegment hcontent, hnames⟩)
      · refine .inr ⟨e, .field (.cons hsegment hcontent) ?_ hfield hfault⟩
        rintro _ ⟨⟩
        exact hnames
    · exact .inr ⟨_, .action hsegment hnames⟩
  · exact .inr ⟨e, .field .nil nofun rfl hfault⟩

theorem decode_eq_ok_iff {bs : List UInt8} {f : Frame} : decode bs = .ok f ↔ Represents bs f := by
  constructor
  · intro h
    rcases represents_or_firstFault bs with ⟨f', hf⟩ | ⟨e, he⟩
    · rw [decode_of_represents hf] at h
      cases h
      exact hf
    · rw [decode_of_firstFault he] at h
      cases h
  · exact decode_of_represents

theorem decode_eq_error_iff {bs : List UInt8} {e : FrameError} :
    decode bs = .error e ↔ FirstFault bs e := by
  constructor
  · intro h
    rcases represents_or_firstFault bs with ⟨f, hf⟩ | ⟨e', he⟩
    · rw [decode_of_represents hf] at h
      cases h
    · rw [decode_of_firstFault he] at h
      cases h
      exact he
  · exact decode_of_firstFault

end Parley.Frame
