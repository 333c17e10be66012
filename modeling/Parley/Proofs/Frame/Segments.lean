import Parley.Frame.Codec
import Parley.Proofs.Text.Digits

/-!
# Segments

What the bytes of a segment are, said without a reader: five digits spell the length of a text, and
its bytes follow. Bytes that do not begin so have exactly one of four faults. Since any bytes begin
with a segment or have a fault (`segment_or_fault`), a reader is known as soon as it is known on
both.
-/

namespace Parley.Frame

/-! ## Numbers in digits -/

theorem natOfDigits?_eq_some_iff {cs : List Char} {n : Nat} :
    natOfDigits? cs = some n ↔ Text.Spells cs n := by
  unfold natOfDigits?
  constructor
  · intro h
    split at h
    · cases h
    · rename_i hne
      split at h
      · rename_i hall
        refine ⟨by simpa using hne, List.all_eq_true.mp hall, ?_⟩
        rw [← Text.foldl_digits]
        exact Option.some.inj h
      · cases h
  · rintro ⟨hne, hdigits, rfl⟩
    have hall : (cs.all fun c => '0' ≤ c && c ≤ '9') = true := List.all_eq_true.mpr hdigits
    rw [if_neg (by simpa using hne), if_pos hall, Text.foldl_digits]

/-- A sign or none, then digits, and the number that they spell. -/
def SpellsInt (s : String) (v : Int) : Prop :=
  ∃ sign digits n, s.toList = sign ++ digits ∧ Text.Spells digits n ∧
    ((sign = [] ∨ sign = ['+']) ∧ v = n ∨ sign = ['-'] ∧ v = -n)

theorem intOfText?_eq_some_iff {s : String} {v : Int} :
    intOfText? s = some v ↔ SpellsInt s v := by
  unfold intOfText? SpellsInt
  constructor
  · intro h
    split at h
    · rename_i ds hs
      obtain ⟨n, hn, rfl⟩ := Option.map_eq_some_iff.mp h
      exact ⟨['+'], ds, n, hs, natOfDigits?_eq_some_iff.mp hn, .inl ⟨.inr rfl, rfl⟩⟩
    · rename_i ds hs
      obtain ⟨n, hn, rfl⟩ : ∃ n, natOfDigits? ds = some n ∧ -(n : Int) = v := by
        simpa [Option.bind_eq_some_iff] using h
      exact ⟨['-'], ds, n, hs, natOfDigits?_eq_some_iff.mp hn, .inr ⟨rfl, rfl⟩⟩
    · rename_i ds _ _
      obtain ⟨n, hn, rfl⟩ := Option.map_eq_some_iff.mp h
      exact ⟨[], s.toList, n, rfl, natOfDigits?_eq_some_iff.mp hn, .inl ⟨.inl rfl, rfl⟩⟩
  · rintro ⟨sign, digits, n, hs, hspells, hv⟩
    have hn := natOfDigits?_eq_some_iff.mpr hspells
    rw [hs]
    rcases hv with ⟨rfl | rfl, rfl⟩ | ⟨rfl, rfl⟩
    · -- A digit is no sign, so the text is taken as digits alone.
      cases digits with
      | nil => exact absurd rfl hspells.nonempty
      | cons c cs =>
          have hc := hspells.digits c List.mem_cons_self
          dsimp only [List.nil_append]
          split
          · rename_i heq
            cases heq
            cases hc
          · rename_i heq
            cases heq
            cases hc
          · rw [hn]
            rfl
    · simp [hn]
    · simp [hn]

/-! ## Actions -/

theorem ordinal_getElem?_all : ∀ n < 24, Action.all[n]?.map Action.ordinal = some n := by decide

theorem ofOrdinal?_eq_some_iff {v : Int} {a : Action} :
    Action.ofOrdinal? v = some a ↔ v = a.ordinal := by
  constructor
  · intro h
    cases v with
    | negSucc n => cases h
    | ofNat n =>
        have ha : Action.all[n]? = some a := h
        have hn := ordinal_getElem?_all n (List.getElem?_eq_some_iff.mp ha).1
        rw [ha] at hn
        exact congrArg Int.ofNat (Option.some.inj hn).symm
  · rintro rfl
    exact Action.ofOrdinal?_ordinal a

theorem actionOfText?_eq_some_iff {s : String} {a : Action} :
    actionOfText? s = some a ↔ SpellsInt s a.ordinal := by
  rw [actionOfText?, Option.bind_eq_bind, Option.bind_eq_some_iff]
  constructor
  · rintro ⟨v, hv, ha⟩
    rw [ofOrdinal?_eq_some_iff] at ha
    exact ha ▸ intOfText?_eq_some_iff.mp hv
  · intro h
    exact ⟨_, intOfText?_eq_some_iff.mpr h, Action.ofOrdinal?_ordinal a⟩

example : ["+5", "-0", "0012", "24", "+", "--1"].map actionOfText? =
    [some .subscribeTopic, some .pingChannel, some .text, none, none, none] := by
  decide

/-- The ordinals are the numbers from 0 to 23. -/
theorem exists_ordinal_iff {v : Int} : (∃ a : Action, v = a.ordinal) ↔ 0 ≤ v ∧ v ≤ 23 := by
  constructor
  · rintro ⟨a, rfl⟩
    cases a <;> decide
  · rintro ⟨hlow, hhigh⟩
    obtain ⟨n, rfl⟩ := Int.eq_ofNat_of_zero_le hlow
    have hn : n < Action.all.length := by
      change n < 24
      omega
    exact ⟨Action.all[n], ofOrdinal?_eq_some_iff.mp (List.getElem?_eq_getElem hn)⟩

/-- A text names an action: it spells a number from 0 to 23. -/
def NamesAction (s : String) : Prop := ∃ v, SpellsInt s v ∧ 0 ≤ v ∧ v ≤ 23

theorem namesAction_iff {s : String} : NamesAction s ↔ ∃ a : Action, SpellsInt s a.ordinal := by
  constructor
  · rintro ⟨v, hv, hbounds⟩
    obtain ⟨a, rfl⟩ := exists_ordinal_iff.mpr hbounds
    exact ⟨a, hv⟩
  · rintro ⟨a, ha⟩
    exact ⟨_, ha, exists_ordinal_iff.mp ⟨a, rfl⟩⟩

theorem actionOfText?_eq_none_iff {s : String} : actionOfText? s = none ↔ ¬ NamesAction s := by
  rw [namesAction_iff, Option.eq_none_iff_forall_ne_some]
  simp only [ne_eq, actionOfText?_eq_some_iff, not_exists]

/-! ## Segments and faults -/

/-- Five bytes that are the digits of a number. -/
structure Declares (header : List UInt8) (n : Nat) : Prop where
  width : header.length = 5
  spells : Text.Spells (header.map fun b => Char.ofNat b.toNat) n

/-- `bs` begins with a segment that holds `text`, and `rest` follows it. -/
def Segment (text : String) (bs rest : List UInt8) : Prop :=
  ∃ header, Declares header text.utf8ByteSize ∧ bs = header ++ (Text.bytes text ++ rest)

/-- Why bytes do not begin with a segment, as it is told of the field that should be there. -/
inductive Fault (field : FrameField) : List UInt8 → FrameError → Prop
  /-- There are not five bytes. -/
  | short {bs : List UInt8} : bs.length < 5 → Fault field bs (.truncated field 5 bs.length)
  /-- The first five bytes are not all digits. -/
  | malformed {header rest : List UInt8} : header.length = 5 →
      (∃ b ∈ header, (Char.ofNat b.toNat).isDigit = false) →
      Fault field (header ++ rest) (.badLength field)
  /-- Fewer bytes follow than the digits say. -/
  | overrun {header rest : List UInt8} {n : Nat} : Declares header n → rest.length < n →
      Fault field (header ++ rest) (.truncated field n rest.length)
  /-- As many bytes follow as the digits say, but they are the bytes of no text. -/
  | garbled {header body rest : List UInt8} : Declares header body.length →
      (∀ text, Text.bytes text ≠ body) → Fault field (header ++ (body ++ rest)) (.badUtf8 field)

theorem toNat_ofNat_byte (b : UInt8) : (Char.ofNat b.toNat).toNat = b.toNat := by
  have hb := b.toNat_lt
  rw [Char.ofNat, dif_pos (.inl (by omega))]
  rfl

theorem isDigitByte_eq (b : UInt8) : isDigitByte b = (Char.ofNat b.toNat).isDigit := by
  rw [Bool.eq_iff_iff, Char.isDigit_iff_toNat, toNat_ofNat_byte]
  simp only [isDigitByte, Bool.and_eq_true, decide_eq_true_eq, UInt8.le_iff_toNat_le]
  rfl

theorem natOfBytes_eq (bs : List UInt8) :
    natOfBytes bs = Nat.ofDigitChars 10 (bs.map fun b => Char.ofNat b.toNat) 0 := by
  rw [← Text.foldl_digits, List.foldl_map, natOfBytes]
  simp only [toNat_ofNat_byte]

theorem declares_or_malformed {header : List UInt8} (h : header.length = 5) :
    Declares header (natOfBytes header) ∧ header.all isDigitByte = true ∨
      (∃ b ∈ header, (Char.ofNat b.toNat).isDigit = false) ∧ header.all isDigitByte = false := by
  cases hall : header.all isDigitByte with
  | true =>
      refine .inl ⟨⟨h, ?_, ?_, (natOfBytes_eq header).symm⟩, rfl⟩
      · rintro hnil
        rw [List.map_eq_nil_iff.mp hnil] at h
        cases h
      · simp only [List.forall_mem_map, ← isDigitByte_eq]
        exact List.all_eq_true.mp hall
  | false =>
      obtain ⟨b, hb, hdigit⟩ := List.all_eq_false.mp hall
      exact .inr ⟨⟨b, hb, by simpa [isDigitByte_eq] using hdigit⟩, rfl⟩

theorem Declares.unique {header : List UInt8} {n : Nat} (h : Declares header n) :
    natOfBytes header = n := by
  rw [natOfBytes_eq, h.spells.value]

theorem Declares.all {header : List UInt8} {n : Nat} (h : Declares header n) :
    header.all isDigitByte = true := by
  rcases declares_or_malformed h.width with ⟨-, hall⟩ | ⟨⟨b, hb, hdigit⟩, -⟩
  · exact hall
  · rw [h.spells.digits _ (List.mem_map_of_mem hb)] at hdigit
    cases hdigit

theorem exists_header {bs : List UInt8} (h : ¬ bs.length < 5) :
    ∃ header rest, bs = header ++ rest ∧ header.length = 5 :=
  ⟨bs.take 5, bs.drop 5, (List.take_append_drop 5 bs).symm, by rw [List.length_take]; omega⟩

/-- Any bytes begin with a segment, or there is a reason why they do not. -/
theorem segment_or_fault (field : FrameField) (bs : List UInt8) :
    (∃ text rest, Segment text bs rest) ∨ ∃ e, Fault field bs e := by
  by_cases hshort : bs.length < 5
  · exact .inr ⟨_, .short hshort⟩
  obtain ⟨header, rest, rfl, hwidth⟩ := exists_header hshort
  rcases declares_or_malformed hwidth with ⟨hn, -⟩ | ⟨hdigit, -⟩
  · by_cases hover : rest.length < natOfBytes header
    · exact .inr ⟨_, .overrun hn hover⟩
    have hlength : (rest.take (natOfBytes header)).length = natOfBytes header := by
      rw [List.length_take]
      omega
    have hrest := List.take_append_drop (natOfBytes header) rest
    rw [← hlength] at hn
    cases htext : Text.ofBytes? (rest.take (natOfBytes header)) with
    | some text =>
        have hbytes := Text.bytes_of_ofBytes? htext
        rw [← hbytes, Text.bytes_length] at hn
        exact .inl ⟨text, _, header, hn, by rw [hbytes, hrest]⟩
    | none =>
        rw [← hrest]
        refine .inr ⟨_, .garbled hn fun text hbytes => ?_⟩
        rw [← hbytes, Text.ofBytes?_bytes] at htext
        cases htext
  · exact .inr ⟨_, .malformed hwidth hdigit⟩

/-! ## The reader of segments -/

theorem takeSegment_header (field : FrameField) {header : List UInt8} (rest : List UInt8)
    (h : header.length = 5) :
    takeSegment field (header ++ rest) =
      if header.all isDigitByte then
        if rest.length < natOfBytes header then
          .error (.truncated field (natOfBytes header) rest.length)
        else
          match Text.ofBytes? (rest.take (natOfBytes header)) with
          | none => .error (.badUtf8 field)
          | some text => .ok (text, rest.drop (natOfBytes header))
      else .error (.badLength field) := by
  have hlong : ¬ (header ++ rest).length < lengthWidth := by
    simp only [List.length_append, lengthWidth]
    omega
  have htake : (header ++ rest).take lengthWidth = header := List.take_left' h
  have hdrop : (header ++ rest).drop lengthWidth = rest := List.drop_left' h
  have hstep : takeSegment field (header ++ rest) = _ := if_neg hlong
  simp only [htake, hdrop] at hstep
  exact hstep

theorem takeSegment_of_segment (field : FrameField) {text : String} {bs rest : List UInt8}
    (h : Segment text bs rest) : takeSegment field bs = .ok (text, rest) := by
  obtain ⟨header, hn, rfl⟩ := h
  have hfits : ¬ (Text.bytes text ++ rest).length < text.utf8ByteSize := by
    rw [List.length_append, Text.bytes_length]
    omega
  rw [takeSegment_header field _ hn.width, if_pos hn.all, hn.unique, if_neg hfits,
    List.take_left' (Text.bytes_length text), List.drop_left' (Text.bytes_length text),
    Text.ofBytes?_bytes]

theorem takeSegment_of_fault {field : FrameField} {bs : List UInt8} {e : FrameError}
    (h : Fault field bs e) : takeSegment field bs = .error e := by
  cases h with
  | short h => exact if_pos h
  | malformed hwidth hdigit =>
      rename_i header rest
      rcases declares_or_malformed hwidth with ⟨hn, -⟩ | ⟨-, hall⟩
      · obtain ⟨b, hb, hdigit⟩ := hdigit
        rw [hn.spells.digits _ (List.mem_map_of_mem hb)] at hdigit
        cases hdigit
      · rw [takeSegment_header field rest hwidth, hall]
        rfl
  | overrun hn hover =>
      rename_i header rest n
      rw [takeSegment_header field rest hn.width, if_pos hn.all, hn.unique, if_pos hover]
  | garbled hn hbody =>
      rename_i header body rest
      have hfits : ¬ (body ++ rest).length < body.length := by
        rw [List.length_append]
        omega
      have hnone : Text.ofBytes? body = none := by
        cases htext : Text.ofBytes? body with
        | none => rfl
        | some text => exact absurd (Text.bytes_of_ofBytes? htext) (hbody text)
      rw [takeSegment_header field _ hn.width, if_pos hn.all, hn.unique, if_neg hfits,
        List.take_left, hnone]

theorem takeSegment_eq_ok_iff {field : FrameField} {text : String} {bs rest : List UInt8} :
    takeSegment field bs = .ok (text, rest) ↔ Segment text bs rest := by
  constructor
  · intro h
    rcases segment_or_fault field bs with ⟨text', rest', hsegment⟩ | ⟨e, hfault⟩
    · rw [takeSegment_of_segment field hsegment] at h
      cases h
      exact hsegment
    · rw [takeSegment_of_fault hfault] at h
      cases h
  · exact takeSegment_of_segment field

theorem takeSegment_eq_error_iff {field : FrameField} {bs : List UInt8} {e : FrameError} :
    takeSegment field bs = .error e ↔ Fault field bs e := by
  constructor
  · intro h
    rcases segment_or_fault field bs with ⟨text, rest, hsegment⟩ | ⟨e', hfault⟩
    · rw [takeSegment_of_segment field hsegment] at h
      cases h
    · rw [takeSegment_of_fault hfault] at h
      cases h
      exact hfault
  · exact takeSegment_of_fault

end Parley.Frame
