import Parley.Proofs.Frame.Grammar

/-!
# Reading in place

A socket message is read where it lies: the reader keeps a place in the buffer, and every look at
the buffer is a subtraction from its length or a slice between two places, either of which goes
wrong if the places do. Here is that reader with every look checked. `decode`, which passes on the
bytes that are left instead of a place among them, is what it computes, whatever the bytes are: so
no check ever fails.
-/

namespace Parley.Frame

/-- A reading in a buffer. There is no result at all if it looks outside of the buffer. -/
abbrev Reading := ExceptT FrameError Option

namespace Reading

/-- How many bytes there are from a place on. -/
def left (buffer : List UInt8) (place : Nat) : Reading Nat :=
  ExceptT.lift (if place ≤ buffer.length then some (buffer.length - place) else none)

/-- The bytes from one place up to another. -/
def slice (buffer : List UInt8) (start stop : Nat) : Reading (List UInt8) :=
  ExceptT.lift (if start ≤ stop ∧ stop ≤ buffer.length then
    some ((buffer.take stop).drop start) else none)

/-- The text of the segment at a place and the place after it. -/
def segment (buffer : List UInt8) (field : FrameField) (place : Nat) : Reading (String × Nat) := do
  let remaining ← left buffer place
  if remaining < lengthWidth then throw (.truncated field lengthWidth remaining)
  else
    let header ← slice buffer place (place + lengthWidth)
    if header.all isDigitByte then
      let declared := natOfBytes header
      let start := place + lengthWidth
      let remaining ← left buffer start
      if remaining < declared then throw (.truncated field declared remaining)
      else
        let stop := start + declared
        let body ← slice buffer start stop
        match Text.ofBytes? body with
        | none => throw (.badUtf8 field)
        | some text => return (text, stop)
    else throw (.badLength field)

def frame (buffer : List UInt8) : Reading Frame := do
  let (action, place) ← segment buffer .action 0
  let action ← match actionOfText? action with
    | some a => pure a
    | none => throw (.unknownAction action)
  let (store, place) ← segment buffer .store place
  let (historical, place) ← segment buffer .historical place
  let (timestamp, place) ← segment buffer .timestamp place
  let (topic, place) ← segment buffer .topic place
  let (sender, place) ← segment buffer .sender place
  let (payload, _) ← segment buffer .payload place
  return ⟨action, store == "t", historical == "t", timestamp, topic, sender, payload⟩

/-! ## Looks inside the buffer -/

variable {buffer : List UInt8} {place start stop : Nat}

theorem left_bind {α : Type} (h : place ≤ buffer.length) (k : Nat → Reading α) :
    left buffer place >>= k = k (buffer.drop place).length := by
  rw [left, if_pos h, List.length_drop]
  rfl

theorem slice_bind {α : Type} (hstart : start ≤ stop) (hstop : stop ≤ buffer.length)
    (k : List UInt8 → Reading α) :
    slice buffer start stop >>= k = k ((buffer.drop start).take (stop - start)) := by
  rw [slice, if_pos ⟨hstart, hstop⟩, List.drop_take]
  rfl

/-- A segment is read alike in place and from the bytes that are left, and so is everything if what
comes after it is. -/
theorem segment_bind {α : Type} (field : FrameField) (h : place ≤ buffer.length)
    (k : String × Nat → Reading α) (k' : String × List UInt8 → Except FrameError α)
    (hk : ∀ text next, next ≤ buffer.length →
      (k (text, next)).run = some (k' (text, buffer.drop next))) :
    (segment buffer field place >>= k).run =
      some (takeSegment field (buffer.drop place) >>= k') := by
  rw [segment, takeSegment, bind_assoc, left_bind h]
  by_cases hshort : (buffer.drop place).length < lengthWidth
  · rw [if_pos hshort, if_pos hshort]
    rfl
  have hstart : place + lengthWidth ≤ buffer.length := by
    rw [List.length_drop] at hshort
    omega
  rw [if_neg hshort, if_neg hshort, bind_assoc, slice_bind (Nat.le_add_right ..) hstart,
    Nat.add_sub_cancel_left]
  dsimp only
  by_cases hdigits : (((buffer.drop place).take lengthWidth).all isDigitByte) = true
  · rw [if_pos hdigits, if_pos hdigits, bind_assoc, left_bind hstart, List.drop_drop]
    by_cases hover : (buffer.drop (place + lengthWidth)).length <
        natOfBytes ((buffer.drop place).take lengthWidth)
    · rw [if_pos hover, if_pos hover]
      rfl
    have hstop : place + lengthWidth + natOfBytes ((buffer.drop place).take lengthWidth) ≤
        buffer.length := by
      rw [List.length_drop] at hover
      omega
    rw [if_neg hover, if_neg hover, bind_assoc, slice_bind (Nat.le_add_right ..) hstop,
      Nat.add_sub_cancel_left, List.drop_drop]
    cases Text.ofBytes? ((buffer.drop (place + lengthWidth)).take
      (natOfBytes ((buffer.drop place).take lengthWidth))) with
    | none => rfl
    | some text => exact hk text _ hstop
  · rw [if_neg hdigits, if_neg hdigits]
    rfl

/-- No look goes outside of the buffer, and what is read in place is what `decode` reads. -/
theorem frame_run (buffer : List UInt8) : (frame buffer).run = some (decode buffer) := by
  refine segment_bind .action (Nat.zero_le _) _ _ fun action place h => ?_
  dsimp only
  cases actionOfText? action with
  | none => rfl
  | some a =>
      dsimp only
      rw [pure_bind, ok_bind]
      refine segment_bind .store h _ _ fun store place h => ?_
      refine segment_bind .historical h _ _ fun historical place h => ?_
      refine segment_bind .timestamp h _ _ fun timestamp place h => ?_
      refine segment_bind .topic h _ _ fun topic place h => ?_
      refine segment_bind .sender h _ _ fun sender place h => ?_
      refine segment_bind .payload h _ _ fun payload place h => ?_
      rfl

end Reading

/-- Bytes are read as a frame exactly if they begin with seven segments of which the first names an
action; it is the frame that they represent. All other bytes are refused for the first fault that
they have. No reading looks outside of them. -/
theorem decode_grammar (bs : List UInt8) :
    ((∃ f, decode bs = .ok f) ↔ ∃ action texts rest, texts.length = 6 ∧
      Segments (action :: texts) bs rest ∧ NamesAction action) ∧
    (∀ f, decode bs = .ok f ↔ Represents bs f) ∧
    (∀ e, decode bs = .error e ↔ FirstFault bs e) ∧
    (Reading.frame bs).run = some (decode bs) := by
  refine ⟨?_, fun _ => decode_eq_ok_iff, fun _ => decode_eq_error_iff, Reading.frame_run bs⟩
  simp only [decode_eq_ok_iff, exists_represents_iff]
  exact Iff.rfl

end Parley.Frame
