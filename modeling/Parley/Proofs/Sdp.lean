import Parley.Media.Devices
import Parley.Media.Sdp
import Parley.Proofs.Text.Digits
import Parley.Proofs.Text.Lines

/-!
# Descriptions list their tracks

The tracks that a reader takes from the text of a description are those that were written into it,
in their order, as long as no name in it breaks a line and no track id is cut at a blank
(`Sdp.tracks_text`). The tracks of devices whose name does neither are such tracks, and no two of
one stream have the same id.
-/

namespace Parley

namespace Sdp

theorem kindOfChars?_name (k : TrackKind) : kindOfChars? k.name.toList = some k := by
  cases k <;> decide

/-- A name that keeps its line and its place in it. -/
def Plain (name : String) : Prop := '\n' ∉ name.toList ∧ ' ' ∉ name.toList

/-- The line of a track, without its end. -/
def trackChars (t : Track) : List Char := trackStart ++ t.id.toList ++ ' ' :: t.kind.name.toList

theorem trackOfLine?_trackChars {t : Track} (h : Plain t.id) :
    trackOfLine? (trackChars t) = some t := by
  unfold trackOfLine? trackChars
  rw [List.append_assoc, Text.dropStart?_append, Option.bind_eq_bind, Option.bind_some,
    Text.splitAt?_append h.2]
  simp [kindOfChars?_name]

theorem filterMap_trackChars {ts : List Track} (h : ∀ t ∈ ts, Plain t.id) :
    (ts.map trackChars).filterMap trackOfLine? = ts := by
  induction ts with
  | nil => rfl
  | cons t rest ih =>
      obtain ⟨ht, hrest⟩ := List.forall_mem_cons.mp h
      rw [List.map_cons, List.filterMap_cons_some (trackOfLine?_trackChars ht), ih hrest]

theorem plain_name (k : TrackKind) : Plain k.name := by
  unfold Plain
  cases k <;> decide

theorem textChars_eq (label word : String) (ts : List Track) :
    textChars label word ts =
      ("v=0".toList :: ("o=".toList ++ label.toList ++ ' ' :: word.toList) ::
        ts.map trackChars).flatMap (· ++ ['\r', '\n']) := by
  have htracks : ts.flatMap trackLine = (ts.map trackChars).flatMap (· ++ ['\r', '\n']) := by
    rw [List.flatMap_map]
    rfl
  rw [textChars, htracks]
  simp [lineEnd]

/-- The tracks that a description lists are those that it was made with. -/
theorem tracks_text {label word : String} {ts : List Track} (hlabel : '\n' ∉ label.toList)
    (hword : '\n' ∉ word.toList) (hts : ∀ t ∈ ts, Plain t.id) :
    tracks (text label word ts) = ts := by
  have hlines : Text.lines (textChars label word ts) =
      "v=0".toList :: ("o=".toList ++ label.toList ++ ' ' :: word.toList) :: ts.map trackChars := by
    rw [textChars_eq]
    refine Text.lines_flatMap fun l hl => ?_
    rcases List.mem_cons.mp hl with rfl | hl
    · decide
    rcases List.mem_cons.mp hl with rfl | hl
    · simp [hlabel, hword]
    · obtain ⟨t, ht, rfl⟩ := List.mem_map.mp hl
      have hstart : '\n' ∉ trackStart := by decide
      simp [trackChars, hstart, (hts t ht).1, (plain_name t.kind).1]
  have hfirst : trackOfLine? "v=0".toList = none := by decide
  have hsecond : trackOfLine? ("o=".toList ++ label.toList ++ ' ' :: word.toList) = none := rfl
  rw [tracks, text, String.toList_ofList, hlines, List.filterMap_cons_none hfirst,
    List.filterMap_cons_none hsecond, filterMap_trackChars hts]

end Sdp

/-! ## Streams of devices -/

/-- A stream that devices with a name opened. -/
def MediaStream.OpenedBy (label : String) (s : MediaStream) : Prop :=
  ∃ (d : Devices) (video : Bool), d.label = label ∧ (d.acquire video).1 = .ok s

namespace MediaStream.OpenedBy

variable {label : String} {s : MediaStream}

theorem cases (h : s.OpenedBy label) : ∃ d : Devices, d.label = label ∧
    (s = ⟨[(d.openTrack .audio).1]⟩ ∨
      s = ⟨[(d.openTrack .audio).1, ((d.openTrack .audio).2.openTrack .video).1]⟩) := by
  obtain ⟨d, video, hlabel, h⟩ := h
  refine ⟨d, hlabel, ?_⟩
  unfold Devices.acquire at h
  split at h
  · cases h
  · cases video with
    | false => exact .inl (Except.ok.inj h).symm
    | true => exact .inr (Except.ok.inj h).symm

/-- The tracks of one stream have different ids. -/
theorem nodup (h : s.OpenedBy label) : (s.tracks.map (·.id)).Nodup := by
  obtain ⟨d, -, rfl | rfl⟩ := h.cases
  · simp
  · have hne : (d.openTrack .audio).1.id ≠ ((d.openTrack .audio).2.openTrack .video).1.id := by
      intro heq
      have hchars := congrArg String.toList heq
      simp [Devices.openTrack, TrackKind.name, String.toList_append] at hchars
    simp [hne]

theorem plain_id {d : Devices} (hlabel : Sdp.Plain d.label) (kind : TrackKind) :
    Sdp.Plain (d.openTrack kind).1.id := by
  have hdigits : ∀ c : Char, c.isDigit = false → c ∉ Nat.toDigits 10 d.next := by
    intro c hc hmem
    rw [(Text.spells_toDigits d.next).digits c hmem] at hc
    cases hc
  obtain ⟨hline, hblank⟩ := Sdp.plain_name kind
  refine ⟨?_, ?_⟩
  · simp [Devices.openTrack, String.toList_append, hlabel.1, hline, hdigits '\n' rfl]
  · simp [Devices.openTrack, String.toList_append, hlabel.2, hblank, hdigits ' ' rfl]

/-- The ids of the tracks are plain if the name of the devices is. -/
theorem plain (h : s.OpenedBy label) (hlabel : Sdp.Plain label) :
    ∀ t ∈ s.tracks, Sdp.Plain t.id := by
  obtain ⟨d, rfl, rfl | rfl⟩ := h.cases
  · intro t ht
    rw [List.mem_singleton.mp ht]
    exact plain_id hlabel .audio
  · intro t ht
    rcases List.mem_cons.mp ht with rfl | ht
    · exact plain_id hlabel .audio
    · rw [List.mem_singleton.mp ht]
      exact plain_id (d := (d.openTrack .audio).2) hlabel .video

end MediaStream.OpenedBy

end Parley
