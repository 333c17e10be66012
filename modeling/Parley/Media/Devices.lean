import Parley.Media.State

/-!
# Devices

The microphone and the camera behind an engine. A person may refuse them and may take a while to
answer; each acquisition that is allowed opens tracks with ids of their own, and a track that is
stopped is recorded.
-/

namespace Parley

structure Devices where
  label : String
  /-- Why acquisitions fail now, if they do. -/
  denial : Option String := none
  /-- Milliseconds until an acquisition is answered. -/
  delay : Nat := 0
  next : Nat := 1
  /-- Ids of the stopped tracks, in order. -/
  stopped : List String := []
  deriving DecidableEq, Repr

namespace Devices

def openTrack (d : Devices) (kind : TrackKind) : Track × Devices :=
  (⟨d.label ++ "-" ++ kind.name ++ "-" ++ toString d.next, kind⟩, { d with next := d.next + 1 })

/-- One audio track, and a video track if video is asked for. -/
def acquire (d : Devices) (video : Bool) : Except MediaError MediaStream × Devices :=
  match d.denial with
  | some reason => (.error (.permissionDenied reason), d)
  | none =>
    let (audio, d) := d.openTrack .audio
    if video then
      let (picture, d) := d.openTrack .video
      (.ok ⟨[audio, picture]⟩, d)
    else (.ok ⟨[audio]⟩, d)

def stop (d : Devices) (t : Track) : Devices := { d with stopped := d.stopped ++ [t.id] }

end Devices

end Parley
