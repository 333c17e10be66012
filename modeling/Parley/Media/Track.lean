/-!
# Tracks and streams

A track carries sound or pictures from one source and is known by its id. A stream is the list of
tracks of one source.
-/

namespace Parley

inductive TrackKind where
  | audio
  | video
  deriving DecidableEq, Repr, Inhabited

namespace TrackKind

def name : TrackKind → String
  | audio => "audio"
  | video => "video"

def ofName? (s : String) : Option TrackKind := [audio, video].find? (·.name = s)

end TrackKind

structure Track where
  id : String
  kind : TrackKind
  deriving DecidableEq, Repr, Inhabited

structure MediaStream where
  tracks : List Track := []
  deriving DecidableEq, Repr, Inhabited

namespace Track

/-- The tracks with one more at the end, unless its id is there already. -/
def addTo (tracks : List Track) (t : Track) : List Track :=
  if tracks.any (·.id = t.id) then tracks else tracks ++ [t]

/-- The tracks without those of this track's id. -/
def removeFrom (tracks : List Track) (t : Track) : List Track := tracks.filter (·.id ≠ t.id)

end Track

namespace MediaStream

/-- A track whose id is there already is passed over. -/
def add (s : MediaStream) (t : Track) : MediaStream := ⟨t.addTo s.tracks⟩

def hasVideo (s : MediaStream) : Bool := s.tracks.any (·.kind = .video)

def isEmpty (s : MediaStream) : Bool := s.tracks.isEmpty

end MediaStream

end Parley
