import Parley.Media.Track
import Parley.Text.Blank
import Parley.Text.Lines

/-!
# Description texts

A description names its engine and its kind, and then has a line `a=track:<id> <kind>` for each
track. A reader takes the tracks from any text: it looks at the lines that begin in this way and
passes over those whose kind it does not know.
-/

namespace Parley.Sdp

def lineEnd : List Char := ['\r', '\n']

def trackStart : List Char := "a=track:".toList

def trackLine (t : Track) : List Char :=
  trackStart ++ t.id.toList ++ ' ' :: t.kind.name.toList ++ lineEnd

def textChars (label word : String) (tracks : List Track) : List Char :=
  "v=0".toList ++ lineEnd ++ ("o=".toList ++ label.toList ++ ' ' :: word.toList ++ lineEnd) ++
    tracks.flatMap trackLine

/-- The text of a description by the engine `label`, of the kind `word`. -/
def text (label word : String) (tracks : List Track) : String :=
  String.ofList (textChars label word tracks)

/-! ## Reading -/

def kindOfChars? (cs : List Char) : Option TrackKind :=
  TrackKind.ofName? (String.ofList (Text.trimChars cs))

def trackOfLine? (line : List Char) : Option Track := do
  let rest ← Text.dropStart? trackStart line
  let (id, kind) ← Text.splitAt? ' ' rest
  let kind ← kindOfChars? kind
  return ⟨String.ofList id, kind⟩

/-- The tracks that a text announces, in the order of its lines. -/
def tracks (sdp : String) : List Track := (Text.lines sdp.toList).filterMap trackOfLine?

end Parley.Sdp
