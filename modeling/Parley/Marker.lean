import Parley.Text.Blank
import Parley.Text.Utf8

/-!
# The on-call marker

Whether a call is going on, kept so that a lost connection can be told from one that was meant to
end. The marker is absent, active, or blurred while the window is in the background. It is kept in
memory, or in a small file where an absent marker is an absent file; both are stores in the sense of
`MarkerStore`, and whoever uses a marker works with either.
-/

namespace Parley

inductive Marker where
  | absent
  | active
  | blurred
  deriving DecidableEq, Repr, Inhabited

namespace Marker

/-- The stored text; an absent marker has none. -/
def text? : Marker → Option String
  | absent => none
  | active => some "true"
  | blurred => some "blurred"

/-- Reads a stored text; unknown texts mean an absent marker. -/
def ofText (s : String) : Marker :=
  let t := Text.trim s
  if t = "true" then active else if t = "blurred" then blurred else absent

def ofText? (s : Option String) : Marker := (s.map ofText).getD absent

end Marker

class MarkerStore (σ : Type) where
  load : σ → Marker
  store : Marker → σ → σ

instance : MarkerStore Marker where
  load := id
  store m _ := m

/-- A store that returns what was last stored. -/
class LawfulMarkerStore (σ : Type) [MarkerStore σ] : Prop where
  load_store (m : Marker) (s : σ) : MarkerStore.load (MarkerStore.store m s) = m

instance : LawfulMarkerStore Marker := ⟨fun _ _ => rfl⟩

/-- What stands at the path of a marker file. -/
inductive MarkerFile where
  | missing
  | holding (bytes : List UInt8)
  /-- A directory: it can be neither read nor replaced. -/
  | directory
  /-- The directory of the path does not exist. -/
  | unreachable
  deriving DecidableEq, Repr, Inhabited

namespace MarkerFile

def load : MarkerFile → Marker
  | holding bs => Marker.ofText? (Text.ofBytes? bs)
  | _ => .absent

def write (bs : List UInt8) : MarkerFile → MarkerFile
  | missing | holding _ => holding bs
  | directory => directory
  | unreachable => unreachable

def remove : MarkerFile → MarkerFile
  | holding _ => missing
  | f => f

/-- Failures to write or remove are passed over. -/
def store (m : Marker) (f : MarkerFile) : MarkerFile :=
  match m.text? with
  | some s => f.write (Text.bytes s)
  | none => f.remove

instance : MarkerStore MarkerFile := ⟨load, store⟩

/-- The content of the file, shown as text. -/
def content? : MarkerFile → Option String
  | holding bs => some (Text.ofBytesLossy bs)
  | _ => none

end MarkerFile

end Parley
