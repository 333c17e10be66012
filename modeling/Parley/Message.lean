import Parley.Event.Payload
import Parley.Frame.Basic

/-!
# Messages

A frame on its way to the listeners of its topic, with its payload read.
-/

namespace Parley

structure Message where
  store : Bool := false
  historical : Bool := false
  timestamp : String := ""
  topic : String := ""
  sender : String := ""
  event : Event
  deriving DecidableEq, Repr, Inhabited

namespace Message

def action (m : Message) : Action := m.event.action

def target (m : Message) : Option String := m.event.target

def ofFrame (f : Frame) : Except Event.Error Message := do
  let event ← Event.decode f.action f.payload
  return ⟨f.store, f.historical, f.timestamp, f.topic, f.sender, event⟩

end Message

end Parley
