import Parley.Session.Event
import Parley.Time.Stamp

/-!
# The chat log

The lines of a topic in reading order. A live line goes to the bottom; a line of the backlog goes to
the top, for the backlog arrives newest first. A line belongs to the participant who holds the
connection it came from at that moment. A live line from an unknown connection is dropped; a line of
the backlog is kept without a name, since its author may have left long ago.
-/

namespace Parley

structure ChatEntry where
  sender : String
  /-- The participant it belongs to, if known. -/
  scid : Option String
  name : String
  color : String
  role : String
  message : String
  style : TextStyle
  timestamp : Option Stamp
  historical : Bool
  deriving DecidableEq, Repr, Inhabited

structure ChatLog where
  entries : List ChatEntry := []
  /-- The server holds backlog that has not been asked for. -/
  moreAvailable : Bool := false
  deriving DecidableEq, Repr, Inhabited

namespace ChatLog

def entryOf (author : Option Participant) (m : Message) (t : TextMessage) : ChatEntry where
  sender := m.sender
  scid := author.map (·.scid)
  name := (author.map (·.name)).getD ""
  color := (author.map (·.color)).getD ""
  role := (author.map (·.role)).getD ""
  message := t.message
  style := t.style
  timestamp := Stamp.parse? m.timestamp
  historical := m.historical

/-- The line that a message adds to the log, if it adds one. -/
def entry? (m : Message) (roster : Roster) : Option ChatEntry :=
  match m.event with
  | .text t =>
    match roster.byConnection? m.sender with
    | some p => some (entryOf (some p) m t)
    | none => if m.historical then some (entryOf none m t) else none
  | _ => none

def add (log : ChatLog) (e : ChatEntry) : ChatLog :=
  { log with entries := if e.historical then e :: log.entries else log.entries ++ [e] }

/-- Takes in one session event; true if the log changed. -/
def apply (log : ChatLog) (event : SessionEvent) (roster : Roster) : ChatLog × Bool :=
  match event with
  | .message m =>
    match entry? m roster with
    | some e => (log.add e, true)
    | none => (log, false)
  | .moreHistory => ({ log with moreAvailable := true }, true)
  | _ => (log, false)

/-- The next page has been asked for. -/
def clearMore (log : ChatLog) : ChatLog := { log with moreAvailable := false }

end ChatLog

end Parley
