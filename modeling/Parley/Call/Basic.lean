import Parley.Event.Basic
import Parley.Link
import Parley.Notice

/-!
# Calls

A call over one topic holds a link to every participant it negotiates with, and the stream this
client publishes. What a call wants done outside of it, in the order in which it wants it, are its
effects: events to send, reports to its user interface, reports of its own connections to itself,
and requests to the devices.
-/

namespace Parley

/-- What the control for starting and stopping media offers. -/
inductive Control where
  | start
  /-- The devices have not answered yet. -/
  | pending
  | stop
  deriving DecidableEq, Repr, Inhabited

def Control.title : Control → String
  | start => "Start"
  | pending => "Pending"
  | stop => "Stop"

/-- What a call tells its user interface. -/
inductive CallEvent where
  /-- The remote streams that hold a track, in the order of the participants' ids. -/
  | streamsUpdated (streams : List (String × MediaStream))
  | controlChanged (c : Control)
  | notice (n : Notice)
  deriving DecidableEq, Repr

inductive CallEffect where
  | send (e : Event)
  | tell (e : CallEvent)
  /-- A connection reports; the call will see it as a signal. -/
  | report (s : PeerSignal)
  | opened (remote : String) (serial : Nat)
  /-- Asks the devices; the answer comes back with the epoch. -/
  | acquire (video : Bool) (epoch : Nat)
  | release (t : Track)
  deriving DecidableEq, Repr

/-- A call over connections of type `κ`. -/
structure Call (κ : Type := Peer) where
  links : Table (Link κ) := .empty
  /-- Closed links, in the order in which they were closed. -/
  retired : List (Link κ) := []
  /-- The stream this client publishes. -/
  held : Option MediaStream := none
  control : Control := .start
  /-- Grows when a call is left; media asked for in an earlier epoch are not used. -/
  epoch : Nat := 0
  serial : Nat := 0
  subscribed : Bool := false
  /-- The topic was asked whether anyone streams. -/
  pinged : Bool := false
  /-- The call was torn down. -/
  ended : Bool := false
  deriving DecidableEq, Repr

/-- What a call finds outside of it when it takes a step. -/
structure Setting (κ : Type := Peer) where
  /-- The own connection id. -/
  me : Option String
  /-- A new connection to a participant, if the engine can make one. -/
  connect : String → Option κ
  /-- The time at which the devices will answer a request made now. -/
  due : Nat := 0

namespace Call

/-- A call after a step, and what it wants done. -/
abbrev Step (κ : Type := Peer) := Call κ × List CallEffect

variable {κ : Type}

def Step.andThen (s : Step κ) (f : Call κ → Step κ) : Step κ :=
  let t := f s.1
  (t.1, s.2 ++ t.2)

@[simp] theorem Step.andThen_call (s : Step κ) (f : Call κ → Step κ) :
    (s.andThen f).1 = (f s.1).1 := rfl

@[simp] theorem Step.andThen_effects (s : Step κ) (f : Call κ → Step κ) :
    (s.andThen f).2 = s.2 ++ (f s.1).2 := rfl

/-! ## Effects -/

def sendDescription (remote : String) (d : Description) : CallEffect :=
  .send (.signal (.ofDescription remote d))

def sendCandidate (remote : String) (c : Candidate) : CallEffect :=
  .send (.signal (.ofCandidate remote c))

/-- The remote streams that hold a track. -/
def streams (c : Call κ) : List (String × MediaStream) :=
  (c.links.toList.filter fun e => !e.2.media.isEmpty).map fun e => (e.1, e.2.media)

def tellStreams (c : Call κ) : List CallEffect := [.tell (.streamsUpdated c.streams)]

/-- Changes the control and tells of it, if it is a change. -/
def setControl (control : Control) (c : Call κ) : Step κ :=
  if c.control = control then (c, []) else ({ c with control }, [.tell (.controlChanged control)])

def releaseAll (s : MediaStream) : List CallEffect := s.tracks.map .release

/-! ## Links -/

/-- The call with a link in its place. -/
def put (c : Call κ) (remote : String) (l : Link κ) : Call κ :=
  { c with links := c.links.insert remote l }

@[simp] theorem find?_put_self (c : Call κ) (remote : String) (l : Link κ) :
    (c.put remote l).links.find? remote = some l :=
  Table.find?_insert_self ..

/-- The links made to a participant, the earliest first. -/
def made (c : Call κ) (remote : String) : List (Link κ) :=
  c.retired.filter (·.remote = remote) ++ (c.links.find? remote).toList

/-- The call with the connection of a link in another state, whether the link is live or closed. -/
def updatePeer (c : Call κ) (remote : String) (serial : Nat) (f : κ → κ) : Call κ :=
  let update (l : Link κ) : Link κ :=
    if l.remote = remote ∧ l.serial = serial then { l with peer := f l.peer } else l
  { c with links := c.links.map fun _ l => update l, retired := c.retired.map update }

variable [Connection κ]

/-- The link to a participant, made with the published tracks if there is none; none if no
connection can be made. -/
def ensure (s : Setting κ) (remote : String) (c : Call κ) :
    Option (Link κ) × Call κ × List CallEffect :=
  match c.links.find? remote with
  | some l => (some l, c, [])
  | none =>
    let serial := c.serial + 1
    match s.connect remote with
    | none => (none, { c with serial }, [])
    | some peer =>
      let l : Link κ := ({ remote, serial, peer } : Link κ).attach (c.held.getD {})
      (some l, { c with serial, links := c.links.insert remote l }, [.opened remote serial])

def remove (remote : String) (c : Call κ) : Step κ :=
  match c.links.find? remote with
  | none => (c, [])
  | some l =>
    let c := { c with links := c.links.erase remote, retired := c.retired ++ [l.close] }
    (c, c.tellStreams)

end Call

end Parley
