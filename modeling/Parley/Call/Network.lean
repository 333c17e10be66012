import Parley.Call.Station

/-!
# Stations on one topic

Stations whose events reach each other through one queue. Time is counted in milliseconds: whatever
happens at one moment is handled before the next one begins.
-/

namespace Parley

/-- An event on its way to the other stations. -/
structure Parcel where
  /-- The station it left. -/
  origin : String
  /-- The connection id it was sent under. -/
  sender : String
  event : Event
  deriving DecidableEq, Repr

structure Network where
  stations : List Station
  transit : List Parcel := []
  now : Nat := 0

namespace Network

def station? (n : Network) (label : String) : Option Station := n.stations.find? (·.label = label)

/-- Events that left a station join the queue. -/
def collect (s : Station) : List Parcel := s.outbox.map fun e => ⟨s.label, s.me.getD "", e⟩

/-- Lets a station do something and handle all that waits. -/
def atStation {α : Type} (n : Network) (label : String) (f : Nat → Station → α × Station) :
    Option α × Network :=
  match n.station? label with
  | none => (none, n)
  | some s =>
    let (result, s) := f n.now s
    let s := s.settle n.now
    (some result, { n with
      stations := n.stations.map fun t => if t.label = label then { s with outbox := [] } else t
      transit := n.transit ++ collect s })

def settle (n : Network) : Network :=
  n.stations.foldl (fun n s => (n.atStation s.label fun _ s => ((), s)).2) n

def wait (n : Network) (milliseconds : Nat) : Network :=
  ({ n with now := n.now + milliseconds }).settle

def message (p : Parcel) : Message := { topic := "room", sender := p.sender, event := p.event }

/-- Hands a parcel to all stations but the one it left. -/
def handOver (n : Network) (p : Parcel) : Network :=
  (n.stations.filter (·.label ≠ p.origin)).foldl
    (fun n s => (n.atStation s.label fun now s => s.receive now (.message (message p))).2) n

/-- Hands over up to `max` parcels, the oldest first; those that join meanwhile count too. Returns
how many were taken. -/
def deliver (n : Network) : Nat → Nat × Network
  | 0 => (0, n)
  | max + 1 =>
    match n.transit with
    | [] => (0, n)
    | p :: rest =>
      let (taken, n) := (({ n with transit := rest }).handOver p).deliver max
      (taken + 1, n)

def clearLogs (n : Network) : Network := { n with stations := n.stations.map Station.clearLog }

def discard (n : Network) : Nat × Network := (n.transit.length, { n with transit := [] })

end Network

end Parley
