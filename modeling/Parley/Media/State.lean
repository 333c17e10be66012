import Parley.Media.Track
import Parley.Signal

/-!
# The state of a media connection

Where a connection stands in the exchange of descriptions, whether its network path is alive, which
descriptions it holds, what it reports, and how its operations fail.
-/

namespace Parley

/-- Where a connection stands between an offer and its answer. -/
inductive SignalingState where
  | stable
  | haveLocalOffer
  | haveRemoteOffer
  | haveLocalProvisional
  | haveRemoteProvisional
  | closed
  deriving DecidableEq, Repr, Inhabited

def SignalingState.title : SignalingState → String
  | stable => "Stable"
  | haveLocalOffer => "HaveLocalOffer"
  | haveRemoteOffer => "HaveRemoteOffer"
  | haveLocalProvisional => "HaveLocalPranswer"
  | haveRemoteProvisional => "HaveRemotePranswer"
  | closed => "Closed"

inductive IceState where
  | new
  | checking
  | connected
  | completed
  | failed
  | disconnected
  | closed
  deriving DecidableEq, Repr, Inhabited

namespace IceState

def title : IceState → String
  | new => "New"
  | checking => "Checking"
  | connected => "Connected"
  | completed => "Completed"
  | failed => "Failed"
  | disconnected => "Disconnected"
  | closed => "Closed"

def all : List IceState := [new, checking, connected, completed, failed, disconnected, closed]

def ofTitle? (s : String) : Option IceState := all.find? (·.title = s)

/-- A dead path does not come back. -/
def isDead : IceState → Bool
  | failed | disconnected | closed => true
  | _ => false

end IceState

/-- Which descriptions a connection holds. Both sides have agreed on the current ones. -/
structure DescriptionState where
  currentLocal : Bool := false
  currentRemote : Bool := false
  pendingLocal : Bool := false
  pendingRemote : Bool := false
  deriving DecidableEq, Repr, Inhabited

/-- Both descriptions are current and none is pending. -/
def DescriptionState.isSettled (s : DescriptionState) : Bool :=
  s.currentLocal && s.currentRemote && !s.pendingLocal && !s.pendingRemote

inductive MediaError where
  | permissionDenied (reason : String)
  | deviceUnavailable (reason : String)
  | negotiation (reason : String)
  | closed
  deriving DecidableEq, Repr

def MediaError.message : MediaError → String
  | permissionDenied reason => "permission denied: " ++ reason
  | deviceUnavailable reason => "device unavailable: " ++ reason
  | negotiation reason => "negotiation failed: " ++ reason
  | closed => "peer connection closed"

inductive PeerEvent where
  /-- A way to reach this side was found. -/
  | gathered (c : Candidate)
  /-- The other side announced a track. -/
  | track (t : Track)
  | iceChanged (s : IceState)
  deriving DecidableEq, Repr

/-- A report with the link it belongs to. The serial tells links to one participant apart. -/
structure PeerSignal where
  remote : String
  serial : Nat
  event : PeerEvent
  deriving DecidableEq, Repr

end Parley
