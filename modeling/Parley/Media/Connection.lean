import Parley.Media.State

/-!
# Connections

What a call asks of a media connection, whichever engine made it. An operation may fail, and it may
report; what it changed before it failed stays changed. Between two operations only the network acts
on a connection, and the network leaves the descriptions alone.
-/

namespace Parley

/-- The answer to an operation or why there is none, the connection after it, and what the
connection reported meanwhile. -/
structure Reply (κ α : Type) where
  result : Except MediaError α
  after : κ
  events : List PeerEvent := []

namespace Reply

variable {κ α β : Type}

/-- One operation after another; a failure ends the sequence. -/
def andThen (o : Reply κ α) (f : α → κ → Reply κ β) : Reply κ β :=
  match o.result with
  | .error e => ⟨.error e, o.after, o.events⟩
  | .ok a =>
    let next := f a o.after
    ⟨next.result, next.after, o.events ++ next.events⟩

def map (g : α → β) (o : Reply κ α) : Reply κ β := ⟨o.result.map g, o.after, o.events⟩

def skip (p : κ) : Reply κ Unit := ⟨.ok (), p, []⟩

end Reply

class Connection (κ : Type) where
  addTrack : κ → Track → κ
  removeTrack : κ → Track → κ
  createOffer : κ → Reply κ Description
  createAnswer : κ → Reply κ Description
  setLocal : κ → Description → Reply κ Unit
  /-- Forgets the current local description before a new round. -/
  clearLocal : κ → Reply κ Unit
  /-- Withdraws an offer that was not answered. -/
  rollback : κ → Reply κ Unit
  setRemote : κ → Description → Reply κ Unit
  addCandidate : κ → Candidate → Reply κ Unit
  descriptions : κ → DescriptionState
  signaling : κ → SignalingState
  ice : κ → IceState
  close : κ → κ
  /-- What the network can do to a connection. -/
  Network : Type
  network : κ → Network → κ × List PeerEvent
  descriptions_network : ∀ p n, descriptions (network p n).1 = descriptions p

namespace Connection

variable {κ : Type} [Connection κ]

/-- Both descriptions are current and none is pending. -/
def isSettled (p : κ) : Bool := (descriptions p).isSettled

/-- Makes an offer, which becomes the pending local description. -/
def offer (p : κ) : Reply κ Description :=
  (createOffer p).andThen fun d p => (setLocal p d).map fun _ => d

/-- Makes room for an answer to come: withdraws an offer that was not answered, or forgets the
current local description. -/
def makeRoom (p : κ) : Reply κ Unit :=
  match signaling p with
  | .haveLocalOffer => rollback p
  | .stable => if (descriptions p).currentLocal then clearLocal p else .skip p
  | _ => .skip p

/-- Applies a remote offer and answers it. -/
def answer (p : κ) (d : Description) : Reply κ Description :=
  (makeRoom p).andThen fun _ p =>
    (setRemote p d).andThen fun _ p =>
      (createAnswer p).andThen fun answer p => (setLocal p answer).map fun _ => answer

/-- Applies a remote description; an offer is answered. -/
def apply (p : κ) (d : Description) : Reply κ (Option Description) :=
  if d.isOffer then (answer p d).map some else (setRemote p d).map fun _ => none

end Connection

end Parley
