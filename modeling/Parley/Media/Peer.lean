import Parley.Media.Connection
import Parley.Media.Sdp

/-!
# Peer connections

One side of a media connection in memory, without devices and without a network. It follows the
exchange of offers and answers: an offer is pending until it is answered, and the answer makes both
descriptions current. Every description it applies of its own yields two candidates, and every track
that a remote description announces is reported once. An operation that fails changes nothing and
reports nothing.
-/

namespace Parley

structure Peer where
  /-- The name of the engine that made the connection. -/
  label : String
  tracks : List Track := []
  currentLocal : Option Description := none
  currentRemote : Option Description := none
  pendingLocal : Option Description := none
  pendingRemote : Option Description := none
  signaling : SignalingState := .stable
  ice : IceState := .new
  /-- Ids of the remote tracks reported so far. -/
  announced : List String := []
  /-- Remote candidates, in the order in which they were applied. -/
  applied : List Candidate := []
  /-- How many candidates were gathered so far. -/
  gathered : Nat := 0
  deriving DecidableEq, Repr

namespace Peer

/-- A connection after an operation, and what it reported. -/
abbrev Result := Except MediaError (Peer × List PeerEvent)

def descriptions (p : Peer) : DescriptionState :=
  ⟨p.currentLocal.isSome, p.currentRemote.isSome, p.pendingLocal.isSome, p.pendingRemote.isSome⟩

/-- Both descriptions are current and none is pending. -/
def isSettled (p : Peer) : Bool := p.descriptions.isSettled

def isOpen (p : Peer) : Bool := p.signaling ≠ .closed

/-- The pending description, or else the current one. -/
def localDescription (p : Peer) : Option Description := p.pendingLocal <|> p.currentLocal

/-! ## Tracks and candidates -/

def addTrack (p : Peer) (t : Track) : Peer := { p with tracks := t.addTo p.tracks }

def removeTrack (p : Peer) (t : Track) : Peer := { p with tracks := t.removeFrom p.tracks }

/-- Candidates gathered for each local description. -/
def candidatesPerDescription : Nat := 2

def candidate (label : String) (n : Nat) : Candidate where
  candidate := "candidate:" ++ label ++ toString n ++ " 1 udp 2122260223 127.0.0.1 " ++
    toString (40000 + n) ++ " typ host"
  sdpMid := some "0"
  sdpMLineIndex := some 0

/-- The connection after it gathered candidates, which it reports. -/
def gather (p : Peer) : Peer × List PeerEvent :=
  ({ p with gathered := p.gathered + candidatesPerDescription },
    (List.range candidatesPerDescription).map fun i =>
      .gathered (candidate p.label (p.gathered + i)))

/-! ## Descriptions -/

def createOffer (p : Peer) : Except MediaError Description :=
  if p.isOpen then .ok ⟨.offer, Sdp.text p.label "offer" p.tracks⟩ else .error .closed

def createAnswer (p : Peer) : Except MediaError Description :=
  match p.signaling with
  | .closed => .error .closed
  | .haveRemoteOffer => .ok ⟨.answer, Sdp.text p.label "answer" p.tracks⟩
  | _ => .error (.negotiation "no remote offer to answer")

def setLocal (p : Peer) (d : Description) : Result :=
  match d.kind, p.signaling with
  | _, .closed => .error .closed
  | .offer, .stable | .offer, .haveLocalOffer =>
    .ok ({ p with pendingLocal := some d, signaling := .haveLocalOffer }).gather
  | .answer, .haveRemoteOffer =>
    .ok ({ p with
      currentRemote := p.pendingRemote, pendingRemote := none, currentLocal := some d,
      signaling := .stable }).gather
  | kind, state =>
    .error (.negotiation ("cannot apply local " ++ kind.title ++ " in " ++ state.title))

/-- Forgets the current local description before a new round; only between rounds. -/
def clearLocal (p : Peer) : Result :=
  match p.signaling with
  | .closed => .error .closed
  | .stable => .ok ({ p with currentLocal := none }, [])
  | _ => .ok (p, [])

/-- Withdraws an offer that was not answered. -/
def rollback (p : Peer) : Result :=
  match p.signaling with
  | .closed => .error .closed
  | .haveLocalOffer => .ok ({ p with pendingLocal := none, signaling := .stable }, [])
  | state => .error (.negotiation ("nothing to roll back in " ++ state.title))

/-- The tracks whose ids are not among `known`, each id once, and all ids known then. -/
def freshTracks (known : List String) : List Track → List Track × List String
  | [] => ([], known)
  | t :: rest =>
    if known.contains t.id then freshTracks known rest
    else
      let (fresh, known) := freshTracks (known ++ [t.id]) rest
      (t :: fresh, known)

/-- The connection after the tracks of a remote description were announced. -/
def announce (p : Peer) (d : Description) : Peer × List PeerEvent :=
  let (fresh, known) := freshTracks p.announced (Sdp.tracks d.sdp)
  ({ p with announced := known }, fresh.map .track)

def setRemote (p : Peer) (d : Description) : Result :=
  match d.kind, p.signaling with
  | _, .closed => .error .closed
  | .offer, .stable =>
    .ok (({ p with pendingRemote := some d, signaling := .haveRemoteOffer }).announce d)
  | .answer, .haveLocalOffer =>
    .ok (({ p with
      currentLocal := p.pendingLocal, pendingLocal := none, currentRemote := some d,
      signaling := .stable }).announce d)
  | kind, state =>
    .error (.negotiation ("cannot apply remote " ++ kind.title ++ " in " ++ state.title))

/-- Applies a remote candidate; the first one makes the connection connected. -/
def addCandidate (p : Peer) (c : Candidate) : Result :=
  if !p.isOpen then .error .closed
  else if p.currentRemote.isNone then .error (.negotiation "candidate before remote description")
  else
    let p := { p with applied := p.applied ++ [c] }
    if p.ice = .new then .ok ({ p with ice := .connected }, [.iceChanged .connected])
    else .ok (p, [])

/-! ## The network path -/

/-- The network put the path into a state. -/
def setIce (p : Peer) (s : IceState) : Peer × List PeerEvent :=
  ({ p with ice := s }, [.iceChanged s])

def close (p : Peer) : Peer := { p with signaling := .closed, ice := .closed }

/-! ## All operations -/

inductive Operation where
  | addTrack (t : Track)
  | removeTrack (t : Track)
  | createOffer
  | createAnswer
  | setLocal (d : Description)
  | clearLocal
  | rollback
  | setRemote (d : Description)
  | addCandidate (c : Candidate)
  | setIce (s : IceState)
  | close
  deriving DecidableEq, Repr

def perform (p : Peer) : Operation → Result
  | .addTrack t => .ok (p.addTrack t, [])
  | .removeTrack t => .ok (p.removeTrack t, [])
  | .createOffer => p.createOffer.map fun _ => (p, [])
  | .createAnswer => p.createAnswer.map fun _ => (p, [])
  | .setLocal d => p.setLocal d
  | .clearLocal => p.clearLocal
  | .rollback => p.rollback
  | .setRemote d => p.setRemote d
  | .addCandidate c => p.addCandidate c
  | .setIce s => .ok (p.setIce s)
  | .close => .ok (p.close, [])

/-- The connection after an operation, which stays as it was if the operation failed, and what it
reported. -/
def after (p : Peer) (op : Operation) : Peer × List PeerEvent :=
  match p.perform op with
  | .ok r => r
  | .error _ => (p, [])

/-! ## As a connection -/

/-- The reply to an operation on `p`; one that failed changed nothing. -/
def Result.reply (p : Peer) : Result → Reply Peer Unit
  | .ok (q, events) => ⟨.ok (), q, events⟩
  | .error e => ⟨.error e, p, []⟩

instance : Connection Peer where
  addTrack := addTrack
  removeTrack := removeTrack
  createOffer p := ⟨p.createOffer, p, []⟩
  createAnswer p := ⟨p.createAnswer, p, []⟩
  setLocal p d := Result.reply p (p.setLocal d)
  clearLocal p := Result.reply p p.clearLocal
  rollback p := Result.reply p p.rollback
  setRemote p d := Result.reply p (p.setRemote d)
  addCandidate p c := Result.reply p (p.addCandidate c)
  descriptions := descriptions
  signaling := signaling
  ice := ice
  close := close
  Network := IceState
  network := setIce
  descriptions_network _ _ := rfl

@[simp] theorem connection_createOffer (p : Peer) :
    Connection.createOffer p = ⟨p.createOffer, p, []⟩ := rfl

@[simp] theorem connection_createAnswer (p : Peer) :
    Connection.createAnswer p = ⟨p.createAnswer, p, []⟩ := rfl

@[simp] theorem connection_setLocal (p : Peer) (d : Description) :
    Connection.setLocal p d = Result.reply p (p.setLocal d) := rfl

@[simp] theorem connection_clearLocal (p : Peer) :
    Connection.clearLocal p = Result.reply p p.clearLocal := rfl

@[simp] theorem connection_rollback (p : Peer) :
    Connection.rollback p = Result.reply p p.rollback := rfl

@[simp] theorem connection_setRemote (p : Peer) (d : Description) :
    Connection.setRemote p d = Result.reply p (p.setRemote d) := rfl

@[simp] theorem connection_addCandidate (p : Peer) (c : Candidate) :
    Connection.addCandidate p c = Result.reply p (p.addCandidate c) := rfl

@[simp] theorem connection_descriptions (p : Peer) : Connection.descriptions p = p.descriptions := rfl

@[simp] theorem connection_signaling (p : Peer) : Connection.signaling p = p.signaling := rfl

end Peer

end Parley
