import Parley.Call.Negotiation
import Parley.Session.Event

/-!
# The steps of a call

A call reacts to what its session reports, to the person who starts and leaves it, to the signals of
its own connections and to the answers of the devices. Each of these is one step. A call that was
torn down takes no more part: it only gives back the media that still arrive.
-/

namespace Parley.Call

variable {κ : Type}

inductive Input where
  | session (e : SessionEvent)
  | start (video : Bool)
  | leave
  | teardown
  | signal (s : PeerSignal)
  /-- The devices answered a request made in an epoch. -/
  | media (epoch : Nat) (result : Except MediaError MediaStream)
  deriving Repr

/-! ## What the session reports -/

/-- Whether a message is about the calls of this client. -/
def concerns (s : Setting κ) (m : Message) : Bool :=
  if s.me = some m.sender then false
  else
    match m.target with
    | some target => s.me = some target
    | none =>
      match m.action with
      | .streamInquiry | .pingChannel | .stopStream => true
      | _ => false

variable [Connection κ]

def onMessage (s : Setting κ) (m : Message) (c : Call κ) : Step κ :=
  if !concerns s m then (c, [])
  else
    match m.event with
    | .pingChannel _ => if c.held.isSome then c.invite s m.sender else (c, [])
    | .streamInquiry _ => if c.links.contains m.sender then (c, []) else c.invite s m.sender
    | .startStream _ => c.offer s m.sender
    | .stopStream _ =>
      match c.links.find? m.sender with
      | none => (c, [])
      | some l =>
        let (l, cleared) := l.clearMedia
        let c := c.put m.sender l
        (c, if cleared then c.tellStreams else [])
    | .signal e =>
      match e.sdp, e.ice with
      | some d, _ => c.receiveDescription s m.sender d
      | none, some candidate => c.receiveCandidate m.sender candidate
      | none, none => (c, [])
    | _ => (c, [])

/-- Once the subscription is acknowledged, the first roster with another participant makes the call
ask whether anyone streams. -/
def onSession (s : Setting κ) (e : SessionEvent) (c : Call κ) : Step κ :=
  if c.ended then (c, [])
  else
    match e with
    | .subscribed => ({ c with subscribed := true }, [])
    | .rosterUpdated r =>
      if c.subscribed ∧ c.pinged = false ∧ 2 ≤ r.size then
        ({ c with pinged := true }, [.send (.pingChannel none)])
      else (c, [])
    | .message m => c.onMessage s m
    | .participantLeft _ | .moreHistory => (c, [])

/-! ## What the connections report -/

def onSignal (signal : PeerSignal) (c : Call κ) : Step κ :=
  if c.ended then (c, [])
  else
    match c.links.find? signal.remote with
    | none => (c, [])
    | some l =>
      if l.serial ≠ signal.serial then (c, [])
      else
        match signal.event with
        | .gathered candidate => c.putReady signal.remote (l.gather candidate)
        | .track t =>
          let c := c.put signal.remote (l.addMedia t)
          (c, c.tellStreams)
        | .iceChanged state => if state.isDead then c.remove signal.remote else (c, [])

/-! ## Local media -/

def startMedia (video : Bool) (c : Call κ) : Step κ :=
  if c.ended ∨ c.control ≠ .start ∨ c.held.isSome then (c, [])
  else (c.setControl .pending).andThen fun c => (c, [.acquire video c.epoch])

/-- Sends an offer to every participant in turn. -/
def offerAll (s : Setting κ) : List String → Call κ → Step κ
  | [], c => (c, [])
  | remote :: rest, c => (c.offer s remote).andThen (offerAll s rest)

/-- Publishes a stream: every link gets its tracks and a new offer. -/
def publish (s : Setting κ) (stream : MediaStream) (c : Call κ) : Step κ :=
  let c := { c with links := c.links.map fun _ l => l.attach stream, held := some stream }
  (offerAll s c.links.keys c).andThen fun c =>
    Step.andThen (c, [.send (.streamInquiry none)]) (setControl .stop)

def onMedia (s : Setting κ) (epoch : Nat) (result : Except MediaError MediaStream) (c : Call κ) :
    Step κ :=
  if c.ended ∨ epoch ≠ c.epoch then
    match result with
    | .ok stream => (c, releaseAll stream)
    | .error _ => (c, [])
  else
    match result with
    | .error e => (c.setControl .start).andThen fun c => (c, [.tell (.notice (.failure e.message))])
    | .ok stream => c.publish s stream

/-- Takes the published stream back from the links and stops its tracks. -/
def withdraw (c : Call κ) : Step κ :=
  match c.held with
  | none => (c, [])
  | some stream =>
    ({ c with held := none, links := c.links.map fun _ l => l.detach stream }, releaseAll stream)

/-- Tells everyone that nothing is published here any more. -/
def farewell (c : Call κ) : Step κ := Step.andThen (c, [.send (.stopStream none)]) (setControl .start)

/-- Stops publishing; media that were asked for before are not used. -/
def leave (c : Call κ) : Step κ :=
  if c.ended then (c, []) else (withdraw { c with epoch := c.epoch + 1 }).andThen farewell

/-- Ends the call: every link is closed and the published stream stopped. -/
def teardown (c : Call κ) : Step κ :=
  if c.ended then (c, [])
  else
    let released := releaseAll (c.held.getD {})
    let c := { c with
      ended := true, epoch := c.epoch + 1, links := .empty, held := none,
      retired := c.retired ++ c.links.values.map Link.close }
    Step.andThen (c, released) fun c => (c.setControl .start).andThen fun c => (c, c.tellStreams)

/-! ## All steps -/

def step (s : Setting κ) (c : Call κ) : Input → Step κ
  | .session e => c.onSession s e
  | .start video => c.startMedia video
  | .leave => c.leave
  | .teardown => c.teardown
  | .signal signal => c.onSignal signal
  | .media epoch result => c.onMedia s epoch result

end Parley.Call
