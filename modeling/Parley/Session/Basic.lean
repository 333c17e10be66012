import Parley.Router.Basic
import Parley.Session.Event

/-!
# Topic sessions

A session is the membership in one topic. It follows the protocol of the topic: it asks for the
roster when the subscription is acknowledged, and for the first page of the backlog when its own
request for the roster is answered. Whatever it learns it reports to its receivers; frames that are
not part of the protocol are reported as they are. What a session wants sent is returned, in order,
and not stored by the server.
-/

namespace Parley

structure Receiver where
  /-- Events that were not picked up. -/
  mailbox : List SessionEvent := []
  /-- Whether the session still reports to it; its stream is over if not. -/
  attached : Bool := true
  /-- Whether it was given up by whoever held it. -/
  dropped : Bool := false
  deriving DecidableEq, Repr, Inhabited

namespace Receiver

/-- One event for the receiver; one that was given up is let go. -/
def push (e : SessionEvent) (r : Receiver) : Receiver :=
  if !r.attached then r
  else if r.dropped then { r with attached := false }
  else { r with mailbox := r.mailbox ++ [e] }

/-- The stream ends after what is in the mailbox. -/
def detach (r : Receiver) : Receiver := { r with attached := false }

end Receiver

structure Session where
  topic : String
  pageSize : UInt32
  /-- None once the session was closed. -/
  subscription : Option Subscription
  /-- The server has this client on the topic. -/
  subscribed : Bool := false
  roster : Roster := {}
  /-- The last page of the backlog that was asked for; 0 if none was. -/
  page : UInt32 := 0
  moreAvailable : Bool := false
  receivers : List Receiver := [{}]
  deriving DecidableEq, Repr

namespace Session

def isLive (s : Session) : Bool := s.subscription.isSome

/-- Reports to every receiver. -/
def emit (e : SessionEvent) (s : Session) : Session :=
  { s with receivers := s.receivers.map (Receiver.push e) }

/-- Whether someone is left to report to. -/
def isHeard (s : Session) : Bool := s.receivers.any (·.attached)

def rosterRequest : Event := .subscribers .empty

/-- Asks for a page of the backlog. -/
def pageRequest (s : Session) (page : UInt32) : Event := .loadMessages ⟨page, s.pageSize⟩

/-- A session over a subscription. The first one on a topic joins it; a later one finds the client
on the topic already and asks for the roster. -/
def create (topic : String) (pageSize : UInt32) (subscription : Subscription) :
    Session × List Event :=
  let s : Session := { topic, pageSize, subscription := some subscription }
  if subscription.first then (s, [.subscribe])
  else ({ s with subscribed := true }, [rosterRequest])

/-- The scoped id in the id of a socket: what stands before the first colon. -/
def scopedId (socketId : String) : String := String.ofList (socketId.toList.takeWhile (· != ':'))

/-- Takes in a message on the topic. `me` is the own connection id; new participants get their
colors from the palette. -/
def hear (me : Option String) (palette : Palette) (m : Message) (s : Session) :
    Session × Palette × List Event :=
  match m.event with
  | .subscribe => (({ s with subscribed := true }).emit .subscribed, palette, [rosterRequest])
  | .subscribers records =>
    let (roster, palette, _) := s.roster.merge palette records.values
    let s := ({ s with roster }).emit (.rosterUpdated roster)
    if me = some m.sender then
      ({ s with page := 1, moreAvailable := false }, palette, [s.pageRequest 1])
    else (s, palette, [])
  | .departed socketId =>
    let scid := scopedId socketId
    (({ s with roster := (s.roster.markOffline scid).1 }).emit (.participantLeft scid), palette, [])
  | .hasMoreMessages => (({ s with moreAvailable := true }).emit .moreHistory, palette, [])
  | _ => (s.emit (.message m), palette, [])

/-- Asks for the next page of the backlog. -/
def loadMore (s : Session) : Session × Event :=
  let page := s.page + 1
  ({ s with page, moreAvailable := false }, s.pageRequest page)

/-- Adds a receiver for the events from now on. -/
def addReceiver (s : Session) : Session := { s with receivers := s.receivers ++ [{}] }

/-- Gives up a receiver; false if there is none or it was given up before. -/
def dropReceiver (nth : Nat) (s : Session) : Bool × Session :=
  match s.receivers[nth]? with
  | some r =>
    if r.dropped then (false, s)
    else
      let r := { r with dropped := true, mailbox := [] }
      (true, { s with receivers := s.receivers.set nth r })
  | none => (false, s)

/-- The session ends, and every stream with it. -/
def close (s : Session) : Session :=
  { s with subscription := none, receivers := s.receivers.map Receiver.detach }

/-- The mailboxes after their events were picked up. -/
def emptyMailboxes (s : Session) : Session :=
  { s with receivers := s.receivers.map fun r => { r with mailbox := [] } }

end Session

end Parley
