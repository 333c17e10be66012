import Parley.Action
import Parley.Participant
import Parley.Signal
import Parley.Table

/-!
# Events

The typed view of a frame's payload. Every action has one kind of event, and `Event.action` gives
the action back; the whiteboard actions share one kind, which keeps its action.
-/

namespace Parley

/-- Asks for one page of a topic's backlog. -/
structure PageRequest where
  page : UInt32
  pageSize : UInt32
  deriving DecidableEq, Repr, Inhabited

inductive TextStyle where
  /-- Spoken and written down by a machine. -/
  | utterance
  /-- Typed. -/
  | written
  deriving DecidableEq, Repr, Inhabited

structure TextMessage where
  message : String
  style : TextStyle := .utterance
  deriving DecidableEq, Repr, Inhabited

/-- What a frame says. A call event names the peer it is for, or none for everyone on the topic. -/
inductive Event where
  | pingChannel (target : Option String)
  | startStream (target : Option String)
  | stopStream (target : Option String)
  | streamInquiry (target : Option String)
  /-- A socket left; its id is `scoped id:connection id`. -/
  | departed (socketId : String)
  | subscribeTopic (data : Json)
  | loadMessages (page : PageRequest)
  | hasMoreMessages
  | subscribe
  | unsubscribe
  /-- The roster by scoped id; empty when it is asked for. -/
  | subscribers (roster : Table Participant)
  | subscribersPresent (data : Json)
  | text (t : TextMessage)
  | signal (e : Envelope)
  | whiteboard (action : Action) (data : Json)
  | subscribeInit (data : Json)
  | roleCall
  deriving DecidableEq, Repr, Inhabited

namespace Event

def action : Event → Action
  | pingChannel _ => .pingChannel
  | startStream _ => .startStream
  | stopStream _ => .stopStream
  | streamInquiry _ => .streamInquiry
  | departed _ => .unsubscribeTopic
  | subscribeTopic _ => .subscribeTopic
  | loadMessages _ => .loadMessages
  | hasMoreMessages => .hasMoreMessages
  | subscribe => .subscribe
  | unsubscribe => .unsubscribe
  | subscribers _ => .loadSubscribers
  | subscribersPresent _ => .subscribersPresent
  | text _ => .text
  | signal _ => .rtc
  | whiteboard a _ => a
  | subscribeInit _ => .subscribeInit
  | roleCall => .roleCall

/-- The peer that a call event or a signal is for. -/
def target : Event → Option String
  | pingChannel t | startStream t | stopStream t | streamInquiry t => t
  | signal e => e.target
  | _ => none

/-- Why a payload cannot be read or an event cannot be built. -/
inductive Error where
  | badJson (action : Action)
  | notWhiteboard (action : Action)
  deriving DecidableEq, Repr

def Error.message : Error → String
  | badJson a => "invalid " ++ a.title ++ " payload"
  | notWhiteboard a => a.title ++ " does not carry whiteboard data"

/-- A whiteboard event, for whiteboard actions only. -/
def ofWhiteboard (a : Action) (data : Json) : Except Error Event :=
  if a.isWhiteboard then .ok (.whiteboard a data) else .error (.notWhiteboard a)

end Event

end Parley
