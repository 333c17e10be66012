import Parley.Action

/-!
# Frames

A frame is what one socket message carries: an action, two flags and four texts. The payload is
kept as text here; `Parley.Event` gives it a type.
-/

namespace Parley

inductive FrameField where
  | action
  | store
  | historical
  | timestamp
  | topic
  | sender
  | payload
  deriving DecidableEq, Repr

def FrameField.name : FrameField → String
  | action => "action"
  | store => "store"
  | historical => "historical"
  | timestamp => "timestamp"
  | topic => "topic"
  | sender => "sender"
  | payload => "payload"

/-- Why a frame cannot be written or bytes cannot be read as one. -/
inductive FrameError where
  | fieldTooLong (field : FrameField) (length : Nat)
  | truncated (field : FrameField) (declared remaining : Nat)
  | badLength (field : FrameField)
  | badUtf8 (field : FrameField)
  | unknownAction (text : String)
  deriving DecidableEq, Repr

def FrameError.message : FrameError → String
  | fieldTooLong f n =>
    f.name ++ " is " ++ toString n ++ " bytes, larger than a frame field can hold"
  | truncated f declared remaining =>
    "truncated " ++ f.name ++ ": needs " ++ toString declared ++ " bytes, " ++ toString remaining ++
      " left"
  | badLength f => f.name ++ " has a malformed length prefix"
  | badUtf8 f => f.name ++ " is not valid UTF-8"
  | unknownAction text => "unknown action code '" ++ text ++ "'"

structure Frame where
  action : Action
  /-- Asks the server to keep the frame in the topic's backlog. -/
  store : Bool := false
  /-- Set by the server on frames from the backlog. -/
  historical : Bool := false
  timestamp : String := ""
  topic : String := ""
  /-- The connection id of the socket that sent the frame. -/
  sender : String := ""
  payload : String := ""
  deriving DecidableEq, Repr, Inhabited

namespace Frame

/-- The payload of a heartbeat. -/
def ping : String := "PING"

/-- The answer to a heartbeat. -/
def pong : Frame := { action := .pingChannel, payload := "PONG" }

/-- Whether the frame is a heartbeat of the server and no message to a topic. -/
def isHeartbeat (f : Frame) : Bool := f.payload == ping

end Frame

end Parley
