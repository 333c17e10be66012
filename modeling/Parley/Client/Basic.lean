import Parley.Config
import Parley.Frame.Codec
import Parley.Reconnect
import Parley.Router.Dispatch
import Parley.Session.Basic
import Parley.Time.Stamp

/-!
# Clients

A client keeps one socket to its server, over which all its topics run. It holds the listeners of
the topics, the sessions, and what its supervisor needs to know about the socket. What it wants done
outside of it, in order, are its effects. Frames to be sent wait until they are written: a client
that has no socket accepts none.
-/

namespace Parley

inductive ConnectionState where
  | connecting
  | isOpen
  | reconnecting
  | closed
  deriving DecidableEq, Repr, Inhabited

def ConnectionState.title : ConnectionState → String
  | connecting => "Connecting"
  | isOpen => "Open"
  | reconnecting => "Reconnecting"
  | closed => "Closed"

inductive Listener where
  | session (index : Nat)
  /-- Anyone else, by name, and how every call of it ends. -/
  | hook (name : String) (outcome : Outcome)
  deriving DecidableEq, Repr, Inhabited

inductive Phase where
  /-- There is no supervisor. -/
  | idle
  /-- A ticket was asked for. -/
  | asking
  /-- A socket is being opened. -/
  | opening (t : Ticket)
  /-- The socket is open. -/
  | running (t : Ticket)
  /-- The delay before the next attempt passes. -/
  | waiting
  deriving DecidableEq, Repr, Inhabited

/-- Whether the socket is open. -/
def Phase.isRunning : Phase → Bool
  | .running _ => true
  | _ => false

inductive ClientEffect where
  | askTicket
  /-- Asks the server for a socket; without a target, its address is of no use. -/
  | openSocket (target : Option String)
  | write (text : String)
  | closeSocket
  | tell (e : ClientEvent)
  /-- Lets the client know when some time has passed. -/
  | wait (milliseconds : Nat)
  deriving DecidableEq, Repr

structure Client (σ : Type) where
  config : ClientConfig
  markers : σ
  policy : ReconnectPolicy
  router : Router Listener := {}
  /-- The connection id of the last socket that opened. -/
  connectionId : Option String := none
  heartbeat : Option Stamp := none
  state : ConnectionState := .closed
  /-- Texts that wait to be written, oldest first; none without a socket. -/
  outbound : Option (List String) := none
  phase : Phase := .idle
  /-- Whether a socket opened since the supervisor was started. -/
  openedBefore : Bool := false
  /-- Asks the supervisor to end. -/
  shutdown : Bool := false
  sessions : List Session := []
  palette : Palette := {}
  hooks : Table Subscription := .empty
  /-- The hooks that were called, with the messages, in order. -/
  called : List (String × Message) := []
  now : Stamp := default

namespace Client

variable {σ : Type}

def create (config : ClientConfig) (markers : σ) : Client σ :=
  { config, markers, policy := { delay := config.reconnectDelay } }

/-- A client after a step, and what it wants done. -/
abbrev Step (σ : Type) := Client σ × List ClientEffect

def Step.andThen (s : Step σ) (f : Client σ → Step σ) : Step σ :=
  let t := f s.1
  (t.1, s.2 ++ t.2)

def isOpen (c : Client σ) : Bool := c.state = .isOpen

/-! ## Sending -/

/-- The frame of an event, sent now. -/
def frame (c : Client σ) (store : Bool) (topic : String) (e : Event) : Frame where
  action := e.action
  store := store
  timestamp := c.now.rfc3339
  topic := topic
  sender := c.connectionId.getD ""
  payload := e.payload

/-- Sends an event on a topic; false, and nothing is sent, without a socket or if the frame cannot
be written. -/
def transmit (c : Client σ) (store : Bool) (topic : String) (e : Event) : Bool × Client σ :=
  match c.outbound, (c.frame store topic e).encode with
  | some texts, .ok text => (true, { c with outbound := some (texts ++ [text]) })
  | _, _ => (false, c)

/-- Sends events on a topic, none of them to be stored. -/
def transmitAll (c : Client σ) (topic : String) (es : List Event) : Client σ :=
  es.foldl (fun c e => (c.transmit false topic e).2) c

/-! ## Listeners -/

/-- Subscribes a hook under its name; the earlier one of that name is given up afterwards. -/
def addHook (c : Client σ) (name topic : String) (outcome : Outcome) : Subscription × Client σ :=
  let (s, router) := c.router.subscribe topic (.hook name outcome)
  let router := match c.hooks.find? name with
    | some earlier => (router.release earlier).2
    | none => router
  (s, { c with router, hooks := c.hooks.insert name s })

/-- Gives up a hook; true if it was the last listener of its topic, none if there is no such hook.
-/
def removeHook (c : Client σ) (name : String) : Option Bool × Client σ :=
  match c.hooks.find? name with
  | none => (none, c)
  | some s =>
    let (last, router) := c.router.release s
    (some last, { c with router, hooks := c.hooks.erase name })

/-! ## Sessions -/

/-- Opens a session, whose number is returned. -/
def openSession (c : Client σ) (topic : String) (pageSize : UInt32) : Nat × Client σ :=
  let index := c.sessions.length
  let (subscription, router) := c.router.subscribe topic (.session index)
  let (session, requests) := Session.create topic pageSize subscription
  (index, ({ c with router, sessions := c.sessions ++ [session] }).transmitAll topic requests)

/-- Closes a session; the last listener of a topic leaves it. -/
def closeSession (c : Client σ) (index : Nat) : Client σ :=
  match c.sessions[index]? with
  | none => c
  | some s =>
    match s.subscription with
    | none => c
    | some subscription =>
      let (last, router) := c.router.release subscription
      let c := { c with router, sessions := c.sessions.set index s.close }
      c.transmitAll s.topic (if last then [.unsubscribe] else [])

/-- Asks for the next page of a session's backlog; the page, if there is such a session. -/
def loadMore (c : Client σ) (index : Nat) : Option UInt32 × Client σ :=
  match c.sessions[index]? with
  | none => (none, c)
  | some s =>
    let (s, request) := s.loadMore
    (some s.page, ({ c with sessions := c.sessions.set index s }).transmitAll s.topic [request])

/-- Sends an event on the topic of a session. -/
def sendOn (c : Client σ) (index : Nat) (store : Bool) (e : Event) : Bool × Client σ :=
  match c.sessions[index]? with
  | none => (false, c)
  | some s => c.transmit store s.topic e

def updateSession (c : Client σ) (index : Nat) (f : Session → Session) : Client σ :=
  { c with sessions := c.sessions.modify index f }

end Client

end Parley
