import Parley.Client.Inbound

/-!
# The supervisor

A client that is connected has a supervisor, which goes round: it asks for a ticket, opens a socket
with it, stays with the socket until it ends, and asks the reconnect policy what to do then. It
gives up when no ticket is to be had, and when a socket cannot be opened although no call is going
on; both end with a notice that stays. A request to end is seen whenever the supervisor waits for
something else than a ticket.

The steps here are those of a client that has one supervisor at a time, as it has if nobody connects
before a logout has come to its end. How supervisors are started and waited for, and what they do to
each other when there are several, is up to `Parley.Client.Manager`.
-/

namespace Parley.Client

variable {σ : Type} [MarkerStore σ]

/-- What a client reacts to. An input that does not fit the phase has no effect. -/
inductive Input where
  | connect
  | logout
  | focus (focused : Bool)
  | ticket (r : Except TicketError Ticket)
  | opened
  /-- The socket could not be opened, be it because its address is of no use. -/
  | refused
  | received (bytes : List UInt8)
  /-- The oldest text that waits is written. -/
  | flush
  | lost
  | elapsed
  /-- The supervisor sees the request to end. -/
  | noticed
  | transmit (store : Bool) (topic : String) (e : Event)
  | addHook (name topic : String) (outcome : Outcome)
  | removeHook (name : String)
  | dispatch (m : Message)
  | openSession (topic : String) (pageSize : UInt32)
  | closeSession (index : Nat)
  | loadMore (index : Nat)
  deriving Repr

/-! ## Rounds -/

def finish (c : Client σ) : Client σ :=
  { c with outbound := none, state := .closed, phase := .idle }

/-- Gives up for good. -/
def giveUp (c : Client σ) : Step σ := (c.finish, [.tell (.notice .connectionLost)])

def beginRound (c : Client σ) : Step σ :=
  ({ c with state := if c.openedBefore then .reconnecting else .connecting, phase := .asking },
    [.askTicket])

/-- Asks the policy what to do after a socket ended or could not be opened. -/
def afterClose (failedToOpen : Bool) (c : Client σ) : Step σ :=
  if c.shutdown then (c.finish, [])
  else
    let (decision, policy, markers) := c.policy.onClose c.markers
    let c := { c with policy, markers }
    let told := decision.notice.toList.map fun n => ClientEffect.tell (.notice n)
    Step.andThen (c, told) fun c =>
      match decision.action with
      | .stay => if failedToOpen then c.giveUp else (c.finish, [])
      | .immediate => c.beginRound
      | .after milliseconds =>
        ({ c with state := .reconnecting, phase := .waiting }, [.wait milliseconds])

/-! ## Steps -/

def connect (c : Client σ) : Step σ :=
  match c.phase with
  | .idle => ({ c with shutdown := false, openedBefore := false }).beginRound
  | _ => (c, [])

/-- Clears the marker and asks the supervisor to end. -/
def logout (c : Client σ) : Client σ :=
  let c := { c with markers := MarkerStore.store .absent c.markers, shutdown := true }
  match c.phase with
  | .idle => c.finish
  | _ => c

def focus (focused : Bool) (c : Client σ) : Client σ :=
  { c with markers := ReconnectPolicy.onFocus focused c.isOpen c.markers }

def onTicket (r : Except TicketError Ticket) (c : Client σ) : Step σ :=
  match c.phase, r with
  | .asking, .error _ => c.giveUp
  | .asking, .ok t => ({ c with phase := .opening t }, [.openSocket (c.config.socketTarget? t)])
  | _, _ => (c, [])

/-- Joins every topic that has a listener. -/
def resubscribe (c : Client σ) : Client σ :=
  c.router.topics.keys.foldl (fun c topic => (c.transmit false topic .subscribe).2) c

/-- A socket whose address is of no use never opens. -/
def onOpened (c : Client σ) : Step σ :=
  match c.phase with
  | .opening t =>
    if (c.config.socketTarget? t).isNone then (c, [])
    else
      let c := { c with connectionId := some t.connectionId, outbound := some [] }
      let c := { c.resubscribe with state := .isOpen }
      let (notice, policy, markers) := c.policy.onOpen c.markers
      ({ c with policy, markers, openedBefore := true, phase := .running t },
        (notice.toList.map fun n => .tell (.notice n)) ++ [.tell (.connected t.connectionId)])
  | _ => (c, [])

def onRefused (c : Client σ) : Step σ :=
  match c.phase with
  | .opening _ => c.afterClose true
  | _ => (c, [])

def onReceived (bytes : List UInt8) (c : Client σ) : Step σ :=
  match c.phase with
  | .running _ => c.receive bytes
  | _ => (c, [])

def onFlush (c : Client σ) : Step σ :=
  match c.outbound with
  | some (text :: rest) => ({ c with outbound := some rest }, [.write text])
  | _ => (c, [])

def onLost (c : Client σ) : Step σ :=
  match c.phase with
  | .running _ =>
    Step.andThen ({ c with outbound := none }, [.tell .disconnected]) (afterClose false)
  | _ => (c, [])

def onElapsed (c : Client σ) : Step σ :=
  match c.phase with
  | .waiting => c.beginRound
  | _ => (c, [])

def onNoticed (c : Client σ) : Step σ :=
  if !c.shutdown then (c, [])
  else
    match c.phase with
    | .opening _ | .waiting => (c.finish, [])
    | .running _ => (c.finish, [.closeSocket, .tell .disconnected])
    | _ => (c, [])

def step (c : Client σ) : Input → Step σ
  | .connect => c.connect
  | .logout => (c.logout, [])
  | .focus focused => (c.focus focused, [])
  | .ticket r => c.onTicket r
  | .opened => c.onOpened
  | .refused => c.onRefused
  | .received bytes => c.onReceived bytes
  | .flush => c.onFlush
  | .lost => c.onLost
  | .elapsed => c.onElapsed
  | .noticed => c.onNoticed
  | .transmit store topic e => ((c.transmit store topic e).2, [])
  | .addHook name topic outcome => ((c.addHook name topic outcome).2, [])
  | .removeHook name => ((c.removeHook name).2, [])
  | .dispatch m => ((Client.dispatch m c).2, [])
  | .openSession topic pageSize => ((c.openSession topic pageSize).2, [])
  | .closeSession index => (c.closeSession index, [])
  | .loadMore index => ((c.loadMore index).2, [])

/-- What happens to a client: it gets an input, or the world around it changes. -/
inductive Turn (σ : Type) where
  | input (i : Input)
  | clock (now : Stamp)
  /-- Someone else wrote the marker. -/
  | markers (m : σ)
  deriving Repr

/-- Whether a turn is reported to the supervisor, by the issuer, the socket or its clock. -/
def Turn.isReport : Turn σ → Bool
  | .input (.ticket _) | .input .opened | .input .refused | .input (.received _) | .input .lost
  | .input .elapsed | .input .noticed => true
  | _ => false

def turn (c : Client σ) : Turn σ → Step σ
  | .input i => c.step i
  | .clock now => ({ c with now }, [])
  | .markers markers => ({ c with markers }, [])

def run (c : Client σ) : List (Turn σ) → Step σ
  | [] => (c, [])
  | t :: rest => (c.turn t).andThen fun c => c.run rest

end Parley.Client
