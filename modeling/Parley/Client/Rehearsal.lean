import Parley.Client.Manager

/-!
# Rehearsals

A client, or something that holds one, against a server that follows a script: it gives out tickets
in turn, refuses some sockets and takes in whatever is written. Time does not matter to it, so that
a delay passes at once unless one wants to look at the client while it waits.

The server opens no socket whose address is of no use, because it never hears of it, and none for a
request that is out of form or too long.
-/

namespace Parley

/-- Something that holds a client and passes on what concerns it. -/
class Host (τ : Type) (σ : outParam Type) where
  client : τ → Client σ
  feed : Client.Input → τ → τ × List ClientEffect

instance {σ : Type} [MarkerStore σ] : Host (Client σ) σ where
  client := id
  feed i c := c.step i

namespace Manager

variable {σ : Type}

/-- The client as the supervisor that was started last finds it. -/
def client (m : Manager σ) : Client σ :=
  match m.supervisors.getLast? with
  | none => m.shared
  | some s => m.view s (.input .noticed)

variable [MarkerStore σ]

/-- What is reported is reported to that supervisor. Logouts go on as soon as they can. -/
def feed (i : Client.Input) (m : Manager σ) : Step σ :=
  let (m, effects) := m.turn (m.supervisors.length - 1) (.input i)
  (m.awaited.foldl (fun m n => m.returned n) m, effects)

instance : Host (Manager σ) σ where
  client := client
  feed := feed

end Manager

structure Rehearsal (τ : Type) where
  host : τ
  /-- What the issuer answers, in turn. -/
  tickets : List (Except TicketError Ticket) := []
  /-- What the issuer answers after that. -/
  otherwise : Except TicketError Ticket := .error (.unavailable "")
  /-- How many sockets are still refused. -/
  refusals : Nat := 0
  /-- How often a ticket was asked for. -/
  asked : Nat := 0
  /-- What the sockets that opened asked for, since the log was last cleared. -/
  opened : List String := []
  /-- The frames that arrived since then. -/
  received : List Frame := []
  /-- What the client told since then. -/
  told : List ClientEvent := []

namespace Rehearsal

variable {τ σ : Type} [Host τ σ]

def client (r : Rehearsal τ) : Client σ := Host.client r.host

def carryOut (r : Rehearsal τ) : ClientEffect → Rehearsal τ
  | .askTicket => { r with asked := r.asked + 1 }
  | .write text =>
    match Frame.decodeText text with
    | .ok f => { r with received := r.received ++ [f] }
    | .error _ => r
  | .tell e => { r with told := r.told ++ [e] }
  | .openSocket _ | .closeSocket | .wait _ => r

def feed (i : Client.Input) (r : Rehearsal τ) : Rehearsal τ :=
  let (host, effects) := Host.feed i r.host
  effects.foldl carryOut { r with host }

def flush (r : Rehearsal τ) : Rehearsal τ :=
  Nat.repeat (feed .flush) ((r.client.outbound.getD []).length) r

/-- The longest request that the server takes in, in bytes. -/
def requestLimit : Nat := 65536

/-- The length of a request for a socket apart from its target and the name of the host. -/
def requestFrame : Nat := 138

/-- Whether the server takes in a request for this target. -/
def admits (r : Rehearsal τ) (target : String) : Bool :=
  target.startsWith "/" && !target.contains '\x7f' &&
    requestFrame + r.client.config.host.utf8ByteSize + target.utf8ByteSize ≤ requestLimit

/-- The server answers a request for a socket. -/
def onRequest (target : String) (r : Rehearsal τ) : Rehearsal τ :=
  match r.refusals with
  | 0 =>
    if r.admits target then ({ r with opened := r.opened ++ [target] }).feed .opened
    else r.feed .refused
  | n + 1 => ({ r with refusals := n }).feed .refused

/-- What happens next without anyone doing anything; none if nothing does. -/
def next? (stayWaiting : Bool) (r : Rehearsal τ) : Option (Rehearsal τ) :=
  let c := r.client
  match c.phase with
  | .idle => none
  | .asking =>
    match r.tickets with
    | [] => some (r.feed (.ticket r.otherwise))
    | t :: rest => some (({ r with tickets := rest }).feed (.ticket t))
  | .opening t =>
    if c.shutdown then some (r.feed .noticed)
    else
      match c.config.socketTarget? t with
      | none => some (r.feed .refused)
      | some target => some (r.onRequest target)
  | .running _ => if c.shutdown then some (r.feed .noticed) else none
  | .waiting =>
    if c.shutdown then some (r.feed .noticed)
    else if stayWaiting then none
    else some (r.feed .elapsed)

/-- Lets at most so many things happen. -/
def advance (stayWaiting : Bool) : Nat → Rehearsal τ → Rehearsal τ
  | 0, r => r
  | n + 1, r =>
    match r.next? stayWaiting with
    | none => r
    | some r => advance stayWaiting n r

/-- Lets happen what happens until the client is at rest. A round takes three things at most, and
only a refusal leads to a further round, which takes a further ticket. -/
def settle (stayWaiting : Bool) (r : Rehearsal τ) : Rehearsal τ :=
  (r.advance stayWaiting (3 * (r.refusals + r.tickets.length + 2))).flush

def hasSocket (r : Rehearsal τ) : Bool :=
  match r.client.phase with
  | .running _ => true
  | _ => false

def clearLog (r : Rehearsal τ) : Rehearsal τ := { r with opened := [], received := [], told := [] }

end Rehearsal

end Parley
