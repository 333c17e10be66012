import Parley.Client.Supervisor

/-!
# The manager

All handles of a client share one manager: the client itself, the supervisors that were started for
it, and a slot with the one that was started last. Each supervisor takes its steps as if it were the
only one (`Client.step`), but on a client that it shares with the others.

A request to connect has no effect while the supervisor in the slot goes on. A logout takes that
supervisor out of the slot and then waits for it to end, so that a request to connect finds no
supervisor meanwhile, and starts another one beside it.
-/

namespace Parley

structure Supervisor where
  phase : Phase := .asking
  /-- Whether a socket opened since it was started. -/
  openedBefore : Bool := false
  /-- Whether a request to end was made, or taken back, since it was started. It sees either
  whenever it waits for something else than a ticket, and ends. -/
  alerted : Bool := false
  /-- Texts that wait for its socket in a channel that is not the client's any more. -/
  left : List String := []
  deriving DecidableEq, Repr

structure Manager (σ : Type) where
  /-- What the supervisors share. Each has a phase of its own; the one here is that of the supervisor
  that took the last step. -/
  shared : Client σ
  /-- The supervisors that were started, in order, and those among them that ended. -/
  supervisors : List Supervisor := []
  slot : Option Nat := none
  /-- The supervisors for which logouts wait. -/
  awaited : List Nat := []
  /-- The supervisor that opened the last channel of the client. -/
  writer : Nat := 0

namespace Manager

variable {σ : Type}

def create (config : ClientConfig) (markers : σ) : Manager σ :=
  { shared := .create config markers }

/-- A manager after a step, and what it wants done. -/
abbrev Step (σ : Type) := Manager σ × List ClientEffect

/-- The phase of a supervisor; one that was never started is idle. -/
def phase (m : Manager σ) (n : Nat) : Phase := ((m.supervisors[n]?).map (·.phase)).getD .idle

def isLive (m : Manager σ) (n : Nat) : Bool := m.phase n ≠ .idle

/-- Whether what is sent waits for the socket of a supervisor. -/
def writes (m : Manager σ) (n : Nat) : Bool := m.shared.outbound.isSome && m.writer = n

/-- Sends an event on a topic, as a client does. -/
def transmit (m : Manager σ) (store : Bool) (topic : String) (e : Event) : Bool × Manager σ :=
  let (sent, c) := m.shared.transmit store topic e
  (sent, { m with shared := c })

/-! ## Connecting and closing -/

/-- The supervisors once the client gives up its channel: what waits in it is left to the one that
opened it. -/
def setAside (m : Manager σ) : List Supervisor :=
  match m.shared.outbound with
  | none => m.supervisors
  | some texts => m.supervisors.modify m.writer fun s => { s with left := texts }

def close (m : Manager σ) : Manager σ :=
  { m with shared := m.shared.finish, supervisors := m.setAside }

def alertAll (m : Manager σ) : List Supervisor :=
  m.supervisors.map fun s => { s with alerted := true }

def connect (m : Manager σ) : Step σ :=
  if m.slot.any m.isLive then (m, [])
  else
    let (shared, effects) :=
      ({ m.shared with shutdown := false, openedBefore := false } : Client σ).beginRound
    ({ m with
        shared, supervisors := m.alertAll ++ [{}], slot := some m.supervisors.length }, effects)

/-- A logout goes on when the supervisor that it waits for has ended. -/
def returned (n : Nat) (m : Manager σ) : Manager σ :=
  if n ∈ m.awaited ∧ m.isLive n = false then { m.close with awaited := m.awaited.erase n } else m

/-- Whoever waits for a logout gives it up. -/
def abandoned (n : Nat) (m : Manager σ) : Manager σ := { m with awaited := m.awaited.erase n }

/-! ## Steps of one supervisor -/

/-- The client as a supervisor finds it when something is reported to it. -/
def view (m : Manager σ) (s : Supervisor) (t : Client.Turn σ) : Client σ :=
  { m.shared with
    phase := s.phase, openedBefore := s.openedBefore
    shutdown := match t with
      | .input .noticed => s.alerted
      | _ => m.shared.shutdown }

/-- Puts back the client that a supervisor leaves. The channel of the client may be gone then, or be
replaced by one that the supervisor opened. -/
def putBack (n : Nat) (s : Supervisor) (c : Client σ) (m : Manager σ) : Manager σ :=
  let opens := c.phase.isRunning && !s.phase.isRunning
  let supervisors := if opens || c.outbound.isNone then m.setAside else m.supervisors
  { m with
    shared := { c with shutdown := m.shared.shutdown }
    supervisors := supervisors.modify n fun s => { s with
      phase := c.phase, openedBefore := c.openedBefore
      left := if c.phase.isRunning then s.left else [] }
    writer := if opens then n else m.writer }

/-- A supervisor writes the oldest text that waits for its socket. -/
def flush (n : Nat) (m : Manager σ) : Step σ :=
  if m.writes n then
    let (c, effects) := m.shared.onFlush
    ({ m with shared := c }, effects)
  else
    match (m.supervisors[n]?).map (·.left) with
    | some (text :: rest) =>
      ({ m with supervisors := m.supervisors.modify n fun s => { s with left := rest } },
        [.write text])
    | _ => (m, [])

variable [MarkerStore σ]

def report (n : Nat) (t : Client.Turn σ) (m : Manager σ) : Step σ :=
  match m.supervisors[n]? with
  | none => (m, [])
  | some s =>
    let (c, effects) := (m.view s t).turn t
    (m.putBack n s c, effects)

/-! ## Steps -/

/-- Clears the marker, asks every supervisor to end and waits for the one in the slot. Without such
a one, the client is closed at once. -/
def logout (m : Manager σ) : Manager σ :=
  let markers := MarkerStore.store .absent m.shared.markers
  let asked := { m with
    shared := { m.shared with markers, shutdown := true }, supervisors := m.alertAll, slot := none }
  match m.slot.filter m.isLive with
  | some n => { asked with awaited := n :: m.awaited }
  | none => asked.close

/-- A turn of the client. What is reported is reported to the supervisor of this number. -/
def turn (n : Nat) (m : Manager σ) : Client.Turn σ → Step σ
  | .input .connect => m.connect
  | .input .logout => (m.logout, [])
  | .input .flush => m.flush n
  | t =>
    if t.isReport then m.report n t
    else ({ m with shared := (m.shared.turn t).1 }, (m.shared.turn t).2)

/-- What happens to a manager. -/
inductive Happening (σ : Type) where
  | turn (n : Nat) (t : Client.Turn σ)
  /-- The logout that waits for the supervisor goes on. -/
  | returned (n : Nat)
  /-- The logout that waits for the supervisor is given up. -/
  | abandoned (n : Nat)
  deriving Repr

def step (m : Manager σ) : Happening σ → Step σ
  | .turn n t => m.turn n t
  | .returned n => (m.returned n, [])
  | .abandoned n => (m.abandoned n, [])

def run (m : Manager σ) : List (Happening σ) → Step σ
  | [] => (m, [])
  | h :: rest =>
    let s := m.step h
    let t := s.1.run rest
    (t.1, s.2 ++ t.2)

end Manager

end Parley
