import Parley.Call.Agent
import Parley.Media.Devices

/-!
# Stations

An agent with its way out and its devices, over connections in memory. A station handles what waits
as soon as it can: the signals of its connections in the order of their reports, and the answers of
the devices when their time has come, with what the devices say then.
-/

namespace Parley

structure Station where
  devices : Devices
  me : Option String := none
  /-- Whether events that are sent leave the station. -/
  sinkOpen : Bool := true
  refuses : String → Bool := fun _ => false
  agent : Agent := {}
  /-- Whether someone can still command the call. -/
  hasHandle : Bool := true
  /-- Whether the session's events still come. -/
  hasInbound : Bool := true
  /-- Events that left and were not picked up. -/
  outbox : List Event := []
  /-- Events that left since the log was last cleared. -/
  sent : List Event := []
  /-- What the call told since the log was last cleared. -/
  told : List CallEvent := []

namespace Station

def label (s : Station) : String := s.devices.label

def running (s : Station) : Bool := s.agent.running

def setting (now : Nat) (s : Station) : Setting where
  me := s.me
  connect remote := if s.refuses remote then none else some { label := s.label }
  due := now + s.devices.delay

/-- Carries out what a call wants done outside of the agent. -/
def carryOut (s : Station) : CallEffect → Station
  | .send e => if s.sinkOpen then { s with outbox := s.outbox ++ [e], sent := s.sent ++ [e] } else s
  | .tell e => { s with told := s.told ++ [e] }
  | .release t => { s with devices := s.devices.stop t }
  | .report _ | .opened _ _ | .acquire _ _ => s

def take (now : Nat) (s : Station) (t : Agent.Turn) : Station :=
  let (agent, effects) := s.agent.turn (s.setting now) t
  effects.foldl carryOut { s with agent }

/-! ## Running until nothing waits -/

/-- Handles the signals that wait. The call's answer to a signal is no report, so none is left. -/
def handleSignals (now : Nat) (s : Station) : Station :=
  s.agent.signals.foldl (fun s _ => s.take now .signal) s

def answer (now : Nat) (s : Station) (q : Acquisition) : Station :=
  let (result, devices) := s.devices.acquire q.video
  let s := { s with devices }.take now (.answered q result)
  (s.take now .media).handleSignals now

/-- The requests whose time has come, in the order of their times. -/
def due (now : Nat) (s : Station) : List Acquisition :=
  (s.agent.requests.filter (·.due ≤ now)).mergeSort fun a b => a.due ≤ b.due

def settle (now : Nat) (s : Station) : Station :=
  let s := s.handleSignals now
  (s.due now).foldl (answer now) s

/-! ## Commands -/

/-- The turn in which the agent takes a command. -/
def commandTurn : Call.Input → Option Agent.Turn
  | .start video => some (.start video)
  | .leave => some .leave
  | .teardown => some .teardown
  | _ => none

/-- Gives the call a command; none without a handle, false after the end. -/
def command (now : Nat) (s : Station) (i : Call.Input) : Option Bool × Station :=
  if !s.hasHandle then (none, s)
  else if !s.running then (some false, s)
  else (some true, ((commandTurn i).map (s.take now)).getD s)

/-- Drops the handle, which ends the call; false if it is gone already. -/
def dropHandle (now : Nat) (s : Station) : Bool × Station :=
  if !s.hasHandle then (false, s) else (true, { s with hasHandle := false }.take now .dropped)

/-- An event of the session arrives; none if there are no more, false after the end. -/
def receive (now : Nat) (s : Station) (e : SessionEvent) : Option Bool × Station :=
  if !s.hasInbound then (none, s)
  else if !s.running then (some false, s)
  else (some true, s.take now (.session e))

/-- The session ends, which tears the call down; false if it has ended already. -/
def closeInbound (now : Nat) (s : Station) : Bool × Station :=
  if !s.hasInbound then (false, s) else (true, { s with hasInbound := false }.take now .sessionEnded)

/-! ## Connections -/

/-- A connection reports; false if the call has ended. -/
def report (s : Station) (signal : PeerSignal) : Bool × Station :=
  if s.running then
    (true, { s with agent := { s.agent with signals := s.agent.signals ++ [signal] } })
  else (false, s)

/-- The latest link made to a participant. -/
def latest? (s : Station) (remote : String) : Option Link := (s.agent.call.made remote).getLast?

/-- The network puts the latest connection to a participant into a state. -/
def setIce (s : Station) (remote : String) (state : IceState) : Bool × Station :=
  match s.latest? remote with
  | none => (false, s)
  | some l => (true, { s with agent := s.agent.disturb remote l.serial state })

/-- The connection number `nth` made to a participant reports; none if there is none. -/
def reportNth (s : Station) (remote : String) (nth : Nat) (e : PeerEvent) : Option Bool × Station :=
  match (s.agent.call.made remote)[nth]? with
  | none => (none, s)
  | some l =>
    let (accepted, s) := s.report (l.tag e)
    (some accepted, s)

def clearLog (s : Station) : Station := { s with sent := [], told := [] }

/-- What the holder of the handle can see of the call. -/
def visible? (s : Station) : Option Call := if s.running ∧ s.hasHandle then some s.agent.call else none

end Station

end Parley
