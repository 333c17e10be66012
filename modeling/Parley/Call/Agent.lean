import Parley.Call.Step

/-!
# Agents

A call at work. Four kinds of things wait for an agent: events of its session, commands, reports of
the call's own connections and answers of the devices. The agent takes them one at a time, those of
one kind in the order of their arrival, but of several kinds that wait any may come first. Between
its turns the devices answer requests and the network acts on connections.

An agent whose call was torn down by a command, or whose last handle was dropped, is over: it takes
no more turns, and what the devices still answer is lost. When only the session ends, the call is
torn down as well, but the agent goes on and gives back the media that still arrive.
-/

namespace Parley

structure Acquisition where
  epoch : Nat
  video : Bool
  /-- The time at which it is answered. -/
  due : Nat
  deriving DecidableEq, Repr

structure Agent (κ : Type := Peer) where
  call : Call κ := {}
  /-- Reports that wait, the oldest first. -/
  signals : List PeerSignal := []
  /-- Requests that the devices have not answered. -/
  requests : List Acquisition := []
  /-- Answers of the devices that wait, each with the epoch of its request, the oldest first. -/
  answers : List (Nat × Except MediaError MediaStream) := []
  running : Bool := true

namespace Agent

inductive Turn (κ : Type := Peer) [Connection κ] where
  | session (e : SessionEvent)
  | sessionEnded
  | start (video : Bool)
  | leave
  | teardown
  /-- The last handle is dropped. -/
  | dropped
  | signal
  | media
  /-- The devices answer a request. -/
  | answered (q : Acquisition) (result : Except MediaError MediaStream)
  /-- The network acts on the connection of a link, live or closed. -/
  | network (remote : String) (serial : Nat) (n : Connection.Network κ)

def reports (effects : List CallEffect) : List PeerSignal :=
  effects.filterMap fun
    | .report signal => some signal
    | _ => none

@[simp] theorem reports_append (xs ys : List CallEffect) :
    reports (xs ++ ys) = reports xs ++ reports ys := List.filterMap_append

def requested (due : Nat) (effects : List CallEffect) : List Acquisition :=
  effects.filterMap fun
    | .acquire video epoch => some ⟨epoch, video, due⟩
    | _ => none

variable {κ : Type} [Connection κ]

/-- Lets the call take one step; its reports and requests wait from then on. -/
def perform (s : Setting κ) (i : Call.Input) (a : Agent κ) : Agent κ × List CallEffect :=
  if !a.running then (a, [])
  else
    let (call, effects) := a.call.step s i
    ({ a with
      call
      signals := a.signals ++ reports effects
      requests := a.requests ++ requested s.due effects }, effects)

/-- Tears the call down and ends, with all that waits. -/
def finish (s : Setting κ) (a : Agent κ) : Agent κ × List CallEffect :=
  let (a, effects) := a.perform s .teardown
  ({ a with running := false, signals := [], answers := [] }, effects)

def takeSignal (s : Setting κ) (a : Agent κ) : Agent κ × List CallEffect :=
  match a.signals with
  | [] => (a, [])
  | signal :: signals => { a with signals }.perform s (.signal signal)

/-- Takes the oldest answer of the devices. -/
def takeAnswer (s : Setting κ) (a : Agent κ) : Agent κ × List CallEffect :=
  match a.answers with
  | [] => (a, [])
  | (epoch, result) :: answers => { a with answers }.perform s (.media epoch result)

/-- The devices answer a request; nobody takes the answer when the agent is over. -/
def answer (q : Acquisition) (result : Except MediaError MediaStream) (a : Agent κ) : Agent κ :=
  if q ∈ a.requests then
    { a with
      requests := a.requests.erase q
      answers := if a.running then a.answers ++ [(q.epoch, result)] else a.answers }
  else a

/-- The network acts on a connection, which may report. -/
def disturb (remote : String) (serial : Nat) (n : Connection.Network κ) (a : Agent κ) : Agent κ :=
  match (a.call.made remote).find? (·.serial = serial) with
  | none => a
  | some l =>
    let signals := (Connection.network l.peer n).2.map fun e => ⟨remote, serial, e⟩
    { a with
      call := a.call.updatePeer remote serial fun p => (Connection.network p n).1
      signals := if a.running then a.signals ++ signals else a.signals }

def turn (s : Setting κ) (a : Agent κ) : Turn κ → Agent κ × List CallEffect
  | .session e => a.perform s (.session e)
  | .sessionEnded => a.perform s .teardown
  | .start video => a.perform s (.start video)
  | .leave => a.perform s .leave
  | .teardown | .dropped => a.finish s
  | .signal => a.takeSignal s
  | .media => a.takeAnswer s
  | .answered q result => (a.answer q result, [])
  | .network remote serial n => (a.disturb remote serial n, [])

/-- Turns one after the other, each in the setting it finds. -/
def run (a : Agent κ) : List (Setting κ × Turn κ) → Agent κ × List CallEffect
  | [] => (a, [])
  | (s, t) :: rest =>
    let (a, effects) := a.turn s t
    let (a, more) := a.run rest
    (a, effects ++ more)

end Agent

end Parley
