import Parley.Client.Basic

/-!
# What the socket brings

Bytes that are no frame, or whose payload cannot be read, have no effect at all. A heartbeat is
answered and noted; a changed profile is told; every other frame goes as a message to the listeners
of its topic.
-/

namespace Parley.Client

variable {σ : Type}

def hear : Listening Listener (Client σ) := fun l m c =>
  match l with
  | .hook name outcome => (outcome, { c with called := c.called ++ [(name, m)] })
  | .session index =>
    match c.sessions[index]? with
    | none => (.closed, c)
    | some s =>
      let (s, palette, requests) := s.hear c.connectionId c.palette m
      let c := { c with sessions := c.sessions.set index s, palette }
      (if s.isHeard then .handled else .closed, c.transmitAll s.topic requests)

/-- Delivers a message to the listeners of its topic; returns how many handled it. -/
def dispatch (m : Message) (c : Client σ) : Nat × Client σ := Router.dispatch Client.router hear m c

def pongEffects : List ClientEffect :=
  match Frame.pong.encode with
  | .ok text => [.write text]
  | .error _ => []

/-- Takes in the bytes of one socket message. -/
def receive (bytes : List UInt8) (c : Client σ) : Step σ :=
  match Frame.decode bytes with
  | .error _ => (c, [])
  | .ok f =>
    if f.isHeartbeat then ({ c with heartbeat := some c.now }, pongEffects)
    else if f.action = .roleCall then (c, [.tell .profileRefresh])
    else
      match Message.ofFrame f with
      | .error _ => (c, [])
      | .ok m => ((dispatch m c).2, [])

end Parley.Client
