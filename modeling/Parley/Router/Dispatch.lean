import Parley.Message
import Parley.Router.Basic

/-!
# Delivery to listeners

A message goes to the listeners that its topic had when delivery began, one after the other. A
listener may do anything to the state it lives in: it may subscribe and unsubscribe, itself or
others, and it may deliver further messages. One that fails does not keep the message from the rest.
-/

namespace Parley

/-- How the call of a listener ended. -/
inductive Outcome where
  | handled
  | failed
  /-- Whoever the listener reports to has gone away. -/
  | closed
  | panicked
  deriving DecidableEq, Repr, Inhabited

/-- The call of a listener in a state. -/
abbrev Listening (α : Type u) (σ : Type v) := α → Message → σ → Outcome × σ

namespace Router

variable {α : Type u} {σ : Type v}

/-- Calls listeners in turn and counts those that handled the message. -/
def callAll (call : Listening α σ) (m : Message) : List α → σ → Nat × σ
  | [], s => (0, s)
  | l :: rest, s =>
    let (outcome, s) := call l m s
    let (n, s) := callAll call m rest s
    (if outcome = .handled then n + 1 else n, s)

/-- Delivers a message to the listeners of its topic, which stand in the router of the state. -/
def dispatch (router : σ → Router α) (call : Listening α σ) (m : Message) (s : σ) : Nat × σ :=
  callAll call m ((router s).listeners m.topic) s

end Router

end Parley
