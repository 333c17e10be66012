import Parley.Router.Dispatch
import Parley.Router.Handle

/-!
# Subscriptions by name

A desk keeps subscriptions by name and records who was called. A name that is taken again gives up
its earlier subscription once the new one is made. What a hook does when it is called is part of the
desk, so that a hook can act on the very table it is called from.
-/

namespace Parley

/-- What a hook does when it is called. -/
inductive Reaction where
  | reply (o : Outcome)
  /-- Gives up the subscription with a name. -/
  | unsubscribe (name : String)
  /-- Takes a name that is free, on the topic of the message. -/
  | subscribe (name : String)
  deriving DecidableEq, Repr, Inhabited

structure Hook where
  name : String
  reaction : Reaction
  deriving DecidableEq, Repr, Inhabited

structure Desk where
  router : Router Hook := {}
  subscriptions : Table Handle := .empty
  /-- The names of the hooks that were called, in order. -/
  called : List String := []

namespace Desk

def subscribe (d : Desk) (topic : String) (hook : Hook) : Subscription × Desk :=
  let (s, router) := d.router.subscribe topic hook
  let router := match d.subscriptions.find? hook.name with
    | some earlier => (earlier.release router).2.2
    | none => router
  (s, { d with router, subscriptions := d.subscriptions.insert hook.name { subscription := s } })

/-- Gives up the subscription with a name; true if it was the last one of its topic, none if the
name is not taken. -/
def unsubscribe (d : Desk) (name : String) : Option Bool × Desk :=
  match d.subscriptions.find? name with
  | none => (none, d)
  | some h =>
    let (last, _, router) := h.unsubscribe d.router
    (some last, { d with router, subscriptions := d.subscriptions.erase name })

def call : Listening Hook Desk := fun hook m d =>
  let d := { d with called := d.called ++ [hook.name] }
  match hook.reaction with
  | .reply o => (o, d)
  | .unsubscribe name => (.handled, (d.unsubscribe name).2)
  | .subscribe name =>
    if d.subscriptions.contains name then (.handled, d)
    else (.handled, (d.subscribe m.topic ⟨name, .reply .handled⟩).2)

def dispatch (d : Desk) (m : Message) : Nat × Desk := Router.dispatch Desk.router call m d

end Desk

end Parley
