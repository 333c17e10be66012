import Parley.Router.Dispatch
import Parley.Router.Handle

/-!
# Listeners that act while they are called

A listener that is called may do anything before it returns, in whatever way it returns: it may
subscribe, it may use any handle, its own or another one, it may keep a handle for itself or give it
to another listener to keep, and it may deliver further messages, so that listeners are called while
others are. What it means to do is its plan, and each step of the plan may depend on all that has
happened so far.

A delivery holds the listeners that it is going to call, until each of them has been called. A
listener comes to its end when it has been released and no delivery holds it any more, and with it
the handles that it keeps are let go of. If it is a delivery that lets go of it last, they are
released in their turn. If it is the router, which takes it away under its lock, then a handle that
has not released its listener yet waits for the lock that its own thread has taken: everything
stands still from then on.

Deliveries could nest without end. So there is room for so many levels, and a listener panics where
there is none left.
-/

namespace Parley

variable {α : Type u}

namespace Router

/-- Whether the router has a listener under this number. -/
def has (r : Router α) (id : Nat) : Bool := r.topics.toList.any fun e => e.2.any (·.1 = id)

end Router

namespace Exchange

/-- Whether there is a handle with this number that has not released its listener. -/
def isActive (x : Exchange α) (n : Nat) : Bool := x.handles[n]?.any (·.active)

/-- The number of the listener that an act takes out of the router, if it takes one. -/
def frees? (x : Exchange α) : Act α → Option Nat
  | .subscribe _ _ => none
  | .unsubscribe n | .drop n =>
    match x.handles[n]? with
    | none => none
    | some h =>
      if h.active && (x.router.entries h.subscription.topic).any (·.1 = h.subscription.id) then
        some h.subscription.id
      else none

end Exchange

/-- What is left in the log of a forum. A listener has its number in front of it. -/
inductive Happening (α : Type u) where
  | called (level : Nat) (listener : Nat × α) (m : Message)
  | acted (a : Exchange.Act α)
  /-- A listener was given a handle to keep. -/
  | kept (id handle : Nat)
  /-- There was no room for a call. -/
  | crowded
  | ended (level : Nat) (o : Outcome)

/-- A router with the handles on it, and what has happened there so far. -/
structure Forum (α : Type u) where
  exchange : Exchange α := {}
  /-- The handles that listeners keep, behind the numbers of the listeners. -/
  kept : List (Nat × Nat) := []
  /-- The listeners that deliveries are going to call, or are calling, by number. -/
  held : List Nat := []
  log : List (Happening α) := []
  /-- Whether the lock of the router is waited for by the thread that has it. -/
  stuck : Bool := false

/-- What a listener means to do. It sees what its steps report and all that has happened. -/
inductive Plan (α : Type u) where
  | finish (o : Outcome)
  | act (a : Exchange.Act α) (next : Option Report → Forum α → Plan α)
  | keep (id handle : Nat) (next : Forum α → Plan α)
  | deliver (m : Message) (next : Nat → Forum α → Plan α)

namespace Forum

def router (f : Forum α) : Router α := f.exchange.router

def note (f : Forum α) (h : Happening α) : Forum α := { f with log := f.log ++ [h] }

/-- The handles that a listener keeps. -/
def keeps (f : Forum α) (id : Nat) : List Nat :=
  f.kept.filterMap fun k => if k.1 = id then some k.2 else none

/-- Whether a listener keeps a handle that has not released its listener. -/
def isLoaded (f : Forum α) (id : Nat) : Bool := (f.keeps id).any f.exchange.isActive

/-- Does something with the router. It reports nothing, and never will, if it takes away a listener
that no delivery holds and that is loaded. -/
def act (f : Forum α) (a : Exchange.Act α) : Option Report × Forum α :=
  let (report, exchange) := f.exchange.act a
  let g := { f with exchange, log := f.log ++ [.acted a] }
  match f.exchange.frees? a with
  | none => (report, g)
  | some id =>
    if !g.held.contains id && g.isLoaded id then (none, { g with stuck := true }) else (report, g)

/-- Gives a listener a handle to keep, which whoever had it has no longer. -/
def keep (f : Forum α) (id handle : Nat) : Forum α :=
  if f.held.contains id || f.router.has id then
    { f with
      kept := f.kept.filter (·.2 ≠ handle) ++ [(id, handle)], log := f.log ++ [.kept id handle] }
  else f

/-- Lets go of handles, one after the other, for as long as nothing stands still. -/
def dropAll : List Nat → Forum α → Forum α
  | [], f => f
  | n :: rest, f =>
    let g := (f.act (.drop n)).2
    if g.stuck then g else dropAll rest g

/-- A delivery lets go of a listener. If that was the end of the listener, the handles that it keeps
are let go of. -/
def letGo (f : Forum α) (id : Nat) : Forum α :=
  let f := { f with held := f.held.erase id }
  if f.held.contains id || f.router.has id then f else dropAll (f.keeps id) f

/-- Delivers a message to the listeners of its topic; returns how many handled it, if it returns. -/
def deliverBy (call : Listening (Nat × α) (Forum α)) (m : Message) (f : Forum α) :
    Option Nat × Forum α :=
  let reached := f.router.entries m.topic
  let (n, f) := Router.callAll call m reached { f with held := reached.map (·.1) ++ f.held }
  (if f.stuck then none else some n, f)

/-- Follows a plan, where `call` is how listeners are called that it delivers messages to. How a
plan ends that comes to stand still is of no account. -/
def follow (call : Listening (Nat × α) (Forum α)) : Plan α → Forum α → Outcome × Forum α
  | .finish o, f => (o, f)
  | .act a next, f =>
    let (report, f) := f.act a
    if f.stuck then (.panicked, f) else follow call (next report f) f
  | .keep id handle next, f =>
    let f := f.keep id handle
    follow call (next f) f
  | .deliver m next, f =>
    match deliverBy call m f with
    | (none, f) => (.panicked, f)
    | (some n, f) => follow call (next n f) f

/-- The end of a call, after which the delivery lets go of the listener. -/
def leave (level id : Nat) (o : Outcome) (f : Forum α) : Outcome × Forum α :=
  if f.stuck then (o, f)
  else
    let f := f.letGo id
    (o, if f.stuck then f else f.note (.ended level o))

/-- Calls a listener, which follows its plan. Nobody is called where everything stands still. -/
def call (plans : Nat × α → Message → Forum α → Plan α) :
    Nat → Nat → Listening (Nat × α) (Forum α)
  | 0, level, l, m, f =>
    if f.stuck then (.panicked, f)
    else leave level l.1 .panicked ((f.note (.called level l m)).note .crowded)
  | room + 1, level, l, m, f =>
    if f.stuck then (.panicked, f)
    else
      let f := f.note (.called level l m)
      let (o, f) := follow (call plans room (level + 1)) (plans l m f) f
      leave level l.1 o f

/-- Delivers a message to listeners with these plans. -/
def deliver (plans : Nat × α → Message → Forum α → Plan α) (room level : Nat) (m : Message)
    (f : Forum α) : Option Nat × Forum α :=
  deliverBy (call plans room level) m f

end Forum

end Parley
