import Parley.Router.Basic

/-!
# Handles on subscriptions

Whoever subscribes gets a handle on the subscription. The listener is released through the handle:
by a call, which reports whether it was the last one of its topic, or when the handle is let go of.
A handle is let go of after the call as well, so it remembers whether its listener has been
released and does so at most once.
-/

namespace Parley

structure Handle where
  subscription : Subscription
  /-- Whether the listener has not been released yet. -/
  active : Bool := true
  deriving DecidableEq, Repr, Inhabited

namespace Handle

variable {α : Type u}

/-- Releases the listener unless that was done before; true if it was the last one of its topic. -/
def release (h : Handle) (r : Router α) : Bool × Handle × Router α :=
  if h.active then
    let (last, r) := r.release h.subscription
    (last, { h with active := false }, r)
  else (false, h, r)

/-- Releases the listener by a call, which lets go of the handle at its end. -/
def unsubscribe (h : Handle) (r : Router α) : Bool × Handle × Router α :=
  let (last, h, r) := h.release r
  (last, (h.release r).2)

end Handle

/-! ## A router and its handles -/

/-- A router with the handles on its subscriptions, in the order in which they were made. -/
structure Exchange (α : Type u) where
  router : Router α := {}
  handles : List Handle := []

/-- What an act on a router reports about a topic. -/
inductive Report where
  | subscribed (topic : String) (first : Bool)
  | released (topic : String) (last : Bool)
  deriving DecidableEq, Repr, Inhabited

namespace Exchange

variable {α : Type u}

/-- What is done with a router: a handle is made, or one of those made is used. -/
inductive Act (α : Type u) where
  | subscribe (topic : String) (listener : α)
  | unsubscribe (handle : Nat)
  | drop (handle : Nat)
  deriving DecidableEq, Repr

/-- Whether an act is the use of a handle. -/
def Act.uses (n : Nat) : Act α → Bool
  | .subscribe _ _ => false
  | .unsubscribe m | .drop m => m = n

/-- Uses a handle, if there is one with that number. -/
def through (x : Exchange α) (n : Nat) (use : Handle → Router α → Bool × Handle × Router α) :
    Option Report × Exchange α :=
  match x.handles[n]? with
  | none => (none, x)
  | some h =>
    let (last, h', router) := use h x.router
    (some (.released h.subscription.topic last), { router, handles := x.handles.set n h' })

def act (x : Exchange α) : Act α → Option Report × Exchange α
  | .subscribe topic listener =>
    let (s, router) := x.router.subscribe topic listener
    (some (.subscribed topic s.first), { router, handles := x.handles ++ [{ subscription := s }] })
  | .unsubscribe n => x.through n Handle.unsubscribe
  | .drop n => x.through n Handle.release

/-- Acts one after the other, with what they report. -/
def run (x : Exchange α) : List (Act α) → List Report × Exchange α
  | [] => ([], x)
  | a :: rest =>
    let (report, x) := x.act a
    let (reports, x) := x.run rest
    (report.toList ++ reports, x)

end Exchange

end Parley
