import Parley.Table

/-!
# Topics and their listeners

A router keeps the listeners of every topic in the order in which they subscribed. Each subscription
has a number of its own, which is never given again, so that releasing it a second time cannot hit
another one. A topic without listeners has no entry.
-/

namespace Parley

structure Router (α : Type u) where
  topics : Table (List (Nat × α)) := .empty
  /-- The number of the next subscription. -/
  next : Nat := 0

structure Subscription where
  topic : String
  id : Nat
  /-- Whether the topic had no listener before. -/
  first : Bool
  deriving DecidableEq, Repr, Inhabited

namespace Router

variable {α : Type u}

instance : Inhabited (Router α) := ⟨{}⟩

/-- The listeners of a topic with the numbers of their subscriptions. -/
def entries (r : Router α) (topic : String) : List (Nat × α) := (r.topics.find? topic).getD []

/-- The listeners of a topic in subscription order. -/
def listeners (r : Router α) (topic : String) : List α := (r.entries topic).map (·.2)

def count (r : Router α) (topic : String) : Nat := (r.entries topic).length

/-- The topics that have listeners, and how many. -/
def counts (r : Router α) : List (String × Nat) := r.topics.toList.map fun e => (e.1, e.2.length)

/-- Adds a listener after the others of its topic. -/
def subscribe (r : Router α) (topic : String) (listener : α) : Subscription × Router α :=
  let earlier := r.entries topic
  (⟨topic, r.next, earlier.isEmpty⟩,
    { topics := r.topics.insert topic (earlier ++ [(r.next, listener)]), next := r.next + 1 })

/-- Takes the listener of a subscription away; true if it was the last one of its topic. -/
def release (r : Router α) (s : Subscription) : Bool × Router α :=
  match r.topics.find? s.topic with
  | none => (false, r)
  | some entries =>
    let rest := entries.filter (·.1 ≠ s.id)
    if rest.isEmpty then (true, { r with topics := r.topics.erase s.topic })
    else (false, { r with topics := r.topics.insert s.topic rest })

end Router

end Parley
