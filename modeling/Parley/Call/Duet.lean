import Parley.Call.Agent

/-!
# Duets

Two agents over connections in memory who hear each other. What one side sends reaches the other in
the order in which it was sent; the two directions are independent, and so are the turns of the two
sides.
-/

namespace Parley

inductive Side where
  | left
  | right
  deriving DecidableEq, Repr

def Side.other : Side → Side
  | left => right
  | right => left

structure Parties where
  /-- Connection ids. -/
  id : Side → String
  /-- The names of the engines. -/
  label : Side → String
  id_ne : id .left ≠ id .right

/-- What the agent of a side finds outside of it. -/
def Parties.setting (w : Parties) (x : Side) : Setting where
  me := some (w.id x)
  connect _ := some { label := w.label x }

def Parties.annAndZoe : Parties where
  id | .left => "ann" | .right => "zoe"
  label | .left => "ann" | .right => "zoe"
  id_ne := by decide

structure Duet where
  agent : Side → Agent := fun _ => {}
  /-- Events on the way to a side, the oldest first. -/
  transit : Side → List Event := fun _ => []

namespace Duet

inductive Move where
  /-- The agent of a side takes a turn of its own. -/
  | turn (x : Side) (t : Agent.Turn)
  /-- The oldest event on the way to a side reaches it. -/
  | deliver (x : Side)

/-- What a side said, in the order in which both sides spoke. -/
abbrev Log := List (Side × Event)

def sent (effects : List CallEffect) : List Event :=
  effects.filterMap fun
    | .send e => some e
    | _ => none

theorem sent_append (xs ys : List CallEffect) : sent (xs ++ ys) = sent xs ++ sent ys :=
  List.filterMap_append

/-- A side takes a turn; what it sends is on its way. -/
def take (w : Parties) (x : Side) (t : Agent.Turn) (d : Duet) : Duet × Log :=
  let (agent, effects) := (d.agent x).turn (w.setting x) t
  ({ agent := fun y => if y = x then agent else d.agent y
     transit := fun y => if y = x then d.transit y else d.transit y ++ sent effects },
    (sent effects).map (x, ·))

/-- The message as which an event of the other side reaches a side. -/
def message (w : Parties) (x : Side) (e : Event) : Message :=
  { topic := "room", sender := w.id x.other, event := e }

def move (w : Parties) (d : Duet) : Move → Duet × Log
  | .turn x t => d.take w x t
  | .deliver x =>
    match d.transit x with
    | [] => (d, [])
    | e :: rest =>
      { d with transit := fun y => if y = x then rest else d.transit y }.take w x
        (.session (.message (message w x e)))

def run (w : Parties) (d : Duet) : List Move → Duet × Log
  | [] => (d, [])
  | m :: rest =>
    let (d, said) := d.move w m
    let (d, more) := d.run w rest
    (d, said ++ more)

end Duet

end Parley
