import Parley.Client.Rehearsal
import Parley.Terminal.Basic

/-!
# Rehearsals of the terminal

The program against a scripted server. After whatever happens, the program handles all that it was
told and all that its session reported, and everything that waits is written.
-/

namespace Parley.Terminal

variable {σ : Type} [MarkerStore σ]

instance : Host (Terminal σ) σ where
  client := Terminal.client
  feed := feed

/-- A rehearsal and what the program has written since. -/
abbrev Performance (σ : Type) := Rehearsal (Terminal σ) × List TerminalOutput

namespace Performance

def step (i : Input) (p : Performance σ) : Performance σ :=
  let (t, output) := p.1.host.step i
  ({ p.1 with host := t }, p.2 ++ output)

def catchUp (p : Performance σ) : Performance σ :=
  let p := Nat.repeat (step .told) p.1.host.told.length p
  let p := Nat.repeat (step .heard) p.1.host.mailCount p
  (p.1.flush, p.2)

/-- The network comes to rest, and then the program. -/
def settle (p : Performance σ) : Performance σ := catchUp (p.1.settle false, p.2)

/-- Something happens to the client, with all that follows. -/
def network (i : Client.Input) (p : Performance σ) : Performance σ := settle (p.1.feed i, p.2)

/-- The program takes a step, with all that follows. -/
def act (i : Input) (p : Performance σ) : Performance σ := settle (p.step i)

end Performance

end Parley.Terminal
