import Parley.Terminal.Basic

/-!
# The course of a terminal

What happens to a terminal, one thing after the other: it takes a step, or the world around it
changes. A terminal shows lines to a person, and what it has its client do goes out as effects.
-/

namespace Parley.Terminal

variable {σ : Type} [MarkerStore σ]

/-- What happens to a terminal: it takes a step, or the world around it changes. -/
inductive Turn (σ : Type) where
  | input (i : Input)
  | clock (now : Stamp)
  /-- Someone else wrote the marker. -/
  | markers (m : σ)
  deriving Repr

/-- A terminal, what it has shown, and what its client wants done outside. -/
abbrev Course (σ : Type) := Terminal σ × List TerminalOutput × List ClientEffect

def turn (t : Terminal σ) : Turn σ → Course σ
  | .input (.network i) => ((t.feed i).1, [], (t.feed i).2)
  | .input i => ((t.step i).1, (t.step i).2, [])
  | .clock now => ({ t with client := { t.client with now } }, [], [])
  | .markers markers => ({ t with client := { t.client with markers } }, [], [])

def run (t : Terminal σ) : List (Turn σ) → Course σ
  | [] => (t, [], [])
  | u :: rest =>
    let (t, shown, effects) := t.turn u
    let (t, shown', effects') := t.run rest
    (t, shown ++ shown', effects ++ effects')

/-- The turns of a run, each with the terminal that takes it. -/
def moments (t : Terminal σ) : List (Turn σ) → List (Terminal σ × Turn σ)
  | [] => []
  | u :: rest => (t, u) :: (t.turn u).1.moments rest

/-- What the turns of a run are found to bring, in order. -/
def collect {α : Type} (f : Terminal σ → Turn σ → Option α) (t : Terminal σ)
    (us : List (Turn σ)) : List α :=
  (t.moments us).filterMap fun m => f m.1 m.2

/-- A terminal that has just been started. -/
def start (options : Options) (markers : σ) : Terminal σ :=
  ((create options markers).feed .connect).1

end Parley.Terminal
