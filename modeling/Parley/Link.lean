import Parley.Media.Peer

/-!
# Links

What a client keeps for one remote participant: the connection, the phase of its negotiation and the
candidates that wait. A candidate of our own always passes through the queue and leaves it only
while both descriptions are current, so that nothing is sent to a peer that could not use it yet.
-/

namespace Parley

inductive LinkPhase where
  | new
  /-- An offer was sent or one was received. -/
  | negotiating
  /-- Both descriptions were current and none was pending. -/
  | stable
  | closed
  deriving DecidableEq, Repr, Inhabited

def LinkPhase.title : LinkPhase → String
  | new => "New"
  | negotiating => "Negotiating"
  | stable => "Stable"
  | closed => "Closed"

/-- A link over a connection of type `κ`. -/
structure Link (κ : Type := Peer) where
  remote : String
  /-- Tells this link from earlier ones to the same participant. -/
  serial : Nat
  phase : LinkPhase := .new
  /-- Candidates that wait, oldest first. -/
  queue : List Candidate := []
  /-- The tracks the other side sends. -/
  media : MediaStream := {}
  peer : κ
  deriving DecidableEq, Repr

namespace Link

/-- A new link over a new connection in memory. -/
def create (remote : String) (serial : Nat) (label : String) : Link :=
  { remote, serial, peer := { label } }

variable {κ : Type}

def tag (l : Link κ) (e : PeerEvent) : PeerSignal := ⟨l.remote, l.serial, e⟩

/-- A description was sent or received. -/
def negotiate (l : Link κ) : Link κ :=
  if l.phase = .closed then l else { l with phase := .negotiating }

@[simp] theorem negotiate_peer (l : Link κ) : l.negotiate.peer = l.peer := by
  unfold negotiate; split <;> rfl

@[simp] theorem negotiate_serial (l : Link κ) : l.negotiate.serial = l.serial := by
  unfold negotiate; split <;> rfl

theorem negotiate_ne_closed {l : Link κ} (h : l.phase ≠ .closed) : l.negotiate.phase ≠ .closed := by
  unfold negotiate
  rw [if_neg h]
  nofun

/-- Drops the waiting candidates, which belong to an offer that is withdrawn. -/
def forget (l : Link κ) : Link κ × Nat := ({ l with queue := [] }, l.queue.length)

def addMedia (l : Link κ) (t : Track) : Link κ := { l with media := l.media.add t }

/-- Forgets the remote tracks; true if there were any. -/
def clearMedia (l : Link κ) : Link κ × Bool := ({ l with media := {} }, !l.media.isEmpty)

variable [Connection κ]

def attach (l : Link κ) (s : MediaStream) : Link κ :=
  { l with peer := s.tracks.foldl Connection.addTrack l.peer }

def detach (l : Link κ) (s : MediaStream) : Link κ :=
  { l with peer := s.tracks.foldl Connection.removeTrack l.peer }

/-- If both descriptions are current, the link is stable and the waiting candidates may be sent, in
the order in which they were gathered. -/
def flush (l : Link κ) : Link κ × List Candidate :=
  if l.phase = .closed ∨ Connection.isSettled l.peer = false then (l, [])
  else ({ l with phase := .stable, queue := [] }, l.queue)

@[simp] theorem flush_serial (l : Link κ) : l.flush.1.serial = l.serial := by
  unfold flush; split <;> rfl

/-- Queues a candidate and returns what may be sent now. -/
def gather (l : Link κ) (c : Candidate) : Link κ × List Candidate :=
  if l.phase = .closed then (l, []) else ({ l with queue := l.queue ++ [c] }).flush

@[simp] theorem gather_serial (l : Link κ) (c : Candidate) : (l.gather c).1.serial = l.serial := by
  unfold gather; split
  · rfl
  · rw [flush_serial]

/-- What leaves the queue leaves it on a live and settled link. -/
theorem live_of_flush_ne_nil {l : Link κ} (h : l.flush.2 ≠ []) :
    l.flush.1.phase ≠ .closed ∧ Connection.isSettled l.flush.1.peer = true := by
  unfold flush at h ⊢
  split
  · rename_i hc
    rw [if_pos hc] at h
    exact absurd rfl h
  · rename_i hc
    rw [not_or, Bool.not_eq_false] at hc
    exact ⟨nofun, hc.2⟩

theorem live_of_gather_ne_nil {l : Link κ} {c : Candidate} (h : (l.gather c).2 ≠ []) :
    (l.gather c).1.phase ≠ .closed ∧ Connection.isSettled (l.gather c).1.peer = true := by
  unfold gather at h ⊢
  split
  · rename_i hc
    rw [if_pos hc] at h
    exact absurd rfl h
  · rename_i hc
    rw [if_neg hc] at h
    exact live_of_flush_ne_nil h

/-- A remote candidate is used by a live link between two rounds. -/
def admits (l : Link κ) : Bool :=
  l.phase ≠ .closed && Connection.isSettled l.peer && !(Connection.ice l.peer).isDead

def close (l : Link κ) : Link κ :=
  { l with peer := Connection.close l.peer, phase := .closed, queue := [], media := {} }

end Link

end Parley
