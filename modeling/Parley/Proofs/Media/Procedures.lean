import Parley.Media.Peer

/-!
# Operations step by step

An operation on a connection is a procedure: it looks at the connection, changes it in one place
after another and tells of what happened, and it may give up on the way. What it changed and told
before it gave up would stay changed and told. Here the operations are written out in this way, with
the work that is done so far on a bench. `Peer.perform`, which has a new connection only where
nothing failed, is what they come to (`carryOut_on`): each of them gives up before its first change,
if at all.
-/

namespace Parley.Peer

/-- A connection as it is so far, and what it has told so far. -/
structure Bench where
  peer : Peer
  told : List PeerEvent := []

/-- How an operation with this result ends, and the bench then. -/
def Bench.after (b : Bench) : Result → Except MediaError Unit × Bench
  | .ok (p, events) => (.ok (), ⟨p, b.told ++ events⟩)
  | .error e => (.error e, b)

/-- Work on a bench that may be given up. What was done by then is left on the bench. -/
abbrev Procedure := ExceptT MediaError (StateM Bench)

/-- How a procedure ends on a bench, and the bench then. -/
def Procedure.on {α : Type} (x : Procedure α) (b : Bench) : Except MediaError α × Bench :=
  StateT.run (ExceptT.run x) b

namespace Procedure

def change (f : Peer → Peer) : Procedure Unit := modify fun b => { b with peer := f b.peer }

def tell (e : PeerEvent) : Procedure Unit := modify fun b => { b with told := b.told ++ [e] }

def ensureOpen : Procedure Unit := do
  if (← get).peer.signaling = .closed then throw .closed

/-! ## The operations -/

def gather : Nat → Procedure Unit
  | 0 => pure ()
  | n + 1 => do
    let p := (← get).peer
    change fun p => { p with gathered := p.gathered + 1 }
    tell (.gathered (candidate p.label p.gathered))
    gather n

def createOffer : Procedure Description := do
  ensureOpen
  let p := (← get).peer
  return ⟨.offer, Sdp.text p.label "offer" p.tracks⟩

def createAnswer : Procedure Description := do
  ensureOpen
  let p := (← get).peer
  if p.signaling ≠ .haveRemoteOffer then throw (.negotiation "no remote offer to answer")
  return ⟨.answer, Sdp.text p.label "answer" p.tracks⟩

def setLocal (d : Description) : Procedure Unit := do
  ensureOpen
  match d.kind, (← get).peer.signaling with
  | .offer, .stable | .offer, .haveLocalOffer =>
    change fun p => { p with pendingLocal := some d }
    change fun p => { p with signaling := .haveLocalOffer }
  | .answer, .haveRemoteOffer =>
    let taken := (← get).peer.pendingRemote
    change fun p => { p with pendingRemote := none }
    change fun p => { p with currentRemote := taken }
    change fun p => { p with currentLocal := some d }
    change fun p => { p with signaling := .stable }
  | kind, state =>
    throw (.negotiation ("cannot apply local " ++ kind.title ++ " in " ++ state.title))
  gather candidatesPerDescription

def clearLocal : Procedure Unit := do
  ensureOpen
  if (← get).peer.signaling = .stable then
    change fun p => { p with currentLocal := none }

def rollback : Procedure Unit := do
  ensureOpen
  let state := (← get).peer.signaling
  if state ≠ .haveLocalOffer then throw (.negotiation ("nothing to roll back in " ++ state.title))
  change fun p => { p with pendingLocal := none }
  change fun p => { p with signaling := .stable }

/-- Notes the ids of tracks one after the other, and returns the tracks whose ids are new. -/
def note : List Track → Procedure (List Track)
  | [] => pure []
  | t :: rest => do
    if (← get).peer.announced.contains t.id then note rest
    else
      change fun p => { p with announced := p.announced ++ [t.id] }
      let fresh ← note rest
      return t :: fresh

def tellAll : List PeerEvent → Procedure Unit
  | [] => pure ()
  | e :: rest => do
    tell e
    tellAll rest

def setRemote (d : Description) : Procedure Unit := do
  ensureOpen
  match d.kind, (← get).peer.signaling with
  | .offer, .stable =>
    change fun p => { p with pendingRemote := some d }
    change fun p => { p with signaling := .haveRemoteOffer }
  | .answer, .haveLocalOffer =>
    let taken := (← get).peer.pendingLocal
    change fun p => { p with pendingLocal := none }
    change fun p => { p with currentLocal := taken }
    change fun p => { p with currentRemote := some d }
    change fun p => { p with signaling := .stable }
  | kind, state =>
    throw (.negotiation ("cannot apply remote " ++ kind.title ++ " in " ++ state.title))
  let fresh ← note (Sdp.tracks d.sdp)
  tellAll (fresh.map .track)

def addCandidate (c : Candidate) : Procedure Unit := do
  ensureOpen
  if (← get).peer.currentRemote.isNone then
    throw (.negotiation "candidate before remote description")
  change fun p => { p with applied := p.applied ++ [c] }
  if (← get).peer.ice = .new then
    change fun p => { p with ice := .connected }
    tell (.iceChanged .connected)

def carryOut : Operation → Procedure Unit
  | .addTrack t => change fun p => { p with tracks := t.addTo p.tracks }
  | .removeTrack t => change fun p => { p with tracks := t.removeFrom p.tracks }
  | .createOffer => do let _ ← createOffer
  | .createAnswer => do let _ ← createAnswer
  | .setLocal d => setLocal d
  | .clearLocal => clearLocal
  | .rollback => rollback
  | .setRemote d => setRemote d
  | .addCandidate c => addCandidate c
  | .setIce s => do
    change fun p => { p with ice := s }
    tell (.iceChanged s)
  | .close => do
    change fun p => { p with signaling := .closed }
    change fun p => { p with ice := .closed }

/-! ## What they come to -/

section

variable {α β : Type}

@[simp] theorem on_pure (a : α) (b : Bench) : (pure a : Procedure α).on b = (.ok a, b) := rfl

@[simp] theorem on_throw (e : MediaError) (b : Bench) :
    (throw e : Procedure α).on b = (.error e, b) := rfl

@[simp] theorem on_get (b : Bench) : (get : Procedure Bench).on b = (.ok b, b) := rfl

@[simp] theorem on_change (f : Peer → Peer) (b : Bench) :
    (change f).on b = (.ok (), { b with peer := f b.peer }) := rfl

@[simp] theorem on_tell (e : PeerEvent) (b : Bench) :
    (tell e).on b = (.ok (), { b with told := b.told ++ [e] }) := rfl

@[simp] theorem on_bind (x : Procedure α) (f : α → Procedure β) (b : Bench) :
    (x >>= f).on b =
      match x.on b with
      | (.ok a, b') => (f a).on b'
      | (.error e, b') => (.error e, b') := by
  change StateT.run (ExceptT.run x >>= ExceptT.bindCont f) b = _
  rw [StateT.run_bind]
  unfold on
  rcases StateT.run (ExceptT.run x) b with ⟨_ | a, b'⟩ <;> rfl

@[simp] theorem on_map (f : α → β) (x : Procedure α) (b : Bench) :
    (f <$> x).on b = ((x.on b).1.map f, (x.on b).2) := by
  change StateT.run (ExceptT.run (f <$> x)) b = _
  rw [ExceptT.run_map, StateT.run_map]
  rfl

end

theorem ensureOpen_on (b : Bench) :
    ensureOpen.on b = (if b.peer.signaling = .closed then .error .closed else .ok (), b) := by
  by_cases h : b.peer.signaling = .closed <;> simp [ensureOpen, h]

theorem createOffer_on (b : Bench) : createOffer.on b = (b.peer.createOffer, b) := by
  by_cases h : b.peer.signaling = .closed <;>
    simp [createOffer, ensureOpen_on, Peer.createOffer, isOpen, Except.map, h]

theorem createAnswer_on (b : Bench) : createAnswer.on b = (b.peer.createAnswer, b) := by
  cases h : b.peer.signaling <;> simp [createAnswer, ensureOpen_on, Peer.createAnswer, h]

theorem gather_on (n : Nat) (b : Bench) :
    (gather n).on b = (.ok (), ⟨{ b.peer with gathered := b.peer.gathered + n },
      b.told ++ (List.range n).map fun i =>
        .gathered (candidate b.peer.label (b.peer.gathered + i))⟩) := by
  induction n generalizing b with
  | zero => simp [gather]
  | succ n ih => simp [gather, ih, List.range_succ_eq_map, Nat.add_assoc, Nat.add_comm 1]

theorem gatherAll_on (b : Bench) :
    (gather candidatesPerDescription).on b = b.after (.ok b.peer.gather) := gather_on _ b

theorem setLocal_on (d : Description) (b : Bench) :
    (setLocal d).on b = b.after (b.peer.setLocal d) := by
  obtain ⟨kind, sdp⟩ := d
  cases kind <;> cases h : b.peer.signaling <;>
    simp [setLocal, ensureOpen_on, gatherAll_on, Peer.setLocal, Bench.after, h]

theorem clearLocal_on (b : Bench) : clearLocal.on b = b.after b.peer.clearLocal := by
  cases h : b.peer.signaling <;>
    simp [clearLocal, ensureOpen_on, Peer.clearLocal, Bench.after, h]

theorem rollback_on (b : Bench) : rollback.on b = b.after b.peer.rollback := by
  cases h : b.peer.signaling <;>
    simp [rollback, ensureOpen_on, Peer.rollback, Bench.after, h]

theorem note_on (ts : List Track) (b : Bench) :
    (note ts).on b = (.ok (freshTracks b.peer.announced ts).1,
      { b with peer := { b.peer with announced := (freshTracks b.peer.announced ts).2 } }) := by
  induction ts generalizing b with
  | nil => simp [note, freshTracks]
  | cons t rest ih =>
      by_cases h : t.id ∈ b.peer.announced
      · simp [note, freshTracks, ih, h]
      · simp [note, freshTracks, ih, h, Except.map]

theorem tellAll_on (events : List PeerEvent) (b : Bench) :
    (tellAll events).on b = (.ok (), { b with told := b.told ++ events }) := by
  induction events generalizing b with
  | nil => simp [tellAll]
  | cons e rest ih => simp [tellAll, ih]

theorem setRemote_on (d : Description) (b : Bench) :
    (setRemote d).on b = b.after (b.peer.setRemote d) := by
  obtain ⟨kind, sdp⟩ := d
  cases kind <;> cases h : b.peer.signaling <;>
    simp [setRemote, ensureOpen_on, note_on, tellAll_on, Peer.setRemote, announce, Bench.after, h]

theorem addCandidate_on (c : Candidate) (b : Bench) :
    (addCandidate c).on b = b.after (b.peer.addCandidate c) := by
  by_cases hclosed : b.peer.signaling = .closed
  · simp [addCandidate, ensureOpen_on, Peer.addCandidate, isOpen, Bench.after, hclosed]
  · by_cases hremote : b.peer.currentRemote = none
    · simp [addCandidate, ensureOpen_on, Peer.addCandidate, isOpen, Bench.after, hclosed, hremote]
    · by_cases hnew : b.peer.ice = .new <;>
        simp [addCandidate, ensureOpen_on, Peer.addCandidate, isOpen, Bench.after, hclosed, hremote,
          hnew]

/-- An operation that is carried out step by step comes to what it is at once. -/
theorem carryOut_on (op : Operation) (b : Bench) :
    (carryOut op).on b = b.after (b.peer.perform op) := by
  cases op with
  | addTrack t => simp [carryOut, perform, Peer.addTrack, Bench.after]
  | removeTrack t => simp [carryOut, perform, Peer.removeTrack, Bench.after]
  | createOffer =>
      cases h : b.peer.createOffer <;>
        simp [carryOut, perform, createOffer_on, Bench.after, Except.map, h]
  | createAnswer =>
      cases h : b.peer.createAnswer <;>
        simp [carryOut, perform, createAnswer_on, Bench.after, Except.map, h]
  | setLocal d => exact setLocal_on d b
  | clearLocal => exact clearLocal_on b
  | rollback => exact rollback_on b
  | setRemote d => exact setRemote_on d b
  | addCandidate c => exact addCandidate_on c b
  | setIce s => simp [carryOut, perform, Peer.setIce, Bench.after]
  | close => simp [carryOut, perform, Peer.close, Bench.after]

end Procedure

end Parley.Peer
