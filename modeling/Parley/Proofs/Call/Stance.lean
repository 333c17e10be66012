import Parley.Link

/-!
# Where a link stands

For the exchange of offers and answers all that matters of a link is its stance: the offer of ours
that is not answered yet, and the two descriptions that the last finished round agreed on. A stance
fixes the descriptions and the signaling state of the connection and the phase of the link
(`Link.Holds`). Every link is in some stance, and each operation moves it in the way the stance
alone foretells; tracks, candidates and the network do not move it.
-/

namespace Parley

/-- An offer that waits for its answer, and the current descriptions, the local one first. -/
structure Stance where
  offered : Option Description := none
  agreed : Option (Description × Description) := none

/-- A report is no bad news of the network. -/
def PeerEvent.IsAlive (e : PeerEvent) : Prop := ∀ s, e = .iceChanged s → s.isDead = false

instance (e : PeerEvent) : Decidable e.IsAlive :=
  match e with
  | .iceChanged s =>
    decidable_of_iff (s.isDead = false) ⟨fun h _ hs => by cases hs; exact h, fun h => h s rfl⟩
  | .gathered _ | .track _ => .isTrue fun _ hs => by cases hs

namespace Peer

structure Holds (p : Peer) (st : Stance) : Prop where
  pendingLocal : p.pendingLocal = st.offered
  pendingRemote : p.pendingRemote = none
  currentLocal : p.currentLocal = st.agreed.map (·.1)
  currentRemote : p.currentRemote = st.agreed.map (·.2)
  signaling : p.signaling = if st.offered.isSome then .haveLocalOffer else .stable

variable {p : Peer} {st : Stance}

theorem isAlive_of_mem_gather {e : PeerEvent} (h : e ∈ p.gather.2) : e.IsAlive := by
  obtain ⟨i, -, rfl⟩ := List.mem_map.mp h
  exact fun s hs => by cases hs

theorem isAlive_of_mem_announce {d : Description} {e : PeerEvent} (h : e ∈ (p.announce d).2) :
    e.IsAlive := by
  obtain ⟨t, -, rfl⟩ := List.mem_map.mp h
  exact fun s hs => by cases hs

namespace Holds

theorem isSettled (h : p.Holds st) :
    Connection.isSettled p = (st.offered.isNone && st.agreed.isSome) := by
  rw [Connection.isSettled, connection_descriptions, descriptions, h.pendingLocal,
    h.pendingRemote, h.currentLocal, h.currentRemote]
  cases st.offered <;> cases st.agreed <;> rfl

theorem crossing (h : p.Holds st) :
    Connection.signaling p = .haveLocalOffer ↔ st.offered.isSome := by
  rw [connection_signaling, h.signaling]
  cases st.offered <;> simp

/-- Nothing but the descriptions and the signaling state matters. -/
theorem congr {q : Peer} (h : p.Holds st) (hpl : q.pendingLocal = p.pendingLocal)
    (hpr : q.pendingRemote = p.pendingRemote) (hcl : q.currentLocal = p.currentLocal)
    (hcr : q.currentRemote = p.currentRemote) (hs : q.signaling = p.signaling) : q.Holds st :=
  ⟨hpl.trans h.pendingLocal, hpr.trans h.pendingRemote, hcl.trans h.currentLocal,
    hcr.trans h.currentRemote, hs.trans h.signaling⟩

theorem foldl {f : Peer → Track → Peer} (h : p.Holds st)
    (hf : ∀ p t, p.Holds st → (f p t).Holds st) (tracks : List Track) :
    (tracks.foldl f p).Holds st := by
  induction tracks generalizing p with
  | nil => exact h
  | cons t rest ih => exact ih (hf p t h)

theorem fresh (label : String) : ({ label } : Peer).Holds {} := ⟨rfl, rfl, rfl, rfl, rfl⟩

/-- A new offer takes the place of one that waits. -/
theorem offer (h : p.Holds st) :
    ∃ o q events, Connection.offer p = ⟨.ok o, q, events⟩ ∧ o.kind = .offer ∧
      q.Holds { st with offered := some o } ∧ ∀ e ∈ events, e.IsAlive := by
  let o : Description := ⟨.offer, Sdp.text p.label "offer" p.tracks⟩
  let q : Peer := { p with pendingLocal := some o, signaling := .haveLocalOffer }
  have hs := h.signaling
  have hcreate : p.createOffer = .ok o := if_pos (by rw [isOpen, hs]; split <;> decide)
  have hset : p.setLocal o = .ok q.gather := by
    unfold setLocal
    cases hoffered : st.offered <;> simp [hoffered] at hs <;> rw [hs]
  refine ⟨o, q.gather.1, q.gather.2, ?_, rfl, ?_, fun e => isAlive_of_mem_gather⟩
  · simp [Connection.offer, Reply.andThen, Reply.map, hcreate, hset, Result.reply, Except.map]
  · exact ⟨rfl, h.pendingRemote, h.currentLocal, h.currentRemote, rfl⟩

/-- A connection makes room for an answer of its own. -/
theorem makeRoom (h : p.Holds st) :
    ∃ q, Connection.makeRoom p = ⟨.ok (), q, []⟩ ∧ q.signaling = .stable ∧
      q.pendingLocal = none ∧ q.pendingRemote = none := by
  have hs := h.signaling
  unfold Connection.makeRoom
  cases hoffered : st.offered with
  | some o =>
      simp only [hoffered, Option.isSome_some, if_true] at hs
      refine ⟨{ p with pendingLocal := none, signaling := .stable }, ?_, rfl, rfl, h.pendingRemote⟩
      simp [hs, rollback, Result.reply]
  | none =>
      simp only [hoffered, Option.isSome_none, Bool.false_eq_true, if_false] at hs
      have hpending : p.pendingLocal = none := h.pendingLocal.trans hoffered
      by_cases hcurrent : p.currentLocal.isSome = true
      · refine ⟨{ p with currentLocal := none }, ?_, hs, hpending, h.pendingRemote⟩
        simp [hs, descriptions, hcurrent, clearLocal, Result.reply]
      · refine ⟨p, ?_, hs, hpending, h.pendingRemote⟩
        simp [hs, descriptions, hcurrent, Reply.skip]

/-- A remote offer that is taken is answered, whether an offer of ours waits or not. -/
theorem answer (h : p.Holds st) {d : Description} (hd : d.kind = .offer) :
    ∃ a q events, Connection.apply p d = ⟨.ok (some a), q, events⟩ ∧ a.kind = .answer ∧
      q.Holds ⟨none, some (a, d)⟩ ∧ ∀ e ∈ events, e.IsAlive := by
  obtain ⟨r, hroom, hs, hpl, hpr⟩ := h.makeRoom
  let received : Peer := { r with pendingRemote := some d, signaling := .haveRemoteOffer }
  let a : Description := ⟨.answer, Sdp.text r.label "answer" r.tracks⟩
  let answered : Peer :=
    { (received.announce d).1 with
      currentRemote := some d, pendingRemote := none, currentLocal := some a, signaling := .stable }
  have hremote : r.setRemote d = .ok (received.announce d) := by
    unfold setRemote
    rw [hd, hs]
  have hcreate : (received.announce d).1.createAnswer = .ok a := rfl
  have hlocal : (received.announce d).1.setLocal a = .ok answered.gather := rfl
  refine ⟨a, answered.gather.1, (received.announce d).2 ++ answered.gather.2, ?_, rfl,
    ⟨hpl, rfl, rfl, rfl, rfl⟩, ?_⟩
  · simp [Connection.apply, Connection.answer, Description.isOffer, hd, hroom, Reply.andThen,
      Reply.map, hremote, hcreate, hlocal, Result.reply, Except.map]
  · intro e he
    rcases List.mem_append.mp he with he | he
    · exact isAlive_of_mem_announce he
    · exact isAlive_of_mem_gather he

/-- An answer makes the offer that waits and itself current. -/
theorem take {o d : Description} (h : p.Holds st) (ho : st.offered = some o)
    (hd : d.kind = .answer) :
    ∃ q events, Connection.apply p d = ⟨.ok none, q, events⟩ ∧
      q.Holds ⟨none, some (o, d)⟩ ∧ ∀ e ∈ events, e.IsAlive := by
  have hs := h.signaling
  simp only [ho, Option.isSome_some, if_true] at hs
  let taken : Peer :=
    { p with
      currentLocal := p.pendingLocal, pendingLocal := none, currentRemote := some d,
      signaling := .stable }
  have hremote : p.setRemote d = .ok (taken.announce d) := by
    unfold setRemote
    rw [hd, hs]
  refine ⟨(taken.announce d).1, (taken.announce d).2, ?_,
    ⟨rfl, h.pendingRemote, h.pendingLocal.trans ho, rfl, rfl⟩, fun e => isAlive_of_mem_announce⟩
  simp [Connection.apply, Description.isOffer, hd, hremote, Result.reply, Reply.map, Except.map]

theorem stray {d : Description} (h : p.Holds st) (ho : st.offered.isSome)
    (hoffer : d.kind ≠ .offer) (hanswer : d.kind ≠ .answer) :
    ∃ e, Connection.apply p d = ⟨.error e, p, []⟩ := by
  have hs := h.signaling
  rw [if_pos ho] at hs
  have hremote : ∃ e, p.setRemote d = .error e := by
    unfold setRemote
    rw [hs]
    cases hd : d.kind with
    | offer => exact absurd hd hoffer
    | answer => exact absurd hd hanswer
    | provisional => exact ⟨_, rfl⟩
    | rollback => exact ⟨_, rfl⟩
  obtain ⟨e, hremote⟩ := hremote
  refine ⟨e, ?_⟩
  simp [Connection.apply, Description.isOffer, hoffer, hremote, Result.reply, Reply.map, Except.map]

theorem addCandidate (h : p.Holds st) (c : Candidate) :
    (Connection.addCandidate p c).after.Holds st ∧
      ∀ e ∈ (Connection.addCandidate p c).events, e.IsAlive := by
  rw [connection_addCandidate, Peer.addCandidate]
  split
  · exact ⟨h, nofun⟩
  · split
    · exact ⟨h, nofun⟩
    · dsimp only
      split
      · refine ⟨h.congr rfl rfl rfl rfl rfl, fun e he => ?_⟩
        rw [List.mem_singleton.mp he]
        exact fun s hs => by cases hs; rfl
      · exact ⟨h.congr rfl rfl rfl rfl rfl, nofun⟩

end Holds

end Peer

/-- The phase of a link in a stance. -/
def Stance.phase (st : Stance) : LinkPhase :=
  if st.offered.isSome then .negotiating else if st.agreed.isSome then .stable else .new

theorem Stance.phase_ne_closed (st : Stance) : st.phase ≠ .closed := by
  unfold Stance.phase
  split
  · nofun
  · split <;> nofun

namespace Link

/-- The connection and the phase are those of the stance, and candidates do not wait once a round is
finished. -/
structure Holds (l : Link) (st : Stance) : Prop where
  peer : l.peer.Holds st
  phase : l.phase = st.phase
  queue : st.offered = none → st.agreed.isSome → l.queue = []

/-- The stance that a link is in, if it is in one. -/
def stance (l : Link) : Stance where
  offered := l.peer.pendingLocal
  agreed := l.peer.currentLocal.bind fun d => l.peer.currentRemote.map (d, ·)

namespace Holds

variable {l : Link} {st : Stance}

theorem stance_eq (h : l.Holds st) : l.stance = st := by
  unfold Link.stance
  rw [h.peer.pendingLocal, h.peer.currentLocal, h.peer.currentRemote]
  obtain ⟨offered, agreed⟩ := st
  cases agreed <;> rfl

theorem ne_closed (h : l.Holds st) : l.phase ≠ .closed := by
  rw [h.phase]
  exact st.phase_ne_closed

theorem negotiate_eq (h : l.Holds st) : l.negotiate = { l with phase := .negotiating } :=
  if_neg h.ne_closed

/-- Only the descriptions, the signaling state, the phase and the queue matter. -/
theorem congr {k : Link} (h : l.Holds st) (hp : k.peer.Holds st) (hphase : k.phase = l.phase)
    (hqueue : k.queue = l.queue) : k.Holds st :=
  ⟨hp, hphase.trans h.phase, fun ho ha => hqueue.trans (h.queue ho ha)⟩

/-- A finished round lets all candidates out. -/
theorem flush (hp : l.peer.Holds st) (hphase : l.phase ≠ .closed) (ho : st.offered = none)
    (ha : st.agreed.isSome) : l.flush.1.Holds st := by
  have hsettled : Connection.isSettled l.peer = true := by rw [hp.isSettled, ho, ha]; rfl
  have hflush : l.flush = ({ l with phase := .stable, queue := [] }, l.queue) :=
    if_neg (by simp [hphase, hsettled])
  rw [hflush]
  exact ⟨hp, by rw [Stance.phase, ho, ha]; rfl, fun _ _ => rfl⟩

theorem offer (h : l.Holds st) :
    ∃ o q events, Connection.offer l.peer = ⟨.ok o, q, events⟩ ∧ o.kind = .offer ∧
      ({ l.negotiate with peer := q } : Link).Holds { st with offered := some o } ∧
      ∀ e ∈ events, e.IsAlive := by
  obtain ⟨o, q, events, hoffer, hkind, hq, halive⟩ := h.peer.offer
  refine ⟨o, q, events, hoffer, hkind, ⟨hq, ?_, nofun⟩, halive⟩
  rw [h.negotiate_eq]
  rfl

/-- With a remote offer that is taken a round is finished. -/
theorem answer (h : l.Holds st) {d : Description} (hd : d.kind = .offer)
    {k : Link} (hpeer : k.peer = l.peer) (hphase : k.phase ≠ .closed) :
    ∃ a q events, Connection.apply k.peer d = ⟨.ok (some a), q, events⟩ ∧ a.kind = .answer ∧
      ({ k with peer := q } : Link).flush.1.Holds ⟨none, some (a, d)⟩ ∧
      ∀ e ∈ events, e.IsAlive := by
  obtain ⟨a, q, events, happly, hkind, hq, halive⟩ := h.peer.answer hd
  exact ⟨a, q, events, by rw [hpeer, happly], hkind, flush hq hphase rfl rfl, halive⟩

theorem take (h : l.Holds st) {o d : Description} (ho : st.offered = some o)
    (hd : d.kind = .answer) :
    ∃ q events, Connection.apply l.peer d = ⟨.ok none, q, events⟩ ∧
      ({ l with peer := q } : Link).flush.1.Holds ⟨none, some (o, d)⟩ ∧
      ∀ e ∈ events, e.IsAlive := by
  obtain ⟨q, events, happly, hq, halive⟩ := h.peer.take ho hd
  exact ⟨q, events, happly, flush hq h.ne_closed rfl rfl, halive⟩

theorem gather (h : l.Holds st) (c : Candidate) : (l.gather c).1.Holds st := by
  have hgather : l.gather c = ({ l with queue := l.queue ++ [c] } : Link).flush :=
    if_neg h.ne_closed
  rw [hgather]
  by_cases hsettled : st.offered = none ∧ st.agreed.isSome
  · exact flush h.peer h.ne_closed hsettled.1 hsettled.2
  · have hopen : Connection.isSettled l.peer = false := by
      rw [h.peer.isSettled]
      cases hoffered : st.offered <;> simp_all
    have hflush : ({ l with queue := l.queue ++ [c] } : Link).flush =
        ({ l with queue := l.queue ++ [c] }, []) := if_pos (.inr hopen)
    rw [hflush]
    exact ⟨h.peer, h.phase, fun ho ha => absurd ⟨ho, ha⟩ hsettled⟩

theorem attach (h : l.Holds st) (s : MediaStream) : (l.attach s).Holds st := by
  have hpeer : (s.tracks.foldl Connection.addTrack l.peer).Holds st := by
    refine h.peer.foldl (fun p t hp => ?_) s.tracks
    exact hp.congr rfl rfl rfl rfl rfl
  exact h.congr hpeer rfl rfl

theorem detach (h : l.Holds st) (s : MediaStream) : (l.detach s).Holds st := by
  have hpeer : (s.tracks.foldl Connection.removeTrack l.peer).Holds st := by
    refine h.peer.foldl (fun p t hp => ?_) s.tracks
    exact hp.congr rfl rfl rfl rfl rfl
  exact h.congr hpeer rfl rfl

end Holds

end Link

end Parley
