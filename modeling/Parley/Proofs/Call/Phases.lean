import Parley.Proofs.Call.Balance

/-!
# The phase of a link and the state of its connection

A link keeps its phase and the connection its signaling state, and the two are set in different
places: when an offer is made or heard, when it is applied, when the link is settled. Still the phase
tells the state. Both are fixed by the stance of the link, and every link is in some stance, so what
is left is the queue: no candidate waits once a round is finished, and none was found before the
first description (`Peer.blank_of_course`).
-/

namespace Parley

namespace Peer

namespace Holds

variable {p : Peer} {st : Stance}

theorem unique {st' : Stance} (h : p.Holds st) (h' : p.Holds st') : st = st' := by
  obtain ⟨offered, agreed⟩ := st
  obtain ⟨offered', agreed'⟩ := st'
  have hoffered : offered = offered' := h.pendingLocal.symm.trans h'.pendingLocal
  have hlocal : agreed.map (·.1) = agreed'.map (·.1) := h.currentLocal.symm.trans h'.currentLocal
  have hremote : agreed.map (·.2) = agreed'.map (·.2) :=
    h.currentRemote.symm.trans h'.currentRemote
  subst hoffered
  cases agreed <;> cases agreed' <;> simp_all [Prod.ext_iff]

/-- A description that is no offer is refused while no offer of ours is out. -/
theorem unasked {d : Description} (h : p.Holds st) (ho : st.offered = none)
    (hd : d.kind ≠ .offer) : ∃ e, Connection.apply p d = ⟨.error e, p, []⟩ := by
  have hs : p.signaling = .stable := by rw [h.signaling, ho]; rfl
  have hremote : ∃ e, p.setRemote d = .error e := by
    unfold setRemote
    rw [hs]
    cases hkind : d.kind with
    | offer => exact absurd hkind hd
    | answer => exact ⟨_, rfl⟩
    | provisional => exact ⟨_, rfl⟩
    | rollback => exact ⟨_, rfl⟩
  obtain ⟨e, hremote⟩ := hremote
  refine ⟨e, ?_⟩
  simp [Connection.apply, Description.isOffer, hd, hremote, Result.reply, Reply.map, Except.map]

/-- A connection that takes a description has one then, and one that refuses it stays as it was. -/
theorem apply (h : p.Holds st) (d : Description) :
    (∃ e, Connection.apply p d = ⟨.error e, p, []⟩) ∨
      ∃ st', (Connection.apply p d).after.Holds st' ∧ st'.agreed.isSome := by
  by_cases hoffer : d.kind = .offer
  · obtain ⟨a, q, events, happly, -, hq, -⟩ := h.answer hoffer
    exact .inr ⟨_, by rwa [happly], rfl⟩
  · cases ho : st.offered with
    | none => exact .inl (h.unasked ho hoffer)
    | some o =>
        by_cases hanswer : d.kind = .answer
        · obtain ⟨q, events, happly, hq, -⟩ := h.take ho hanswer
          exact .inr ⟨_, by rwa [happly], rfl⟩
        · exact .inl (h.stray (by rw [ho]; rfl) hoffer hanswer)

end Holds

/-- A connection without a description refuses every candidate. -/
theorem Holds.addCandidate_of_new {p : Peer} (h : p.Holds {}) (c : Candidate) :
    (Connection.addCandidate p c).after = p := by
  rw [connection_addCandidate, Peer.addCandidate]
  split
  · rfl
  · rw [if_pos (by rw [h.currentRemote]; rfl)]
    rfl

/-- A new connection is in some stance over its whole course. Before it has a description it finds
nothing and takes no candidates. -/
theorem blank_of_course {label : String} {p : Peer} {events : List PeerEvent}
    (h : Connection.Course ({ label } : Peer) p events) :
    ∃ st, p.Holds st ∧ (st = {} → p.gathered = 0 ∧ p.applied = []) := by
  induction h with
  | nothing => exact ⟨{}, .fresh label, fun _ => ⟨rfl, rfl⟩⟩
  | addTrack _ t ih =>
      obtain ⟨st, hst, hblank⟩ := ih
      exact ⟨st, hst.congr rfl rfl rfl rfl rfl, hblank⟩
  | removeTrack _ t ih =>
      obtain ⟨st, hst, hblank⟩ := ih
      exact ⟨st, hst.congr rfl rfl rfl rfl rfl, hblank⟩
  | offer _ ih =>
      obtain ⟨st, hst, -⟩ := ih
      obtain ⟨o, q, events, hoffer, -, hq, -⟩ := hst.offer
      exact ⟨{ st with offered := some o }, by rwa [hoffer], nofun⟩
  | apply _ d ih =>
      obtain ⟨st, hst, hblank⟩ := ih
      rcases hst.apply d with ⟨e, happly⟩ | ⟨st', hst', hagreed⟩
      · exact ⟨st, by rwa [happly], by rwa [happly]⟩
      · refine ⟨st', hst', ?_⟩
        rintro rfl
        cases hagreed
  | addCandidate _ c ih =>
      obtain ⟨st, hst, hblank⟩ := ih
      refine ⟨st, (hst.addCandidate c).1, ?_⟩
      rintro rfl
      rw [hst.addCandidate_of_new]
      exact hblank rfl
  | network _ n ih =>
      obtain ⟨st, hst, hblank⟩ := ih
      exact ⟨st, hst.congr rfl rfl rfl rfl rfl, hblank⟩

end Peer

/-! ## Stances and phases -/

theorem Peer.Holds.descriptions {p : Peer} {st : Stance} (h : p.Holds st) :
    p.descriptions = ⟨st.agreed.isSome, st.agreed.isSome, st.offered.isSome, false⟩ := by
  rw [Peer.descriptions, h.currentLocal, h.currentRemote, h.pendingLocal, h.pendingRemote]
  simp

namespace Link.Holds

variable {l : Link} {st : Stance}

theorem phase_eq_new_iff (h : l.Holds st) :
    l.phase = .new ↔ l.peer.signaling = .stable ∧ l.peer.descriptions = {} := by
  obtain ⟨offered, agreed⟩ := st
  rw [h.phase, h.peer.signaling, h.peer.descriptions]
  cases offered <;> cases agreed <;> simp [Stance.phase]

theorem phase_eq_negotiating_iff (h : l.Holds st) :
    l.phase = .negotiating ↔ l.peer.signaling = .haveLocalOffer := by
  obtain ⟨offered, agreed⟩ := st
  rw [h.phase, h.peer.signaling]
  cases offered <;> cases agreed <;> simp [Stance.phase]

theorem phase_eq_stable_iff (h : l.Holds st) :
    l.phase = .stable ↔ l.peer.signaling = .stable ∧ l.peer.isSettled = true := by
  obtain ⟨offered, agreed⟩ := st
  rw [h.phase, h.peer.signaling, Peer.isSettled, h.peer.descriptions]
  cases offered <;> cases agreed <;> simp [Stance.phase, DescriptionState.isSettled]

theorem signaling_ne_haveRemoteOffer (h : l.Holds st) : l.peer.signaling ≠ .haveRemoteOffer := by
  rw [h.peer.signaling]
  split <;> nofun

/-- Candidates can wait only while an offer is out or before the first description. -/
theorem phase_of_queue (h : l.Holds st) (hqueue : l.queue ≠ []) :
    l.phase = .negotiating ∨ st = {} := by
  obtain ⟨offered, agreed⟩ := st
  rw [h.phase]
  cases offered with
  | some o => exact .inl rfl
  | none =>
      cases agreed with
      | some d => exact absurd (h.queue rfl rfl) hqueue
      | none => exact .inr rfl

end Link.Holds

namespace Agent

/-- A new link has nothing under way, for its connection found nothing yet, nor did it take any
candidates. -/
theorem blank_of_new {history : List (Setting × Turn)}
    (fresh : ∀ st ∈ history, st.1.Fresh) {r : String} {l : Link}
    (stands : (run {} history).1.call.links.find? r = some l) (h : l.Holds {}) :
    l.peer.gathered = 0 ∧ l.peer.applied = [] ∧ (run {} history).1.underWay r l = [] := by
  cases Orderly.empty.lived stands with
  | stood hl _ _ => exact absurd hl not_stands_empty
  | @made st p hst hp _ hpassage =>
      obtain ⟨label, rfl⟩ := fresh st hst r p hp
      obtain ⟨events, taken, hcourse, hway, -⟩ := hpassage
      obtain ⟨st', hst', hblank⟩ := Peer.blank_of_course hcourse
      obtain ⟨hgathered, happlied⟩ := hblank (hst'.unique h.peer)
      -- All that is under way was found by the connection, which found nothing.
      have hfound : gatheredIn events = [] := by
        have hall := Connection.found_of_course hcourse
        simpa [Peer.foundCandidates, hgathered] using hall.symm
      rw [List.nil_append, hfound] at hway
      exact ⟨hgathered, happlied, (List.append_eq_nil_iff.mp hway.symm).2⟩

theorem queue_eq_nil_of_new {history : List (Setting × Turn)}
    (fresh : ∀ st ∈ history, st.1.Fresh) {r : String} {l : Link}
    (stands : (run {} history).1.call.links.find? r = some l) (h : l.Holds {}) :
    l.queue = [] :=
  (List.append_eq_nil_iff.mp (blank_of_new fresh stands h).2.2).1

/-- Between the turns of an agent over connections in memory, whatever it hears, the phase of every
link tells the state of its connection: a new link has a connection without descriptions, on one that
negotiates an offer of ours waits for its answer, and a stable one is settled. No link is closed, no
connection is left with an offer that it did not answer, and candidates are queued only while an
offer is out. -/
theorem phase_tells_state {history : List (Setting × Turn)}
    (fresh : ∀ st ∈ history, st.1.Fresh) {r : String} {l : Link}
    (stands : (run {} history).1.call.links.find? r = some l) :
    (l.phase = .new ↔ l.peer.signaling = .stable ∧ l.peer.descriptions = {}) ∧
      (l.phase = .negotiating ↔ l.peer.signaling = .haveLocalOffer) ∧
      (l.phase = .stable ↔ l.peer.signaling = .stable ∧ l.peer.isSettled = true) ∧
      l.phase ≠ .closed ∧ l.peer.signaling ≠ .haveRemoteOffer ∧
      (l.queue ≠ [] → l.phase = .negotiating) := by
  obtain ⟨st, hat⟩ := (Sound.empty.run fresh).lines r
  have h : l.Holds st := by simpa [Call.At, stands] using hat
  refine ⟨h.phase_eq_new_iff, h.phase_eq_negotiating_iff, h.phase_eq_stable_iff, h.ne_closed,
    h.signaling_ne_haveRemoteOffer, fun hqueue => ?_⟩
  rcases h.phase_of_queue hqueue with hphase | rfl
  · exact hphase
  · exact absurd (queue_eq_nil_of_new fresh stands h) hqueue

/-- An offer is out and one of its candidates is queued. An answer that came too early and a
withdrawal of an offer that was never made change nothing. -/
theorem phase_tells_state_stray :
    let s : Setting := { me := some "me", connect := fun _ => some { label := "me" } }
    let say (e : Event) : SessionEvent := .message { sender := "peer", event := e }
    let describe (kind : DescriptionKind) : SessionEvent :=
      say (.signal (.ofDescription "me" ⟨kind, "v=0"⟩))
    let history : List (Setting × Turn) :=
      [(s, .session (say (.streamInquiry none))), (s, .session (describe .answer)),
        (s, .session (say (.startStream (some "me")))), (s, .session (describe .rollback)),
        (s, .session (describe .provisional)), (s, .signal)]
    (∀ st ∈ history, st.1.Fresh) ∧
      ∃ l : Link, (run {} history).1.call.links.find? "peer" = some l ∧
        l.queue = [Peer.candidate "me" 0] ∧ l.phase = .negotiating ∧
        l.peer.signaling = .haveLocalOffer := by
  intro s say describe history
  have fresh : ∀ st ∈ history, st.1.Fresh := by
    intro st hst r p hp
    have hs : st.1 = s := by
      simp only [history, List.mem_cons, List.not_mem_nil, or_false] at hst
      rcases hst with rfl | rfl | rfl | rfl | rfl | rfl <;> rfl
    rw [hs] at hp
    cases hp
    exact ⟨"me", rfl⟩
  let l : Link := ((run {} history).1.call.links.find? "peer").get (by decide)
  have stands : (run {} history).1.call.links.find? "peer" = some l := (Option.some_get _).symm
  have hqueue : l.queue = [Peer.candidate "me" 0] := by decide
  obtain ⟨-, hnegotiating, -, -, -, hwaits⟩ := phase_tells_state fresh stands
  have hphase : l.phase = .negotiating := hwaits (by rw [hqueue]; nofun)
  exact ⟨fresh, l, stands, hqueue, hphase, hnegotiating.mp hphase⟩

end Agent

end Parley
