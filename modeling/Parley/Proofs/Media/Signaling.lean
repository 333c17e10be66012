import Parley.Proofs.Media.Procedures

/-!
# The signaling state tells what is pending

A connection is in one of three states until it is closed: no description is pending, or a local one
is, or a remote one (`Peer.Coherent`). Each operation that does not fail moves it from one of these
to another and takes the descriptions along; which operations those are the state tells as well
(`Peer.Accepts`). One that fails gives up before its first change.
-/

namespace Parley.Peer

/-! ## What is pending -/

/-- What is pending is what the signaling state tells, as long as the connection is open. -/
def Coherent (p : Peer) : Prop :=
  match p.signaling with
  | .stable => p.pendingLocal = none ∧ p.pendingRemote = none
  | .haveLocalOffer => p.pendingLocal.isSome ∧ p.pendingRemote = none
  | .haveRemoteOffer => p.pendingLocal = none ∧ p.pendingRemote.isSome
  | .closed => True
  | .haveLocalProvisional | .haveRemoteProvisional => False

namespace Coherent

variable {p q : Peer}

theorem fresh (label : String) : ({ label } : Peer).Coherent := ⟨rfl, rfl⟩

theorem congr (h : p.Coherent) (hs : q.signaling = p.signaling)
    (hl : q.pendingLocal = p.pendingLocal) (hr : q.pendingRemote = p.pendingRemote) :
    q.Coherent := by
  unfold Coherent at h ⊢
  rw [hs, hl, hr]
  exact h

theorem of_stable (h : p.Coherent) (hs : p.signaling = .stable) :
    p.pendingLocal = none ∧ p.pendingRemote = none := by
  rwa [Coherent, hs] at h

theorem haveLocalOffer_iff (h : p.Coherent) (hopen : p.signaling ≠ .closed) :
    p.signaling = .haveLocalOffer ↔ p.pendingLocal.isSome ∧ p.pendingRemote = none := by
  unfold Coherent at h
  cases hs : p.signaling <;> simp_all

theorem haveRemoteOffer_iff (h : p.Coherent) (hopen : p.signaling ≠ .closed) :
    p.signaling = .haveRemoteOffer ↔ p.pendingRemote.isSome ∧ p.pendingLocal = none := by
  unfold Coherent at h
  cases hs : p.signaling <;> simp_all

theorem not_provisional (h : p.Coherent) :
    p.signaling ≠ .haveLocalProvisional ∧ p.signaling ≠ .haveRemoteProvisional := by
  unfold Coherent at h
  cases hs : p.signaling <;> simp_all

theorem stable_of_isSettled (h : p.Coherent) (hsettled : p.isSettled = true)
    (hopen : p.signaling ≠ .closed) : p.signaling = .stable := by
  unfold Coherent at h
  simp only [isSettled, descriptions, DescriptionState.isSettled, Bool.and_eq_true,
    Bool.not_eq_true', Option.isSome_eq_false_iff, Option.isNone_iff_eq_none] at hsettled
  cases hs : p.signaling <;> simp_all

/-! ## One operation -/

theorem setLocal {d : Description} {r : Peer × List PeerEvent} (h : p.Coherent)
    (hr : p.setLocal d = .ok r) : r.1.Coherent := by
  unfold Peer.setLocal at hr
  split at hr
  · cases hr
  · rename_i hs
    cases hr
    exact ⟨rfl, (h.of_stable hs).2⟩
  · rename_i hs
    cases hr
    rw [Coherent, hs] at h
    exact ⟨rfl, h.2⟩
  · rename_i hs
    cases hr
    rw [Coherent, hs] at h
    exact ⟨h.1, rfl⟩
  · cases hr

theorem setRemote {d : Description} {r : Peer × List PeerEvent} (h : p.Coherent)
    (hr : p.setRemote d = .ok r) : r.1.Coherent := by
  unfold Peer.setRemote at hr
  split at hr
  · cases hr
  · rename_i hs
    cases hr
    exact ⟨(h.of_stable hs).1, rfl⟩
  · rename_i hs
    cases hr
    rw [Coherent, hs] at h
    exact ⟨rfl, h.2⟩
  · cases hr

theorem rollback {r : Peer × List PeerEvent} (h : p.Coherent) (hr : p.rollback = .ok r) :
    r.1.Coherent := by
  unfold Peer.rollback at hr
  split at hr
  · cases hr
  · rename_i hs
    cases hr
    rw [Coherent, hs] at h
    exact ⟨rfl, h.2⟩
  · cases hr

theorem perform {op : Operation} {r : Peer × List PeerEvent} (h : p.Coherent)
    (hr : p.perform op = .ok r) : r.1.Coherent := by
  cases op with
  | addTrack t =>
      cases hr
      exact h.congr rfl rfl rfl
  | removeTrack t =>
      cases hr
      exact h.congr rfl rfl rfl
  | createOffer =>
      change p.createOffer.map _ = .ok r at hr
      cases hoffer : p.createOffer <;> rw [hoffer] at hr <;> cases hr
      exact h
  | createAnswer =>
      change p.createAnswer.map _ = .ok r at hr
      cases hanswer : p.createAnswer <;> rw [hanswer] at hr <;> cases hr
      exact h
  | setLocal d => exact h.setLocal hr
  | clearLocal =>
      change p.clearLocal = .ok r at hr
      unfold Peer.clearLocal at hr
      split at hr
      · cases hr
      · cases hr
        exact h.congr rfl rfl rfl
      · cases hr
        exact h
  | rollback => exact h.rollback hr
  | setRemote d => exact h.setRemote hr
  | addCandidate c =>
      change p.addCandidate c = .ok r at hr
      unfold Peer.addCandidate at hr
      split at hr
      · cases hr
      · split at hr
        · cases hr
        · dsimp only at hr
          split at hr <;> cases hr <;> exact h.congr rfl rfl rfl
  | setIce s =>
      cases hr
      exact h.congr rfl rfl rfl
  | close =>
      cases hr
      trivial

end Coherent

/-! ## What is in order -/

/-- Whether an operation is in order where the connection stands. -/
def Accepts (p : Peer) : Operation → Prop
  | .addTrack _ | .removeTrack _ | .setIce _ | .close => True
  | .createOffer | .clearLocal => p.signaling ≠ .closed
  | .createAnswer => p.signaling = .haveRemoteOffer
  | .setLocal d =>
    d.kind = .offer ∧ (p.signaling = .stable ∨ p.signaling = .haveLocalOffer) ∨
      d.kind = .answer ∧ p.signaling = .haveRemoteOffer
  | .rollback => p.signaling = .haveLocalOffer
  | .setRemote d =>
    d.kind = .offer ∧ p.signaling = .stable ∨ d.kind = .answer ∧ p.signaling = .haveLocalOffer
  | .addCandidate _ => p.signaling ≠ .closed ∧ p.currentRemote.isSome

/-- Operations on descriptions, offers, answers and candidates. -/
def Operation.Negotiates : Operation → Prop
  | .addTrack _ | .removeTrack _ | .setIce _ | .close => False
  | .createOffer | .createAnswer | .setLocal _ | .clearLocal | .rollback | .setRemote _
  | .addCandidate _ => True

theorem perform_ok_iff (p : Peer) (op : Operation) :
    (∃ r, p.perform op = .ok r) ↔ p.Accepts op := by
  cases op with
  | addTrack t => exact ⟨fun _ => trivial, fun _ => ⟨_, rfl⟩⟩
  | removeTrack t => exact ⟨fun _ => trivial, fun _ => ⟨_, rfl⟩⟩
  | createOffer =>
      cases h : p.signaling <;> simp [perform, createOffer, isOpen, Accepts, Except.map, h]
  | createAnswer => cases h : p.signaling <;> simp [perform, createAnswer, Accepts, Except.map, h]
  | setLocal d =>
      obtain ⟨kind, sdp⟩ := d
      cases kind <;> cases h : p.signaling <;> simp [perform, setLocal, Accepts, h]
  | clearLocal => cases h : p.signaling <;> simp [perform, clearLocal, Accepts, h]
  | rollback => cases h : p.signaling <;> simp [perform, rollback, Accepts, h]
  | setRemote d =>
      obtain ⟨kind, sdp⟩ := d
      cases kind <;> cases h : p.signaling <;> simp [perform, setRemote, Accepts, h]
  | addCandidate c =>
      cases h : p.signaling <;> cases hr : p.currentRemote <;> by_cases hi : p.ice = .new <;>
        simp [perform, addCandidate, isOpen, Accepts, h, hr, hi]
  | setIce s => exact ⟨fun _ => trivial, fun _ => ⟨_, rfl⟩⟩
  | close => exact ⟨fun _ => trivial, fun _ => ⟨_, rfl⟩⟩

theorem perform_of_closed {p : Peer} (h : p.signaling = .closed) {op : Operation}
    (hop : op.Negotiates) : p.perform op = .error .closed := by
  cases op with
  | addTrack | removeTrack | setIce | close => exact hop.elim
  | createOffer => simp [perform, createOffer, isOpen, Except.map, h]
  | createAnswer => simp [perform, createAnswer, Except.map, h]
  | setLocal d => simp [perform, setLocal, h]
  | clearLocal => simp [perform, clearLocal, h]
  | rollback => simp [perform, rollback, h]
  | setRemote d => simp [perform, setRemote, h]
  | addCandidate c => simp [perform, addCandidate, isOpen, h]

/-! ## Many operations -/

/-- A connection after operations that were carried out one after the other, whether they failed or
not. -/
def work (p : Peer) (ops : List Operation) : Peer := ops.foldl (fun p op => (p.after op).1) p

section

variable {p : Peer} {op : Operation}

/-- What holds of a connection and is kept by every operation that does not fail holds after any
operations. -/
theorem work_induction {P : Peer → Prop}
    (hstep : ∀ {p : Peer} {op : Operation} {r : Peer × List PeerEvent}, P p →
      p.perform op = .ok r → P r.1) (hp : P p) (ops : List Operation) : P (p.work ops) := by
  induction ops generalizing p with
  | nil => exact hp
  | cons op rest ih =>
      change P ((p.after op).1.work rest)
      refine ih ?_
      unfold after
      cases hr : p.perform op with
      | error e => exact hp
      | ok r => exact hstep hp hr

theorem closed_perform {r : Peer × List PeerEvent} (h : p.signaling = .closed)
    (hr : p.perform op = .ok r) : r.1.signaling = .closed := by
  cases op with
  | addTrack | removeTrack | setIce =>
      cases hr
      exact h
  | close =>
      cases hr
      rfl
  | createOffer | createAnswer | setLocal | clearLocal | rollback | setRemote | addCandidate =>
      cases hr.symm.trans (perform_of_closed h trivial)

/-- A connection that was closed stays closed. -/
theorem closed_work {ops : List Operation} (h : .close ∈ ops) :
    (p.work ops).signaling = .closed := by
  obtain ⟨before, after, rfl⟩ := List.append_of_mem h
  rw [work, List.foldl_append]
  exact work_induction (P := fun p => p.signaling = .closed) closed_perform rfl after

theorem carryOut_of_ok {q : Peer} {events : List PeerEvent} (h : p.perform op = .ok (q, events))
    (told : List PeerEvent) :
    (Procedure.carryOut op).on ⟨p, told⟩ = (.ok (), ⟨q, told ++ events⟩) := by
  rw [Procedure.carryOut_on]
  change Bench.after ⟨p, told⟩ (p.perform op) = _
  rw [h]
  rfl

/-- An operation that fails leaves everything on the bench as it was. -/
theorem carryOut_of_error {e : MediaError} (h : p.perform op = .error e) (told : List PeerEvent) :
    (Procedure.carryOut op).on ⟨p, told⟩ = (.error e, ⟨p, told⟩) := by
  rw [Procedure.carryOut_on]
  change Bench.after ⟨p, told⟩ (p.perform op) = _
  rw [h]
  rfl

end

/-- A connection after any operations with any descriptions. Nothing is pending while it is stable;
an offer was made or received exactly if one is pending, until it is closed; it is never between
provisional answers; and one that is settled and open is stable. An operation succeeds exactly if it
is in order there. Carried out step by step, one that fails leaves the connection and what it has
told as they were, and another one brings about what it should. Once the connection was closed every
operation on descriptions, offers, answers and candidates fails for that reason. -/
theorem signaling_tells_pending (label : String) (ops : List Operation) :
    let p := ({ label } : Peer).work ops
    (p.signaling = .stable → p.pendingLocal = none ∧ p.pendingRemote = none) ∧
      (p.signaling = .closed ∨
        (p.signaling = .haveLocalOffer ↔ p.pendingLocal.isSome ∧ p.pendingRemote = none)) ∧
      (p.signaling = .closed ∨
        (p.signaling = .haveRemoteOffer ↔ p.pendingRemote.isSome ∧ p.pendingLocal = none)) ∧
      (p.signaling ≠ .haveLocalProvisional ∧ p.signaling ≠ .haveRemoteProvisional) ∧
      (p.isSettled = true → p.signaling ≠ .closed → p.signaling = .stable) ∧
      (∀ op, (∃ r, p.perform op = .ok r) ↔ p.Accepts op) ∧
      (∀ op e told, p.perform op = .error e →
        (Procedure.carryOut op).on ⟨p, told⟩ = (.error e, ⟨p, told⟩)) ∧
      (∀ op q events told, p.perform op = .ok (q, events) →
        (Procedure.carryOut op).on ⟨p, told⟩ = (.ok (), ⟨q, told ++ events⟩)) ∧
      (.close ∈ ops → ∀ op, op.Negotiates → p.perform op = .error .closed) := by
  intro p
  have hp : p.Coherent := work_induction Coherent.perform (Coherent.fresh label) ops
  refine ⟨hp.of_stable, ?_, ?_, hp.not_provisional, hp.stable_of_isSettled, p.perform_ok_iff,
    fun op e told h => carryOut_of_error h told, fun op q events told h => carryOut_of_ok h told,
    fun hclose op hop => ?_⟩
  · exact Decidable.or_iff_not_imp_left.mpr hp.haveLocalOffer_iff
  · exact Decidable.or_iff_not_imp_left.mpr hp.haveRemoteOffer_iff
  · have hclosed : p.signaling = .closed := closed_work hclose
    exact perform_of_closed hclosed hop

end Parley.Peer
