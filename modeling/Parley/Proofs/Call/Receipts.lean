import Parley.Proofs.Call.Candidates
import Parley.Proofs.Call.FirstRound
import Parley.Proofs.Call.Phases
import Parley.Proofs.Call.ConnectionInvariants

/-!
# Candidates sent and received

What becomes of the candidates of one line in one turn, on either end of it. Where the link is kept
and nothing is withdrawn, what was under way and what the connection finds meanwhile is sent or
still under way (`Agent.Orderly.forwards`). The connection is given a candidate that arrives if the
link is settled, and none otherwise (`Agent.Fit.receives`). A candidate is therefore of use to the
other side exactly if a description for it comes before, and this can be told from what is on its
way (`Duet.usable`).
-/

namespace Parley

namespace Call

variable {κ : Type}

theorem candidatesTo_of_quiet {effects : List CallEffect} (h : Quiet effects) (r : String) :
    candidatesTo r effects = [] :=
  candidatesTo_eq_nil fun e he _ => h e he

variable [Connection κ]

/-- Candidates for a participant leave on a settled link. -/
theorem Punctual.settled {t : Step κ} (h : Punctual t) {r : String}
    (hne : candidatesTo r t.2 ≠ []) :
    ∃ l, t.1.links.find? r = some l ∧ Connection.isSettled l.peer = true := by
  obtain ⟨before, remote, ready, heq, hquiet, hready⟩ := h
  rw [heq, candidatesTo_append, candidatesTo_of_quiet hquiet, List.nil_append] at hne
  by_cases hr : r = remote
  · subst hr
    rw [candidatesTo_sendCandidate] at hne
    obtain ⟨l, hl, -, hsettled⟩ := hready hne
    exact ⟨l, hl, hsettled⟩
  · exact absurd (candidatesTo_sendCandidate_of_ne remote ready hr) hne

end Call

/-! ## On its way -/

/-- The candidate for a participant in an event. -/
def Event.candidateFor (r : String) : Event → Option Candidate
  | .signal e => if e.target = some r ∧ e.sdp.isNone then e.ice else none
  | _ => none

namespace Duet

/-- The candidates among what is on the way to a participant that find it settled. It is settled or
gets so with the first description for it. -/
def usable (r : String) : Bool → List Event → List Candidate
  | _, [] => []
  | settled, e :: rest =>
    (if settled then (e.candidateFor r).toList else []) ++
      usable r (settled || (e.descriptionFor r).isSome) rest

theorem usable_append (r : String) (settled : Bool) (xs ys : List Event) :
    usable r settled (xs ++ ys) = usable r settled xs ++
      usable r (settled || !(xs.filterMap (Event.descriptionFor r)).isEmpty) ys := by
  induction xs generalizing settled with
  | nil => simp [usable]
  | cons e rest ih =>
      rw [List.cons_append, usable, ih, usable, List.append_assoc]
      cases he : e.descriptionFor r <;> simp [he]

theorem usable_eq_nil {r : String} {events : List Event} (h : ∀ e ∈ events, e.candidateFor r = none)
    (settled : Bool) : usable r settled events = [] := by
  induction events generalizing settled with
  | nil => rfl
  | cons e rest ih =>
      rw [usable, h e List.mem_cons_self, ih fun e he => h e (List.mem_cons_of_mem _ he)]
      cases settled <;> rfl

/-- Before the first description nothing is of use. -/
theorem usable_of_no_mail {r : String} {events : List Event}
    (h : events.filterMap (Event.descriptionFor r) = []) : usable r false events = [] := by
  induction events with
  | nil => rfl
  | cons e rest ih =>
      have hall := List.filterMap_eq_nil_iff.mp h
      rw [usable, hall e List.mem_cons_self]
      exact ih (List.filterMap_eq_nil_iff.mpr fun e he => hall e (List.mem_cons_of_mem _ he))

theorem usable_settled (r : String) (events : List Event) :
    usable r true events = events.filterMap (Event.candidateFor r) := by
  induction events with
  | nil => rfl
  | cons e rest ih =>
      rw [usable, Bool.true_or, ih]
      cases he : e.candidateFor r <;> simp [he]

theorem candidateFor_of_quiet {effects : List CallEffect} (h : Call.Quiet effects) (r : String) :
    ∀ e ∈ sent effects, e.candidateFor r = none := by
  intro e he
  obtain ⟨effect, heffect, hsend⟩ := List.mem_filterMap.mp he
  cases effect with
  | send e' =>
      cases hsend
      cases e with
      | signal envelope =>
          rw [Event.candidateFor, h envelope heffect]
          exact ite_self _
      | _ => rfl
  | _ => cases hsend

theorem sent_sendCandidate (remote : String) (ready : List Candidate) :
    sent (ready.map (Call.sendCandidate remote)) =
      ready.map fun c => .signal (.ofCandidate remote c) := by
  rw [sent, List.filterMap_map, ← List.filterMap_eq_map]
  rfl

theorem candidates_sendCandidate (r remote : String) (ready : List Candidate) :
    (sent (ready.map (Call.sendCandidate remote))).filterMap (Event.candidateFor r) =
      Call.candidatesTo r (ready.map (Call.sendCandidate remote)) := by
  rw [sent_sendCandidate, List.filterMap_map, Call.candidatesTo, List.filterMap_map]
  refine congrArg (List.filterMap · ready) (funext fun c => ?_)
  simp [Event.candidateFor, Call.sendCandidate, Envelope.ofCandidate]

theorem usable_sendCandidate {r remote : String} {settled : Bool} {ready : List Candidate}
    (h : Call.candidatesTo r (ready.map (Call.sendCandidate remote)) ≠ [] → settled = true) :
    usable r settled (sent (ready.map (Call.sendCandidate remote))) =
      Call.candidatesTo r (ready.map (Call.sendCandidate remote)) := by
  have hcandidates := candidates_sendCandidate r remote ready
  by_cases hnone : Call.candidatesTo r (ready.map (Call.sendCandidate remote)) = []
  · rw [hnone] at hcandidates ⊢
    exact usable_eq_nil (List.filterMap_eq_nil_iff.mp hcandidates) settled
  · rw [h hnone, usable_settled, hcandidates]

theorem mail_sendCandidate (r remote : String) (ready : List Candidate) :
    (sent (ready.map (Call.sendCandidate remote))).filterMap (Event.descriptionFor r) = [] := by
  rw [← descriptionsTo_eq]
  simp [Call.descriptionsTo, Call.sendCandidate, Envelope.ofCandidate]

/-- All candidates that a turn sends are of use if the other side is settled by then. -/
theorem usable_sent {t : Call.Step} (h : Call.Punctual t) {r : String} {settled : Bool}
    (hready : Call.candidatesTo r t.2 ≠ [] →
      (settled || !(Call.descriptionsTo r t.2).isEmpty) = true) :
    usable r settled (sent t.2) = Call.candidatesTo r t.2 := by
  obtain ⟨before, remote, ready, heq, hquiet, -⟩ := h
  rw [descriptionsTo_eq, heq, sent_append, List.filterMap_append, mail_sendCandidate,
    List.append_nil, Call.candidatesTo_append, Call.candidatesTo_of_quiet hquiet,
    List.nil_append] at hready
  rw [heq, sent_append, usable_append, usable_eq_nil (candidateFor_of_quiet hquiet r),
    Call.candidatesTo_append, Call.candidatesTo_of_quiet hquiet]
  exact usable_sendCandidate hready

end Duet

/-! ## On the line -/

namespace Agent

/-- What the connection to a participant found. -/
def foundFor (r : String) (a : Agent) : List Candidate :=
  ((a.call.links.find? r).map (found ·.peer)).getD []

/-- What the connection to a participant was given. -/
def appliedFor (r : String) (a : Agent) : List Candidate :=
  ((a.call.links.find? r).map (·.peer.applied)).getD []

/-- The candidates for a participant that are neither sent nor withdrawn. -/
def waitingFor (r : String) (a : Agent) : List Candidate :=
  ((a.call.links.find? r).map (a.underWay r)).getD []

/-- The path to a participant is not dead. -/
def Alive (r : String) (a : Agent) : Prop :=
  ∀ l, a.call.links.find? r = some l → l.peer.ice.isDead = false

variable {r : String} {a b : Agent} {s : Setting} {st : Stance}

theorem Fit.isSettled (h : a.Fit r) {l : Link} (hl : a.call.links.find? r = some l) :
    Connection.isSettled l.peer = (a.call.stance r).settled := by
  obtain ⟨st, hat⟩ := h.sound r
  have hst : l.Holds st := by simpa [Call.At, hl] using hat
  rw [hat.stance_eq, hst.peer.isSettled]
  rfl

theorem Orderly.underWay_of_made (h : a.Orderly) {n : Nat} (hn : a.call.serial < n) (p : Peer) :
    a.underWay r { remote := r, serial := n, peer := p } = [] := by
  rw [underWay, h.untaken_eq_nil hn]
  rfl

/-- Where the link is kept and nothing is withdrawn, what was under way and what is found meanwhile
is sent or still under way, in this order. -/
theorem Orderly.forwards (h : a.Orderly) (hs : s.Fresh) (t : Turn)
    (habsent : (a.turn s t).1.call.links.find? r = none → a.call.links.find? r = none)
    (hkeeps : ∀ n, t.withdrawn s r n a = []) :
    ∃ since, (a.turn s t).1.foundFor r = a.foundFor r ++ since ∧
      Call.candidatesTo r (a.turn s t).2 ++ (a.turn s t).1.waitingFor r =
        a.waitingFor r ++ since := by
  unfold foundFor waitingFor
  cases hk : (a.turn s t).1.call.links.find? r with
  | none =>
      have hsent : Call.candidatesTo r (a.turn s t).2 = [] := by
        refine Decidable.byContradiction fun hne => ?_
        obtain ⟨l, hl, -⟩ := (punctual_turn s a t).settled hne
        rw [hk] at hl
        cases hl
      rw [habsent hk, hsent]
      exact ⟨[], rfl, rfl⟩
  | some k =>
      obtain ⟨l, horigin, -, hpassage⟩ := (h.turn s t).carries r k hk
      obtain ⟨since, hfound, hwithout⟩ := hpassage.accounts
      have hway := hwithout.eq_of_nil (hkeeps l.serial)
      cases horigin with
      | stands hl =>
          rw [hl]
          exact ⟨since, hfound, hway⟩
      | made hnone hp hn =>
          obtain ⟨label, rfl⟩ := hs r _ hp
          rw [h.underWay_of_made hn] at hway
          rw [hnone]
          exact ⟨since, hfound, hway⟩

/-- The link to a participant is kept, and its connection is given these candidates. -/
structure Receives (r : String) (a b : Agent) (cs : List Candidate) : Prop where
  absent : b.call.links.find? r = none → a.call.links.find? r = none
  alive : b.Alive r
  applied : b.appliedFor r = a.appliedFor r ++ cs

theorem Receives.nothing (hcall : b.call = a.call) (halive : a.Alive r) : Receives r a b [] := by
  refine ⟨fun hnone => hcall ▸ hnone, fun l hl => halive l (hcall ▸ hl), ?_⟩
  rw [appliedFor, appliedFor, hcall, List.append_nil]

theorem Receives.put {l k : Link} {cs : List Candidate} (hl : a.call.links.find? r = some l)
    (hcall : b.call = a.call.put r k) (happlied : k.peer.applied = l.peer.applied ++ cs)
    (hlive : k.peer.ice.isDead = false) : Receives r a b cs := by
  have hk : b.call.links.find? r = some k := by rw [hcall, Call.find?_put_self]
  refine ⟨fun hnone => ?_, fun k' hk' => ?_, ?_⟩
  · rw [hk] at hnone
    cases hnone
  · rw [hk, Option.some.injEq] at hk'
    exact hk' ▸ hlive
  · rw [appliedFor, appliedFor, hk, hl]
    exact happlied

theorem Receives.of_upholds (hs : s.Fresh) (halive : a.Alive r) {effects : List CallEffect}
    (h : Call.Upholds (fun p => p.applied = a.appliedFor r ∧ p.ice.isDead = false) s r a.call
      (b.call, effects)) : Receives r a b [] := by
  have hhas : a.call.Has (fun p => p.applied = a.appliedFor r ∧ p.ice.isDead = false) s r := by
    intro l hl
    cases hl with
    | stands hl => exact ⟨by rw [appliedFor, hl]; rfl, halive l hl⟩
    | made hnone hp _ =>
        obtain ⟨label, rfl⟩ := hs r _ hp
        exact ⟨by rw [appliedFor, hnone]; rfl, rfl⟩
  refine ⟨h.absent, fun l hl => (h.keeps hhas l (.stands hl)).2, ?_⟩
  rw [List.append_nil]
  cases hl : b.call.links.find? r with
  | none => rw [appliedFor, appliedFor, hl, h.absent hl]
  | some l =>
      rw [← (h.keeps hhas l (.stands hl)).1, appliedFor, hl]
      rfl

/-- A turn that spares the line hands nothing over. -/
theorem Fit.receives_nothing (h : a.Fit r) (hs : s.Fresh) (hc : a.call.Proper) (halive : a.Alive r)
    {t : Turn} (ht : t.Spares r) : Receives r a (a.turn s t).1 [] :=
  .of_upholds hs halive (h.upholds_turn (Peer.lasts_applied _) hc ht fun _ _ hn hp => ⟨hp.1, hn⟩)

end Agent

namespace Call

theorem step_of_handed {s : Setting} {r : String} {c : Call} (hlive : ¬ c.ended) {i : Input}
    {x : Candidate} (h : handed s r i = some x) : c.step s i = c.receiveCandidate r x := by
  unfold handed at h
  split at h
  · rename_i m
    split at h
    · rename_i hm
      split at h
      · rename_i e he
        split at h
        · rename_i hsdp
          rw [Option.isNone_iff_eq_none] at hsdp
          rw [← hm.1]
          simp [step, onSession, hlive, onMessage, hm.2, he, hsdp, h]
        · cases h
      · cases h
    · cases h
  · cases h

end Call

/-- A link on a path that is not dead takes candidates if it is settled. -/
theorem Link.Holds.admits {l : Link} {st : Stance} (h : l.Holds st)
    (hlive : l.peer.ice.isDead = false) : l.admits = st.settled := by
  have hice : (Connection.ice l.peer).isDead = false := hlive
  rw [Link.admits, h.peer.isSettled, hice, Stance.settled]
  simp [h.ne_closed]

/-- A settled link on such a path applies a candidate at once. -/
theorem Link.Holds.applied_addCandidate {l : Link} {st : Stance} (h : l.Holds st)
    (hsettled : st.settled = true) (hlive : l.peer.ice.isDead = false) (x : Candidate) :
    (Connection.addCandidate l.peer x).after.applied = l.peer.applied ++ [x] ∧
      (Connection.addCandidate l.peer x).after.ice.isDead = false := by
  obtain ⟨offered, agreed⟩ := st
  simp only [Stance.settled, Bool.and_eq_true, Option.isNone_iff_eq_none] at hsettled
  obtain ⟨rfl, hagreed⟩ := hsettled
  refine Peer.applied_addCandidate x ?_ ?_ hlive
  · simp [h.peer.signaling]
  · rwa [h.peer.currentRemote, Option.isSome_map]

namespace Agent

variable {r : String} {a : Agent} {s : Setting} {st : Stance}

/-- A candidate that arrives is applied if the link is settled and dropped otherwise. -/
theorem Fit.receives_candidate (h : a.Fit r) (halive : a.Alive r) (hat : a.call.At r st)
    {i : Call.Input} {x : Candidate} (hi : Call.handed s r i = some x) :
    Receives r a (a.perform s i).1 (if st.settled then [x] else []) := by
  have hcall : (a.perform s i).1.call = (a.call.receiveCandidate r x).1 := by
    rw [perform_of_running s i h.running, ← Call.step_of_handed h.live hi]
  unfold Call.receiveCandidate at hcall
  cases hl : a.call.links.find? r with
  | none =>
      have hst : st = {} := by simpa [Call.At, hl] using hat
      rw [hl] at hcall
      rw [hst]
      exact .nothing hcall halive
  | some l =>
      have hst : l.Holds st := by simpa [Call.At, hl] using hat
      have hadmits := hst.admits (halive l hl)
      simp only [hl] at hcall
      cases hsettled : st.settled with
      | false =>
          rw [hadmits, hsettled] at hcall
          exact .nothing hcall halive
      | true =>
          rw [hadmits, hsettled] at hcall
          obtain ⟨happlied, hlive⟩ := hst.applied_addCandidate hsettled (halive l hl) x
          exact .put hl hcall happlied hlive

theorem Fit.receives (h : a.Fit r) (hs : s.Fresh) (hc : a.call.Proper) (halive : a.Alive r)
    (hat : a.call.At r st) (m : Message) :
    Receives r a (a.turn s (.session (.message m))).1
      (if st.settled then (Call.handed s r (.session (.message m))).toList else []) := by
  cases hi : Call.handed s r (.session (.message m)) with
  | none =>
      rw [Option.toList_none, ite_self]
      have hinput : a.input? (.session (.message m)) = some (.session (.message m)) :=
        if_neg (by simp [h.running])
      exact .of_upholds hs halive (h.upholds_input (Peer.lasts_applied _) hc rfl hinput hi)
  | some x => exact h.receives_candidate halive hat hi

end Agent

/-! ## Nothing is withdrawn -/

namespace Call

theorem offered_eq (s : Setting) (m : Message) : offered s m = (heard s m).any (·.isOffer) := by
  unfold offered heard
  cases concerns s m
  · rfl
  · cases m.event <;> rfl

/-- Without an offer of its own a call has none to withdraw. -/
theorem withdraws_eq_none {s : Setting} {r : String} {c : Call} {st : Stance} (hat : c.At r st)
    {m : Message} (h : ∀ d, hearing s r (.session (.message m)) = some d → d.isOffer = true →
      st.offered = none) : c.withdraws s r (.message m) = none := by
  simp only [withdraws]
  split
  · rename_i hm
    obtain ⟨hr, hoffered⟩ := hm
    rw [offered_eq, Option.any_eq_true] at hoffered
    obtain ⟨d, hd, hoffer⟩ := hoffered
    have hnone := h d (by rw [hearing, if_pos hr, hd]) hoffer
    cases hl : c.links.find? r with
    | none => exact crossed_of_none hl
    | some l =>
        have hst : l.Holds st := by simpa [At, hl] using hat
        have hcrossing : ¬ Connection.signaling l.peer = .haveLocalOffer := by
          rw [hst.peer.crossing, hnone]
          exact Bool.false_ne_true
        rw [crossed, hl]
        exact Option.filter_some_neg (decide_eq_false fun h => hcrossing h.1)
  · rfl

end Call

namespace Agent

variable {r : String} {a : Agent} {s : Setting} {st : Stance}

theorem withdrawn_of_spares {t : Turn} (ht : t.Spares r) (n : Nat) : t.withdrawn s r n a = [] := by
  cases t with
  | session e =>
      cases e with
      | message m =>
          have hnone : a.call.withdraws s r (.message m) = none := if_neg fun h => ht h.1
          rw [Turn.withdrawn, hnone]
          rfl
      | _ => rfl
  | _ => rfl

theorem withdrawn_message (hat : a.call.At r st) {m : Message}
    (h : ∀ d, Call.hearing s r (.session (.message m)) = some d → d.isOffer = true →
      st.offered = none) (n : Nat) : (Turn.session (.message m)).withdrawn s r n a = [] := by
  rw [Turn.withdrawn, Call.withdraws_eq_none hat h]
  rfl

end Agent

end Parley
