import Parley.Proofs.Call.Agreement
import Parley.Proofs.Call.Glare
import Parley.Proofs.Call.Receipts

/-!
# An uncontested first round

Two sides agreed to nothing yet, and only one of them offers, once. What the connection of a side
found is then at every time what the connection of the other side was given, what is on the way to
it and of use there, and what waits, in this order (`Duet.Balanced`). A side sends candidates only
once it is settled, and then the other side is settled too, or the description that settles it is on
the way before them (`Dialogue.InFirst.ready`): so they are all of use. When nothing is on its way
and nothing waits any more, each side was given all that the other one found
(`Duet.no_candidate_is_lost`).
-/

namespace Parley.Duet

/-- A side is handed a candidate that is for it. -/
theorem handed_message (w : Parties) (x : Side) (e : Event) :
    Call.handed (w.setting x) (w.id x.other) (.session (.message (message w x e))) =
      e.candidateFor (w.id x) := by
  cases e with
  | signal e =>
      simp only [Call.handed, concerns_signal, Event.candidateFor]
      by_cases htarget : e.target = some (w.id x) <;> simp [message, htarget]
  | _ => exact ite_self _

/-! ## One move -/

/-- One side took a turn, and what it sent is on its way to the other one. -/
structure Moved (w : Parties) (z : Side) (t : Agent.Turn) (d d' : Duet) : Prop where
  here : d'.agent z = ((d.agent z).turn (w.setting z) t).1
  there : d'.agent z.other = d.agent z.other
  out : d'.transit z.other = d.transit z.other ++ sent ((d.agent z).turn (w.setting z) t).2

theorem moved_turn (w : Parties) (d : Duet) (z : Side) (t : Agent.Turn) :
    Moved w z t d (d.move w (.turn z t)).1 ∧
      (d.move w (.turn z t)).1.transit z = d.transit z :=
  ⟨⟨if_pos rfl, if_neg z.other_ne, if_neg z.other_ne⟩, if_pos rfl⟩

theorem moved_deliver (w : Parties) {d : Duet} {z : Side} {e : Event} {rest : List Event}
    (htransit : d.transit z = e :: rest) :
    Moved w z (.session (.message (message w z e))) d (d.move w (.deliver z)).1 ∧
      (d.move w (.deliver z)).1.transit z = rest := by
  rw [move_deliver w htransit]
  refine ⟨⟨if_pos rfl, if_neg z.other_ne, ?_⟩, ?_⟩
  · simp [take, z.other_ne]
  · simp [take]

/-! ## The balance -/

/-- What the connection of one side to the other one found was applied there, is on its way and of
use there, or waits. -/
def Balanced (w : Parties) (d : Duet) (x y : Side) : Prop :=
  (d.agent x).foundFor (w.id y) =
    (d.agent y).appliedFor (w.id x) ++
      usable (w.id y) ((d.agent y).call.stance (w.id x)).settled (d.transit y) ++
      (d.agent x).waitingFor (w.id y)

section

variable {w : Parties} {z : Side} {t : Agent.Turn} {d d' : Duet} (hm : Moved w z t d d')

include hm

/-- What a side sends is of use to the other one. -/
theorem Balanced.forth (h : Balanced w d z z.other) (hfit : d'.Fit w)
    (horderly : (d.agent z).Orderly)
    (habsent : (d'.agent z).call.links.find? (w.id z.other) = none →
      (d.agent z).call.links.find? (w.id z.other) = none)
    (hkeeps : ∀ n, t.withdrawn (w.setting z) (w.id z.other) n (d.agent z) = [])
    (hready : ((d'.agent z).call.stance (w.id z.other)).settled = true →
      ((d'.agent z.other).call.stance (w.id z)).settled = true ∨ mail w d' z.other ≠ []) :
    Balanced w d' z z.other := by
  rw [hm.here] at habsent
  obtain ⟨since, hfound, hway⟩ := horderly.forwards (fresh_setting w z) t habsent hkeeps
  have husable : usable (w.id z.other) ((d'.agent z.other).call.stance (w.id z)).settled
      (d'.transit z.other) =
      usable (w.id z.other) ((d.agent z.other).call.stance (w.id z)).settled (d.transit z.other) ++
        Call.candidatesTo (w.id z.other) ((d.agent z).turn (w.setting z) t).2 := by
    have hpunctual := Agent.punctual_turn (w.setting z) (d.agent z) t
    rw [hm.out, usable_append, hm.there]
    refine congrArg _ (usable_sent hpunctual fun hne => ?_)
    obtain ⟨l, hl, hsettled⟩ := hpunctual.settled hne
    rw [← hm.here] at hl
    have hready := hready ((hfit z).isSettled hl ▸ hsettled)
    rw [hm.there, mail, hm.out, List.filterMap_append, ← descriptionsTo_eq] at hready
    rcases hready with hsettled | hmail
    · rw [hsettled, Bool.true_or, Bool.true_or]
    · by_cases hbefore : (d.transit z.other).filterMap (Event.descriptionFor (w.id z.other)) = []
      · rw [hbefore, List.nil_append] at hmail
        simp [hmail]
      · simp [hbefore]
  rw [Balanced, hm.here, hfound, h, husable, hm.there]
  simp only [List.append_assoc, hway]

/-- What a side is given was on the way to it. -/
theorem Balanced.back (h : Balanced w d z.other z) {cs : List Candidate}
    (hreceives : (d.agent z).Receives (w.id z.other) (d'.agent z) cs)
    (husable : usable (w.id z) ((d.agent z).call.stance (w.id z.other)).settled (d.transit z) =
      cs ++ usable (w.id z) ((d'.agent z).call.stance (w.id z.other)).settled (d'.transit z)) :
    Balanced w d' z.other z := by
  rw [Balanced, hm.there, h, husable, hreceives.applied]
  simp only [List.append_assoc]

end

/-- A first round under way, with the offers that are still to come. The sides are fit for each other,
and between them nothing is lost. -/
structure Accounted (w : Parties) (x : Side) (o : Description) (todo : List (Side × Description))
    (d : Duet) (log : Log) : Prop where
  fit : d.Fit w
  orderly : ∀ y, (d.agent y).Orderly
  alive : ∀ y, (d.agent y).Alive (w.id y.other)
  first : (dialogue w d log).InFirst x o todo
  balanced : ∀ y, Balanced w d y y.other

namespace Accounted

variable {w : Parties} {x z : Side} {o : Description} {todo todo' : List (Side × Description)}
  {d d' : Duet} {log log' : Log} {t : Agent.Turn} {cs : List Candidate}

/-- A side took a turn in which nothing was withdrawn and its connection was given these
candidates. -/
theorem moved (h : Accounted w x o todo' d log) (hm : Moved w z t d d') (hfit : d'.Fit w)
    (hfirst : (dialogue w d' log').InFirst x o todo)
    (hreceives : (d.agent z).Receives (w.id z.other) (d'.agent z) cs)
    (hkeeps : ∀ n, t.withdrawn (w.setting z) (w.id z.other) n (d.agent z) = [])
    (husable : usable (w.id z) ((d.agent z).call.stance (w.id z.other)).settled (d.transit z) =
      cs ++ usable (w.id z) ((d'.agent z).call.stance (w.id z.other)).settled (d'.transit z)) :
    Accounted w x o todo d' log' where
  fit := hfit
  orderly y := by
    rcases z.eq_or_eq_other y with rfl | rfl
    · rw [hm.here]
      exact ((h.orderly y).turn (w.setting y) t).orderly
    · rw [hm.there]
      exact h.orderly _
  alive y := by
    rcases z.eq_or_eq_other y with rfl | rfl
    · exact hreceives.alive
    · rw [hm.there]
      exact h.alive _
  first := hfirst
  balanced y := by
    rcases z.eq_or_eq_other y with rfl | rfl
    · refine (h.balanced y).forth hm hfit (h.orderly y) hreceives.absent hkeeps fun hsettled => ?_
      have hready := hfirst.ready hsettled
      simp only [dialogue, Side.other_other] at hready
      exact hready
    · have hback := h.balanced z.other
      rw [Side.other_other] at hback ⊢
      exact hback.back hm hreceives husable

/-- A side that hears nothing is settled if it was. -/
theorem settled_turn (hsettles : (dialogue w d log).Settles (dialogue w d' log') z)
    (htransit : d'.transit z = d.transit z) :
    ((d'.agent z).call.stance (w.id z.other)).settled =
      ((d.agent z).call.stance (w.id z.other)).settled := by
  simp only [Dialogue.Settles, dialogue, mail, htransit] at hsettles
  simpa using hsettles

/-- A description that is about to be heard finds the side unsettled and is the last one on its
way; an offer finds no offer out. -/
theorem waits (h : Accounted w x o todo d log) {e : Event} {rest : List Event}
    (htransit : d.transit z = e :: rest) {dd : Description}
    (hdd : e.descriptionFor (w.id z) = some dd) :
    ((d.agent z).call.stance (w.id z.other)).settled = false ∧
      rest.filterMap (Event.descriptionFor (w.id z)) = [] ∧
      (dd.isOffer = true → ((d.agent z).call.stance (w.id z.other)).offered = none) :=
  h.first.waits (by simp [dialogue, mail, htransit, hdd])

/-- A side is settled after it hears an event if it was before or the event has a description. -/
theorem settled_deliver (h : Accounted w x o todo d log)
    (hsettles : (dialogue w d log).Settles (dialogue w d' log') z) {e : Event} {rest : List Event}
    (htransit : d.transit z = e :: rest) (hrest : d'.transit z = rest) :
    ((d'.agent z).call.stance (w.id z.other)).settled =
      (((d.agent z).call.stance (w.id z.other)).settled || (e.descriptionFor (w.id z)).isSome) := by
  simp only [Dialogue.Settles, dialogue, mail, htransit, hrest] at hsettles
  cases hdd : e.descriptionFor (w.id z) with
  | none => simpa [hdd] using hsettles
  | some dd =>
      obtain ⟨hunsettled, hnil, -⟩ := h.waits htransit hdd
      simpa [hdd, hunsettled, hnil] using hsettles

theorem move (ho : o.kind = .offer) {m : Move} (hm : m.Spares w)
    (h : Accounted w x o (Dialogue.offersIn (described w (d.move w m).2) ++ todo) d log) :
    Accounted w x o todo (d.move w m).1 (log ++ (d.move w m).2) := by
  obtain ⟨hfit, hstep⟩ := refines w h.fit log hm
  obtain ⟨hfirst, hsettles⟩ := Dialogue.inFirst_step ho h.first hstep (described_append w _ _)
  cases m with
  | turn z t =>
      obtain ⟨hmoved, htransit⟩ := moved_turn w d z t
      have hreceives := (h.fit z).receives_nothing (fresh_setting w z) (h.orderly z).proper
        (h.alive z) hm
      rw [← hmoved.here] at hreceives
      refine h.moved hmoved hfit hfirst hreceives (Agent.withdrawn_of_spares hm) ?_
      rw [settled_turn (hsettles z) htransit, htransit, List.nil_append]
  | deliver z =>
      cases htransit : d.transit z with
      | nil =>
          have hmove : d.move w (.deliver z) = (d, []) := by simp only [Duet.move, htransit]
          rw [hmove] at h ⊢
          rw [List.append_nil]
          exact h
      | cons e rest =>
          obtain ⟨hmoved, hrest⟩ := moved_deliver w htransit
          obtain ⟨st, hat⟩ := (h.fit z).sound (w.id z.other)
          have hreceives := (h.fit z).receives (fresh_setting w z) (h.orderly z).proper
            (h.alive z) hat (message w z e)
          rw [handed_message, ← hmoved.here, ← hat.stance_eq] at hreceives
          refine h.moved hmoved hfit hfirst hreceives ?_ ?_
          · refine Agent.withdrawn_message hat fun dd hd hoffer => ?_
            rw [hearing_message] at hd
            obtain ⟨-, -, hnone⟩ := h.waits htransit hd
            exact hat.stance_eq ▸ hnone hoffer
          · rw [htransit, usable, h.settled_deliver (hsettles z) htransit hrest, hrest]

theorem run (ho : o.kind = .offer) {moves : List Move} (spares : ∀ m ∈ moves, m.Spares w)
    (h : Accounted w x o (Dialogue.offersIn (described w (d.run w moves).2)) d log) :
    Accounted w x o [] (d.run w moves).1 (log ++ (d.run w moves).2) := by
  induction moves generalizing d log with
  | nil =>
      rw [Duet.run, List.append_nil]
      exact h
  | cons m rest ih =>
      have hsaid : (d.run w (m :: rest)).2 = (d.move w m).2 ++ ((d.move w m).1.run w rest).2 := rfl
      rw [hsaid, described_append, Dialogue.offersIn_append] at h
      have hnext := h.move ho (spares m List.mem_cons_self)
      have hall := ih (fun m hm => spares m (List.mem_cons_of_mem _ hm)) hnext
      rwa [List.append_assoc] at hall

end Accounted

/-! ## From beginning to end -/

/-- Two sides, whatever they lived through before, without any description between them: there is
none on a link to the other side, nor on its way. No path between them is dead, and no report that
waits says so. -/
structure Untried (w : Parties) (d : Duet) : Prop where
  reached : ∀ x, ∃ history, (∀ st ∈ history, st.1.Fresh) ∧ d.agent x = (Agent.run {} history).1
  fit : d.Fit w
  alive : ∀ x, (d.agent x).Alive (w.id x.other)
  blank : ∀ x l, (d.agent x).call.links.find? (w.id x.other) = some l → l.peer.descriptions = {}
  mail : ∀ x, mail w d x = []

namespace Untried

variable {w : Parties} {d : Duet}

theorem holds (h : Untried w d) {x : Side} {l : Link}
    (hl : (d.agent x).call.links.find? (w.id x.other) = some l) : l.Holds {} := by
  obtain ⟨st, hat⟩ := (h.fit x).sound (w.id x.other)
  have hst : l.Holds st := by simpa [Call.At, hl] using hat
  have hblank := h.blank x l hl
  rw [hst.peer.descriptions] at hblank
  obtain ⟨offered, agreed⟩ := st
  obtain ⟨rfl, rfl⟩ : agreed = none ∧ offered = none := by simpa using hblank
  exact hst

theorem stance (h : Untried w d) (x : Side) : (d.agent x).call.stance (w.id x.other) = {} := by
  unfold Call.stance
  cases hl : (d.agent x).call.links.find? (w.id x.other) with
  | none => rfl
  | some l => exact (h.holds hl).stance_eq

/-- Nothing was found, nothing was given and nothing is under way. -/
theorem counts (h : Untried w d) (x : Side) :
    (d.agent x).foundFor (w.id x.other) = [] ∧ (d.agent x).appliedFor (w.id x.other) = [] ∧
      (d.agent x).waitingFor (w.id x.other) = [] := by
  obtain ⟨history, fresh, hagent⟩ := h.reached x
  unfold Agent.foundFor Agent.appliedFor Agent.waitingFor
  cases hl : (d.agent x).call.links.find? (w.id x.other) with
  | none => exact ⟨rfl, rfl, rfl⟩
  | some l =>
      have hholds := h.holds hl
      rw [hagent] at hl ⊢
      obtain ⟨hgathered, happlied, hway⟩ := Agent.blank_of_new fresh hl hholds
      refine ⟨?_, happlied, hway⟩
      change l.peer.foundCandidates = []
      rw [Peer.foundCandidates, hgathered]
      rfl

theorem accounted (h : Untried w d) (x : Side) (o : Description) :
    Accounted w x o [(x, o)] d [] where
  fit := h.fit
  orderly y := by
    obtain ⟨history, -, hagent⟩ := h.reached y
    rw [hagent]
    exact Agent.Orderly.empty.run history
  alive := h.alive
  first := by
    have hmail : ∀ y, (dialogue w d []).mail y = [] := h.mail
    have hstance : ∀ y, (dialogue w d []).stance y = {} := h.stance
    rw [Dialogue.InFirst, hmail, hmail, hstance, hstance]
    exact .untried
  balanced y := by
    obtain ⟨hfound, -, hwaiting⟩ := h.counts y
    obtain ⟨-, happlied, -⟩ := h.counts y.other
    have hstance := h.stance y.other
    rw [Side.other_other] at happlied hstance
    rw [Balanced, hfound, happlied, hwaiting, hstance]
    exact congrArg (· ++ []) (usable_of_no_mail (h.mail y.other)).symm

end Untried

theorem untried_empty (w : Parties) : Untried w {} where
  reached _ := ⟨[], List.forall_mem_nil _, rfl⟩
  fit := fit_empty w
  alive _ _ hl := absurd hl Agent.not_stands_empty
  blank _ _ hl := absurd hl Agent.not_stands_empty
  mail _ := rfl

/-- When nothing is on the way to a side and no report of the other one waits, it was given what the
other one found. -/
theorem Balanced.applied {w : Parties} {d : Duet} {y : Side} (h : Balanced w d y y.other)
    {l : Side → Link} (hl : ∀ y, (d.agent y).call.links.find? (w.id y.other) = some (l y))
    (htransit : d.transit y.other = []) (hsignals : (d.agent y).signals = [])
    (hqueue : (l y).queue = []) : (l y.other).peer.applied = found (l y).peer := by
  have hother := hl y.other
  rw [Side.other_other] at hother
  have hway : (d.agent y).underWay (w.id y.other) (l y) = [] := by
    rw [Agent.underWay, Agent.untaken, hsignals, hqueue]
    rfl
  rw [Balanced, Agent.foundFor, Agent.appliedFor, Agent.waitingFor, hl, hother, htransit] at h
  simpa [usable, hway] using h.symm

/-- Two sides without any description between them, one of which offers once, while neither tears
its call down nor loses the path to the other: whatever moves the sides make, in whatever order what
is on its way and what the connections report arrives, once nothing is on its way and no report
waits, both links are stable on mirrored descriptions, and each connection was given exactly the
candidates that the other one found, in the order in which they were found, of which no two are the
same. -/
theorem no_candidate_is_lost (w : Parties) {d : Duet} (untried : Untried w d) {moves : List Move}
    (spares : ∀ m ∈ moves, m.Spares w) {x : Side} {o : Description}
    (offers : Dialogue.offersIn (described w (d.run w moves).2) = [(x, o)])
    (done : ∀ y, (d.run w moves).1.transit y = [] ∧ ((d.run w moves).1.agent y).signals = []) :
    ∃ l : Side → Link,
      (∀ y, ((d.run w moves).1.agent y).call.links.find? (w.id y.other) = some (l y) ∧
        Stable (l y)) ∧
      (l x).peer.currentLocal = some o ∧ Mirror l ∧
      ∀ y, (l y.other).peer.applied = found (l y).peer ∧ (found (l y).peer).Nodup := by
  have hoffer : o.kind = .offer := by
    have hmem : (x, o) ∈ Dialogue.offersIn (described w (d.run w moves).2) := by simp [offers]
    exact isOffer_iff.mp (List.mem_filter.mp hmem).2
  have hrun := Accounted.run hoffer spares (offers ▸ untried.accounted x o)
  have hmail : ∀ y, (dialogue w (d.run w moves).1 ([] ++ (d.run w moves).2)).mail y = [] := by
    intro y
    simp [dialogue, mail, (done y).1]
  have hfirst := hrun.first
  rw [Dialogue.InFirst, hmail, hmail] at hfirst
  obtain ⟨a, hst, hst'⟩ := hfirst.agreed_of_nil
  obtain ⟨k, hk, hstable, hlocal, hremote⟩ := stable_of_agreed hrun.fit hst
  obtain ⟨k', hk', hstable', hlocal', hremote'⟩ := stable_of_agreed hrun.fit hst'
  obtain ⟨l, rfl, rfl⟩ : ∃ l : Side → Link, l x = k ∧ l x.other = k' :=
    ⟨fun y => if y = x then k else k', if_pos rfl, if_neg x.other_ne⟩
  have hlinks : ∀ y, ((d.run w moves).1.agent y).call.links.find? (w.id y.other) = some (l y) ∧
      Stable (l y) := by
    intro y
    rcases x.eq_or_eq_other y with rfl | rfl
    · exact ⟨hk, hstable⟩
    · exact ⟨hk', hstable'⟩
  refine ⟨l, hlinks, hlocal, fun y => ?_, fun y => ?_⟩
  · rcases x.eq_or_eq_other y with rfl | rfl
    · rw [hlocal, hremote']
    · rw [Side.other_other, hlocal', hremote]
  · exact ⟨(hrun.balanced y).applied (fun y => (hlinks y).1) (done y.other).1 (done y).2
      (hlinks y).2.queue, (l y).peer.nodup_foundCandidates⟩

open Parties (annAndZoe)

/-- Ann publishes, and Zoe asks for an offer and answers it. When the answer comes, one candidate of
Ann waits in her queue and the report of the other one is not taken yet; the first candidate of Zoe
is right behind the answer. -/
def annCalls : List Move :=
  publishing .left "a" 0 ++
    [.deliver .right, .deliver .left, .turn .left .signal, .deliver .right] ++
    [.turn .right .signal, .turn .right .signal, .deliver .left, .turn .left .signal] ++
    [.turn .right .signal, .deliver .left, .deliver .left, .deliver .right, .deliver .right] ++
    [.turn .left .signal, .turn .right .signal]

theorem no_candidate_is_lost_annCalls :
    let d := (run annAndZoe {} annCalls).1
    let offer : Description := ⟨.offer, Sdp.text "ann" "offer" [⟨"a", .audio⟩]⟩
    Untried annAndZoe {} ∧ (∀ m ∈ annCalls, m.Spares annAndZoe) ∧
    Dialogue.offersIn (described annAndZoe (run annAndZoe {} annCalls).2) = [(.left, offer)] ∧
    (∀ y, d.transit y = [] ∧ (d.agent y).signals = []) ∧
    ∃ l : Side → Link,
      (∀ y, (d.agent y).call.links.find? (annAndZoe.id y.other) = some (l y) ∧ Stable (l y)) ∧
      (l .left).peer.currentLocal = some offer ∧ Mirror l ∧
      ∀ y, (l y.other).peer.applied = found (l y).peer ∧ (found (l y).peer).Nodup := by
  intro d offer
  have spares : ∀ m ∈ annCalls, m.Spares annAndZoe := by
    simp [annCalls, publishing, Move.Spares, Agent.Turn.Spares]
  have offers : Dialogue.offersIn (described annAndZoe (run annAndZoe {} annCalls).2) =
      [(.left, offer)] := by decide
  have done : ∀ y, d.transit y = [] ∧ (d.agent y).signals = [] := by
    intro y
    cases y <;> decide
  have untried := untried_empty annAndZoe
  exact ⟨untried, spares, offers, done, no_candidate_is_lost annAndZoe untried spares offers done⟩

end Parley.Duet
