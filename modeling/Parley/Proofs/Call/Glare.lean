import Parley.Proofs.Call.Reactions
import Parley.Proofs.Call.Rounds

/-!
# Crossing offers

Two sides that know nothing but their ids and the state of their own connection resolve offers that
cross. Each side may have lived through anything before. From then on what is on its way is
delivered and reports are taken, in any order, and nothing else happens. Once no description is on
its way any more, both links are stable on the offer of the side with the higher id
(`crossing_offers_resolve`).
-/

namespace Parley.Duet

/-- The offers of two sides cross: each has a link to the other one on which its offer waits, and
these two offers are all descriptions on their way. Nothing on its way asks for another offer, and
no report that waits says that the path of one of the links is dead. -/
structure Crossing (w : Parties) (d : Duet) (l : Side → Link) (o : Side → Description) : Prop where
  reached : ∀ x, ∃ history, (∀ st ∈ history, st.1.Fresh) ∧ d.agent x = (Agent.run {} history).1
  links : ∀ x, (d.agent x).call.links.find? (w.id x.other) = some (l x)
  waiting : ∀ x, (l x).peer.signaling = .haveLocalOffer ∧ (l x).peer.pendingLocal = some (o x)
  offers : ∀ x, (o x).kind = .offer
  mail : ∀ x, mail w d x = [o x.other]
  frames : ∀ x, ∀ e ∈ d.transit x, ¬ e.Invites
  paths : ∀ x, ∀ signal ∈ (d.agent x).signals, signal.remote = w.id x.other →
    signal.serial = (l x).serial → signal.event.IsAlive

/-- A link that is done with a round: it is stable on a settled connection, and nothing waits. -/
structure Stable (l : Link) : Prop where
  phase : l.phase = .stable
  settled : Connection.isSettled l.peer = true
  signaling : l.peer.signaling = .stable
  pendingLocal : l.peer.pendingLocal = none
  pendingRemote : l.peer.pendingRemote = none
  queue : l.queue = []

/-- What happens if nobody does anything: something is delivered, a report is taken, or the network
acts on a connection without ending a path between the sides. -/
def Move.Idle (w : Parties) : Move → Prop
  | .deliver _ | .turn _ .signal => True
  | .turn x (.network remote _ n) => remote = w.id x.other → IceState.isDead n = false
  | .turn _ _ => False

theorem spares_of_idle {w : Parties} {m : Move} (h : m.Idle w) : m.Spares w := by
  cases m with
  | deliver x => trivial
  | turn x t =>
      cases t with
      | signal => trivial
      | network remote serial n => exact h
      | _ => exact h.elim

/-- A report is no reason to ask for anything. -/
theorem not_invites_takeSignal (s : Setting) (a : Agent) {e : Event}
    (he : .send e ∈ (a.takeSignal s).2) : ¬ e.Invites := by
  unfold Agent.takeSignal Agent.perform at he
  split at he
  · cases he
  · rename_i signal signals _
    split at he
    · cases he
    · rcases (Call.reacts_onSignal s (fun _ => False) signal a.call).sends he with
        hfalse | ⟨_, _, rfl⟩ | ⟨_, _, rfl⟩
      · exact hfalse.elim
      · exact id
      · exact id

theorem not_invites_message (s : Setting) {m : Message} (hm : ¬ m.event.Invites) (a : Agent)
    {e : Event} (he : .send e ∈ (a.perform s (.session (.message m))).2) : ¬ e.Invites := by
  unfold Agent.perform at he
  split at he
  · cases he
  · rcases (Call.reacts_onSession s (.message m) a.call).sends he with
      hasks | ⟨_, _, rfl⟩ | ⟨_, _, rfl⟩
    · cases hasks with
      | offer hinvites => exact absurd hinvites hm
    · exact id
    · exact id

theorem mem_sent {e : Event} {effects : List CallEffect} :
    e ∈ sent effects ↔ .send e ∈ effects := by
  rw [sent, List.mem_filterMap]
  constructor
  · rintro ⟨f, hf, heq⟩
    cases f with
    | send e' =>
        rw [Option.some.injEq] at heq
        rwa [← heq]
    | _ => cases heq
  · exact fun h => ⟨_, h, rfl⟩

/-- Where a side neither offers nor asks for anything, nothing on its way asks for an offer. -/
theorem idle_take {w : Parties} {d : Duet} (frames : ∀ y, ∀ e ∈ d.transit y, ¬ e.Invites) {x : Side}
    {t : Agent.Turn}
    (hinvites : ∀ e, .send e ∈ ((d.agent x).turn (w.setting x) t).2 → ¬ e.Invites)
    (hsends : NoOffer (Call.descriptionsTo (w.id x.other) ((d.agent x).turn (w.setting x) t).2)) :
    (∀ e ∈ described w (d.take w x t).2, e.2.kind ≠ .offer) ∧
      ∀ y, ∀ e ∈ (d.take w x t).1.transit y, ¬ e.Invites := by
  constructor
  · intro e he
    have hsaid : described w (d.take w x t).2 = _ := described_sent w x _
    rw [hsaid] at he
    obtain ⟨dd, hdd, rfl⟩ := List.mem_map.mp he
    exact hsends dd hdd
  · intro y e he
    by_cases hy : y = x
    · subst hy
      exact frames y e (by simpa [take] using he)
    · simp only [take, if_neg hy] at he
      exact (List.mem_append.mp he).elim (frames y e) fun he => hinvites e (mem_sent.mp he)

/-- What an idle move says is no offer and asks for none. -/
theorem idle_move {w : Parties} {d : Duet} (h : d.Fit w)
    (frames : ∀ x, ∀ e ∈ d.transit x, ¬ e.Invites) {m : Move} (hm : m.Idle w) :
    (∀ e ∈ described w (d.move w m).2, e.2.kind ≠ .offer) ∧
      ∀ x, ∀ e ∈ (d.move w m).1.transit x, ¬ e.Invites := by
  cases m with
  | turn x t =>
      cases t with
      | signal =>
          obtain ⟨st, hat⟩ := (h x).sound (w.id x.other)
          obtain ⟨-, -, hsends⟩ := (h x).takeSignal (fresh_setting w x) hat
          exact idle_take frames (fun _ => not_invites_takeSignal _ _) (noOffer_of_eq_nil hsends)
      | network remote serial n =>
          exact idle_take frames (fun _ he => by cases he) (noOffer_of_eq_nil rfl)
      | _ => exact hm.elim
  | deliver x =>
      cases htransit : d.transit x with
      | nil =>
          have hmove : d.move w (.deliver x) = (d, []) := by simp only [move, htransit]
          rw [hmove]
          exact ⟨List.forall_mem_nil _, frames⟩
      | cons e rest =>
          have he : ¬ e.Invites := frames x e (by simp [htransit])
          obtain ⟨st, hat⟩ := (h x).sound (w.id x.other)
          obtain ⟨-, st', ds, hstepped, -, hsends⟩ := (h x).perform (fresh_setting w x)
            (i := .session (.message (message w x e))) (fun hcut => hcut) hat
          rw [move_deliver w htransit]
          refine idle_take (fun y e' he' => ?_) (fun _ => not_invites_message _ he _) ?_
          · by_cases hy : y = x
            · subst hy
              refine frames y e' ?_
              rw [htransit]
              exact List.mem_cons_of_mem _ (by simpa using he')
            · exact frames y e' (by simpa [hy] using he')
          · change NoOffer (Call.descriptionsTo _ ((d.agent x).perform _ _).2)
            rw [hsends]
            refine hstepped.kind_ne_offer ?_
            rintro ⟨-, target, htarget⟩
            have htarget : e = .startStream target := htarget
            exact he (htarget ▸ trivial)

/-- While the offers resolve, the sides stay fit for each other and nothing on its way asks for
another offer. -/
structure Resolving (w : Parties) (low : Side) (o : Side → Description) (d : Duet) (log : Log) :
    Prop where
  fit : d.Fit w
  frames : ∀ x, ∀ e ∈ d.transit x, ¬ e.Invites
  glare : (dialogue w d log).InGlare low (o low) (o low.other)

theorem resolving_move {w : Parties} {low : Side} {o : Side → Description} {d : Duet} {log : Log}
    (hlow : Yields w low) (hoffers : ∀ x, (o x).kind = .offer) (h : Resolving w low o d log)
    {m : Move} (hm : m.Idle w) : Resolving w low o (d.move w m).1 (log ++ (d.move w m).2) := by
  obtain ⟨hfit, hstep⟩ := refines w h.fit log (spares_of_idle hm)
  obtain ⟨hsilent, hframes⟩ := idle_move h.fit h.frames hm
  have hhigh : ¬ Yields w low.other := by
    rw [Yields, Side.other_other]
    exact String.lt_asymm hlow
  exact ⟨hfit, hframes, Dialogue.inGlare_step (hoffers low) (hoffers low.other) hlow hhigh h.glare
    hstep (described_append w _ _) hsilent⟩

theorem resolving_run {w : Parties} {low : Side} {o : Side → Description} (hlow : Yields w low)
    (hoffers : ∀ x, (o x).kind = .offer) {moves : List Move} (hmoves : ∀ m ∈ moves, m.Idle w)
    {d : Duet} {log : Log} (h : Resolving w low o d log) :
    Resolving w low o (d.run w moves).1 (log ++ (d.run w moves).2) := by
  induction moves generalizing d log with
  | nil => simpa [run] using h
  | cons m rest ih =>
      have hnext := resolving_move hlow hoffers h (hmoves m List.mem_cons_self)
      have hall := ih (fun m hm => hmoves m (List.mem_cons_of_mem _ hm)) hnext
      rwa [List.append_assoc] at hall

/-- A side that has a link to the other one is fit for it unless a report waits that cuts the
link. -/
theorem Crossing.fit {w : Parties} {d : Duet} {l : Side → Link} {o : Side → Description}
    (h : Crossing w d l o) : d.Fit w := by
  intro x
  obtain ⟨history, hfresh, hagent⟩ := h.reached x
  have hsound : (d.agent x).Sound := by
    rw [hagent]
    exact Agent.Sound.empty.run hfresh
  obtain ⟨hlive, hrunning⟩ := hsound.of_link (h.links x)
  refine ⟨hsound.lines, hlive, hrunning, fun signal hsignal hr => ?_⟩
  by_cases hserial : signal.serial = (l x).serial
  · exact .inl (h.paths x signal hsignal hr hserial)
  · exact .inr ⟨l x, h.links x, fun heq => hserial heq.symm⟩

/-- The offers that cross are the ones that the links hold. -/
theorem Crossing.offered {w : Parties} {d : Duet} {l : Side → Link} {o : Side → Description}
    (h : Crossing w d l o) (log : Log) (x : Side) :
    ((dialogue w d log).stance x).offered = some (o x) := by
  obtain ⟨st, hat⟩ := (h.fit x).sound (w.id x.other)
  have hst : (l x).Holds st := by simpa [Call.At, h.links x] using hat
  have heq : (dialogue w d log).stance x = st := hat.stance_eq
  rw [heq, ← hst.peer.pendingLocal, (h.waiting x).2]

theorem Crossing.resolving {w : Parties} {d : Duet} {l : Side → Link} {o : Side → Description}
    (h : Crossing w d l o) (low : Side) : Resolving w low o d [] := by
  refine ⟨h.fit, h.frames, ?_⟩
  have hcrossed : ∀ p q : Stance, p.offered = some (o low) → q.offered = some (o low.other) →
      Glare low (o low) (o low.other) p q [o low.other] [o low] [] := by
    rintro ⟨_, k⟩ ⟨_, k'⟩ rfl rfl
    exact .crossed
  have hmail := h.mail low
  have hmail' : Duet.mail w d low.other = [o low] := by
    rw [h.mail, Side.other_other]
  unfold Dialogue.InGlare
  change Glare low _ _ _ _ (Duet.mail w d low) (Duet.mail w d low.other) []
  rw [hmail, hmail']
  exact hcrossed _ _ (h.offered [] low) (h.offered [] low.other)

/-- A side in a stance with an agreement has a link that is stable in it. -/
theorem stable_of_agreed {w : Parties} {d : Duet} {log : Log} (h : d.Fit w) {x : Side}
    {mine yours : Description}
    (hst : (dialogue w d log).stance x = ⟨none, some (mine, yours)⟩) :
    ∃ l, (d.agent x).call.links.find? (w.id x.other) = some l ∧ Stable l ∧
      l.peer.currentLocal = some mine ∧ l.peer.currentRemote = some yours := by
  obtain ⟨st, hat⟩ := (h x).sound (w.id x.other)
  have heq : st = ⟨none, some (mine, yours)⟩ := hat.stance_eq.symm.trans hst
  subst heq
  cases hl : (d.agent x).call.links.find? (w.id x.other) with
  | none => simp [Call.At, hl] at hat
  | some l =>
      have hholds : l.Holds ⟨none, some (mine, yours)⟩ := by simpa [Call.At, hl] using hat
      refine ⟨l, rfl, ?_, hholds.peer.currentLocal, hholds.peer.currentRemote⟩
      exact ⟨hholds.phase, hholds.peer.isSettled, hholds.peer.signaling, hholds.peer.pendingLocal,
        hholds.peer.pendingRemote, hholds.queue rfl rfl⟩

/-- Two offers that cross resolve, in whatever order deliveries and the reports of the connections
come: once no description is on its way any more, both links are stable, the offer of the side with
the higher id is what the other side answered, and this answer is all that was said. -/
theorem crossing_offers_resolve (w : Parties) {low : Side} (hlow : w.id low < w.id low.other)
    {d : Duet} {l : Side → Link} {o : Side → Description} (crossing : Crossing w d l o)
    {moves : List Move} (idle : ∀ m ∈ moves, m.Idle w)
    (done : ∀ x, mail w (d.run w moves).1 x = []) :
    ∃ (l' : Side → Link) (answer : Description), answer.kind = .answer ∧
      (∀ x, ((d.run w moves).1.agent x).call.links.find? (w.id x.other) = some (l' x) ∧
        Stable (l' x)) ∧
      (l' low.other).peer.currentLocal = some (o low.other) ∧
      (l' low).peer.currentRemote = some (o low.other) ∧
      (l' low).peer.currentLocal = some answer ∧
      (l' low.other).peer.currentRemote = some answer ∧
      described w (d.run w moves).2 = [(low, answer)] := by
  have hresolving := resolving_run hlow crossing.offers idle (crossing.resolving low)
  rw [List.nil_append] at hresolving
  have hglare := hresolving.glare
  unfold Dialogue.InGlare at hglare
  have hmail : ∀ x, (dialogue w (d.run w moves).1 (d.run w moves).2).mail x = [] := done
  rw [hmail low, hmail low.other] at hglare
  obtain ⟨answer, hkind, hst, hst', hsaid⟩ := hglare.resolved_of_nil
  obtain ⟨k, hk, hstable, hlocal, hremote⟩ := stable_of_agreed hresolving.fit hst
  obtain ⟨k', hk', hstable', hlocal', hremote'⟩ := stable_of_agreed hresolving.fit hst'
  obtain ⟨l', rfl, rfl⟩ : ∃ l' : Side → Link, l' low = k ∧ l' low.other = k' :=
    ⟨fun x => if x = low then k else k', if_pos rfl, if_neg low.other_ne⟩
  refine ⟨l', answer, hkind, fun x => ?_, hlocal', hremote, hlocal, hremote', hsaid⟩
  rcases low.eq_or_eq_other x with rfl | rfl
  · exact ⟨hk, hstable⟩
  · exact ⟨hk', hstable'⟩

open Parties (annAndZoe)

/-- A side is asked for an offer. -/
def asked (x : Side) : Agent.Turn :=
  .session (.message (message annAndZoe x (.startStream (some (annAndZoe.id x)))))

/-- Both sides were asked for an offer before they heard of each other. -/
def bothAsked : Duet :=
  (run annAndZoe {} [.turn .left (asked .left), .turn .right (asked .right)]).1

/-- The offer of a side that has no media. -/
def bareOffer (x : Side) : Description := ⟨.offer, Sdp.text (annAndZoe.label x) "offer" []⟩

theorem crossing_bothAsked {l : Side → Link}
    (hl : ∀ x, (bothAsked.agent x).call.links.find? (annAndZoe.id x.other) = some (l x)) :
    Crossing annAndZoe bothAsked l bareOffer where
  reached x := by
    refine ⟨[(annAndZoe.setting x, asked x)], ?_, by cases x <;> rfl⟩
    simpa using fresh_setting annAndZoe x
  links := hl
  waiting x := by
    have h : ((bothAsked.agent x).call.links.find? (annAndZoe.id x.other)).map
        (fun l => (l.peer.signaling, l.peer.pendingLocal)) =
        some (.haveLocalOffer, some (bareOffer x)) := by cases x <;> decide
    simpa [hl x] using h
  offers _ := rfl
  mail x := by cases x <;> decide
  frames x := by cases x <;> decide
  paths x := by
    have h : ∀ signal ∈ (bothAsked.agent x).signals, signal.event.IsAlive := by cases x <;> decide
    exact fun signal hsignal _ _ => h signal hsignal

/-- Zoe passes over the offer of Ann, who finds a candidate before she hears the one of Zoe. -/
def zoePassesOver : List Move :=
  [.deliver .right, .turn .left .signal, .deliver .left, .deliver .right]

theorem crossing_offers_resolve_bothAsked :
    annAndZoe.id .left < annAndZoe.id .right ∧ (∃ l, Crossing annAndZoe bothAsked l bareOffer) ∧
    (∀ m ∈ zoePassesOver, m.Idle annAndZoe) ∧
    (∀ x, mail annAndZoe (bothAsked.run annAndZoe zoePassesOver).1 x = []) ∧
    ∃ (l' : Side → Link) (answer : Description), answer.kind = .answer ∧
      (∀ x, ((bothAsked.run annAndZoe zoePassesOver).1.agent x).call.links.find?
        (annAndZoe.id x.other) = some (l' x) ∧ Stable (l' x)) ∧
      (l' .right).peer.currentLocal = some (bareOffer .right) ∧
      (l' .left).peer.currentRemote = some (bareOffer .right) ∧
      (l' .left).peer.currentLocal = some answer ∧
      (l' .right).peer.currentRemote = some answer ∧
      described annAndZoe (bothAsked.run annAndZoe zoePassesOver).2 = [(.left, answer)] := by
  have hlow : annAndZoe.id .left < annAndZoe.id Side.left.other := by decide
  have hlinks : ∀ x, ((bothAsked.agent x).call.links.find? (annAndZoe.id x.other)).isSome := by
    intro x
    cases x <;> decide
  have crossing := crossing_bothAsked fun x => (Option.some_get (hlinks x)).symm
  have idle : ∀ m ∈ zoePassesOver, m.Idle annAndZoe := by simp [zoePassesOver, Move.Idle]
  have done : ∀ x, mail annAndZoe (bothAsked.run annAndZoe zoePassesOver).1 x = [] := by
    intro x
    cases x <;> decide
  exact ⟨hlow, ⟨_, crossing⟩, idle, done, crossing_offers_resolve annAndZoe hlow crossing idle done⟩

end Parley.Duet
