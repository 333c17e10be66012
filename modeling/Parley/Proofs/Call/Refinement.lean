import Parley.Proofs.Call.Dialogue
import Parley.Proofs.Call.Turns

/-!
# Duets are dialogues

Of two agents over connections in memory who hear each other, a dialogue shows the stances of the
links to each other, the descriptions on their way to each other and those that were sent. Every
move in which both stay fit for each other is a step of the dialogue (`Duet.refines`), where the
side with the lower connection id yields.
-/

namespace Parley

/-- The description for a participant in an event. -/
def Event.descriptionFor (r : String) : Event → Option Description
  | .signal e => if e.target = some r then e.sdp else none
  | _ => none

namespace Duet

theorem descriptionsTo_eq (r : String) (effects : List CallEffect) :
    Call.descriptionsTo r effects = (sent effects).filterMap (Event.descriptionFor r) := by
  rw [Call.descriptionsTo, sent, List.filterMap_filterMap]
  refine congrArg (List.filterMap · effects) (funext fun e => ?_)
  cases e with
  | send e => cases e <;> rfl
  | _ => rfl

def mail (w : Parties) (d : Duet) (x : Side) : List Description :=
  (d.transit x).filterMap (Event.descriptionFor (w.id x))

/-- The descriptions for the other side among what was sent. -/
def described (w : Parties) (log : Log) : List (Side × Description) :=
  log.filterMap fun e => (e.2.descriptionFor (w.id e.1.other)).map (e.1, ·)

theorem described_append (w : Parties) (log more : Log) :
    described w (log ++ more) = described w log ++ described w more :=
  List.filterMap_append

theorem described_sent (w : Parties) (x : Side) (effects : List CallEffect) :
    described w ((sent effects).map (x, ·)) =
      (Call.descriptionsTo (w.id x.other) effects).map (x, ·) := by
  rw [descriptionsTo_eq, described, List.filterMap_map, List.map_filterMap]
  rfl

/-- What a duet is as a dialogue. -/
def dialogue (w : Parties) (d : Duet) (log : Log) : Dialogue where
  stance x := (d.agent x).call.stance (w.id x.other)
  mail := mail w d
  said := described w log

/-- The side with the lower connection id yields when offers cross. -/
def Yields (w : Parties) (x : Side) : Prop := w.id x < w.id x.other

def Fit (w : Parties) (d : Duet) : Prop := ∀ x, (d.agent x).Fit (w.id x.other)

theorem fresh_setting (w : Parties) (x : Side) : (w.setting x).Fresh := by
  intro remote p hp
  rw [Parties.setting, Option.some.injEq] at hp
  exact ⟨w.label x, hp.symm⟩

theorem yieldsTo_setting (w : Parties) (x : Side) :
    Call.yieldsTo (w.setting x) (w.id x.other) = true ↔ Yields w x := by
  simp [Call.yieldsTo, Parties.setting, Yields]

/-- A turn of a side is seen in the dialogue as what it says. -/
theorem dialogue_take (w : Parties) (d : Duet) (log : Log) {x : Side} {t : Agent.Turn} {st : Stance}
    {ds : List Description}
    (hat : ((d.agent x).turn (w.setting x) t).1.call.At (w.id x.other) st)
    (hsends : Call.descriptionsTo (w.id x.other) ((d.agent x).turn (w.setting x) t).2 = ds) :
    dialogue w (d.take w x t).1 (log ++ (d.take w x t).2) = (dialogue w d log).speak x st ds := by
  have hsaid : described w (d.take w x t).2 = ds.map (x, ·) := hsends ▸ described_sent w x _
  rw [descriptionsTo_eq] at hsends
  have hstance : ∀ y, ((d.take w x t).1.agent y).call.stance (w.id y.other) =
      if y = x then st else (d.agent y).call.stance (w.id y.other) := by
    intro y
    by_cases hy : y = x
    · subst hy
      simpa [take] using hat.stance_eq
    · simp [take, hy]
  have hmail : ∀ y, mail w (d.take w x t).1 y =
      if y = x then mail w d y else mail w d y ++ ds := by
    intro y
    rcases x.eq_or_eq_other y with rfl | rfl
    · simp [take, mail]
    · simp [take, mail, x.other_ne, hsends]
  refine Dialogue.ext (funext hstance) (funext hmail) ?_
  simp only [dialogue, Dialogue.speak, described, List.filterMap_append]
  exact congrArg (described w log ++ ·) hsaid

/-- The oldest event on its way is about to be heard. -/
theorem dialogue_deliver (w : Parties) (d : Duet) (log : Log) {x : Side} {e : Event}
    {rest : List Event} (htransit : d.transit x = e :: rest) :
    let d' : Duet := { d with transit := fun y => if y = x then rest else d.transit y }
    (∀ dd, e.descriptionFor (w.id x) = some dd →
      (dialogue w d log).mail x = dd :: mail w d' x ∧
        dialogue w d' log = (dialogue w d log).leaveMail x (mail w d' x)) ∧
    (e.descriptionFor (w.id x) = none → dialogue w d' log = dialogue w d log) := by
  intro d'
  have hother : ∀ y, y ≠ x → mail w d' y = mail w d y := by
    intro y hy
    simp [mail, d', hy]
  constructor
  · intro dd hdd
    refine ⟨?_, Dialogue.ext rfl (funext fun y => ?_) rfl⟩
    · simp [dialogue, mail, d', htransit, hdd]
    · by_cases hy : y = x
      · subst hy
        simp [dialogue, Dialogue.leaveMail]
      · simp [dialogue, Dialogue.leaveMail, hy, hother]
  · intro hnone
    refine Dialogue.ext rfl (funext fun y => ?_) rfl
    by_cases hy : y = x
    · subst hy
      simp [dialogue, mail, d', htransit, hnone]
    · simp [dialogue, hother y hy]

theorem id_ne_other (w : Parties) (x : Side) : w.id x ≠ w.id x.other := by
  cases x with
  | left => exact w.id_ne
  | right => exact w.id_ne.symm

/-- A signal of the other side concerns a side if it is for it. -/
theorem concerns_signal (w : Parties) (x : Side) (e : Envelope) :
    Call.concerns (w.setting x) (message w x (.signal e)) = decide (e.target = some (w.id x)) := by
  have hme : ¬ (w.setting x).me = some (message w x (.signal e)).sender :=
    fun h => id_ne_other w x (Option.some.inj h)
  rw [Call.concerns, if_neg hme]
  cases htarget : e.target with
  | none => simp [message, Message.target, Event.target, htarget, Message.action, Event.action]
  | some target =>
      simp [message, Message.target, Event.target, htarget, Parties.setting, eq_comm]

/-- A side hears what is for it. -/
theorem hearing_message (w : Parties) (x : Side) (e : Event) :
    Call.hearing (w.setting x) (w.id x.other) (.session (.message (message w x e))) =
      e.descriptionFor (w.id x) := by
  have hhearing : Call.hearing (w.setting x) (w.id x.other) (.session (.message (message w x e))) =
      Call.heard (w.setting x) (message w x e) := if_pos rfl
  rw [hhearing, Call.heard]
  cases e with
  | signal e =>
      rw [concerns_signal]
      simp [message, Event.descriptionFor]
  | _ => exact ite_self _

/-! ## Moves -/

/-- A move does not end a side's call, and the network does no harm to the line between the sides.
What one side hears of the other comes by way of the duet. -/
def Move.Spares (w : Parties) : Move → Prop
  | .turn x t => t.Spares (w.id x.other)
  | .deliver _ => True

theorem fit_take (w : Parties) {d : Duet} (h : d.Fit w) {x : Side} {t : Agent.Turn}
    (hfit : ((d.agent x).turn (w.setting x) t).1.Fit (w.id x.other)) : (d.take w x t).1.Fit w := by
  intro y
  by_cases hy : y = x
  · subst hy
    simpa [take] using hfit
  · simpa [take, hy] using h y

theorem step_stutter {yields : Side → Prop} (D : Dialogue) (x : Side) :
    Dialogue.Step yields D D := by
  have hstep : Dialogue.Step yields D (D.speak x (D.stance x) []) := .speak .nothing
  rwa [Dialogue.speak_nothing] at hstep

/-- A side that hears an event takes a turn with it as a message. -/
theorem move_deliver (w : Parties) {d : Duet} {x : Side} {e : Event} {rest : List Event}
    (htransit : d.transit x = e :: rest) :
    d.move w (.deliver x) =
      ({ d with transit := fun y => if y = x then rest else d.transit y } : Duet).take w x
        (.session (.message (message w x e))) := by
  simp only [move, htransit]

/-- A side hears the oldest event on its way. -/
theorem refines_deliver (w : Parties) {d : Duet} (h : d.Fit w) (log : Log) {x : Side} {e : Event}
    {rest : List Event} (htransit : d.transit x = e :: rest) :
    (d.move w (.deliver x)).1.Fit w ∧
      Dialogue.Step (Yields w) (dialogue w d log)
        (dialogue w (d.move w (.deliver x)).1 (log ++ (d.move w (.deliver x)).2)) := by
  let d' : Duet := { d with transit := fun y => if y = x then rest else d.transit y }
  have hmove : d.move w (.deliver x) = d'.take w x (.session (.message (message w x e))) :=
    move_deliver w htransit
  obtain ⟨st, hat⟩ := (h x).sound (w.id x.other)
  obtain ⟨hfit, st', ds, hstepped, hat', hsends⟩ := (h x).perform (fresh_setting w x)
    (i := .session (.message (message w x e))) (fun hcut => hcut) hat
  have hfit' : d'.Fit w := h
  have htake := dialogue_take w d' log (t := .session (.message (message w x e))) hat' hsends
  obtain ⟨hheard, hnone⟩ := dialogue_deliver w d log htransit
  rw [hmove, htake]
  refine ⟨fit_take w hfit' hfit, ?_⟩
  have hst : (dialogue w d log).stance x = st := hat.stance_eq
  have hhearing := hearing_message w x e
  cases hdescription : e.descriptionFor (w.id x) with
  | some dd =>
      obtain ⟨hmail, hdialogue⟩ := hheard dd hdescription
      rw [hdialogue]
      cases hstepped with
      | heard hd hst' =>
          rw [hhearing, hdescription, Option.some.injEq] at hd
          subst hd
          refine .hear hmail ?_
          have hconnect : (w.setting x).connect (w.id x.other) = none ↔ False :=
            ⟨nofun, False.elim⟩
          rw [propext (yieldsTo_setting w x), propext hconnect] at hst'
          rwa [hst]
      | prompted hd => rw [hhearing, hdescription] at hd; cases hd
      | nothing hd => rw [hhearing, hdescription] at hd; cases hd
  | none =>
      rw [hnone hdescription]
      have hspoken := hstepped.spoken (hhearing.trans hdescription)
      rw [← hst] at hspoken
      exact .speak hspoken

/-- Sides that are fit for each other are so after a move that spares the line, and the move is a
step of the dialogue. -/
theorem refines (w : Parties) {d : Duet} (h : d.Fit w) (log : Log) {m : Move} (hm : m.Spares w) :
    (d.move w m).1.Fit w ∧
      Dialogue.Step (Yields w) (dialogue w d log)
        (dialogue w (d.move w m).1 (log ++ (d.move w m).2)) := by
  cases m with
  | turn x t =>
      obtain ⟨st, hat⟩ := (h x).sound (w.id x.other)
      obtain ⟨hfit, st', ds, hspoken, hat', hsends⟩ := (h x).turn (fresh_setting w x) hm hat
      refine ⟨fit_take w h hfit, ?_⟩
      have heq := dialogue_take w d log hat' hsends
      change Dialogue.Step _ _ (dialogue w (d.take w x t).1 (log ++ (d.take w x t).2))
      rw [heq]
      rw [← hat.stance_eq] at hspoken
      exact .speak hspoken
  | deliver x =>
      cases htransit : d.transit x with
      | nil =>
          have hmove : d.move w (.deliver x) = (d, []) := by simp only [move, htransit]
          rw [hmove, List.append_nil]
          exact ⟨h, step_stutter _ x⟩
      | cons e rest => exact refines_deliver w h log htransit

theorem fit_empty (w : Parties) : ({} : Duet).Fit w := fun _ =>
  ⟨fun _ => ⟨{}, rfl⟩, by simp, rfl, nofun⟩

theorem dialogue_empty (w : Parties) : dialogue w {} [] = {} := rfl

/-- What every step of a dialogue keeps holds after a run of moves that spare the line. -/
theorem run_induction (w : Parties) {P : Dialogue → Prop}
    (hP : ∀ D D', P D → Dialogue.Step (Yields w) D D' → P D') {moves : List Move}
    (hmoves : ∀ m ∈ moves, m.Spares w) {d : Duet} {log : Log} (h : d.Fit w)
    (hd : P (dialogue w d log)) :
    (d.run w moves).1.Fit w ∧ P (dialogue w (d.run w moves).1 (log ++ (d.run w moves).2)) := by
  induction moves generalizing d log with
  | nil => exact ⟨h, by simpa [run] using hd⟩
  | cons m rest ih =>
      obtain ⟨hfit, hstep⟩ := refines w h log (hmoves m List.mem_cons_self)
      have hrest := ih (fun m hm => hmoves m (List.mem_cons_of_mem _ hm)) hfit (hP _ _ hd hstep)
      rwa [List.append_assoc] at hrest

end Duet

end Parley
