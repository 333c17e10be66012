import Parley.Proofs.Call.Coherence
import Parley.Proofs.Call.Steps

/-!
# Lines over an agent's turns

An agent is fit for a participant while it takes turns, its call is not over and no report waits
that would cut the line to the participant. It stays fit in every turn that does not end the call
and in which the network spares that line, and then the line moves as it does in a step of the call
(`Agent.Fit.turn`). The links of an agent are in some stance whatever it lived through
(`Agent.sound_run`).
-/

namespace Parley

namespace Booth

theorem step_ended (b : Booth) {i : Call.Input} (hi : i ≠ .teardown) :
    (b.step i).1.ended = b.ended := by
  cases i with
  | session e => rfl
  | signal signal => rfl
  | teardown => exact absurd rfl hi
  | start video =>
      change b.start.1.ended = b.ended
      unfold start
      split <;> rfl
  | leave =>
      change b.leave.1.ended = b.ended
      unfold leave
      split <;> rfl
  | media epoch result =>
      change (b.media epoch result).1.ended = b.ended
      unfold media
      split
      · rfl
      · cases result <;> rfl

end Booth

namespace Call

theorem step_ended {κ : Type} [Connection κ] (s : Setting κ) (c : Call κ) {i : Input}
    (hi : i ≠ .teardown) :
    (c.step s i).1.ended = c.ended := by
  have hbooth := congrArg Prod.fst (booth_step s c i)
  rw [← booth_ended, show (c.step s i).1.booth = _ from hbooth]
  exact c.booth.step_ended hi

/-- The stance of the link to a participant. -/
def stance (c : Call) (r : String) : Stance := ((c.links.find? r).map Link.stance).getD {}

theorem At.stance_eq {c : Call} {r : String} {st : Stance} (h : c.At r st) : c.stance r = st := by
  unfold stance
  cases hl : c.links.find? r with
  | none =>
      have hst : st = {} := by simpa [At, hl] using h
      exact hst.symm
  | some l =>
      have hst : l.Holds st := by simpa [At, hl] using h
      exact hst.stance_eq

/-- What the network does to a connection is not seen in the stances. -/
theorem at_updatePeer {c : Call} {r : String} {st : Stance} (h : c.At r st) (remote : String)
    (serial : Nat) {f : Peer → Peer} (hf : ∀ p, p.Holds st → (f p).Holds st) :
    (c.updatePeer remote serial f).At r st := by
  simp only [At, updatePeer, Table.find?_map]
  cases hl : c.links.find? r with
  | none => simpa [At, hl] using h
  | some l =>
      have hst : l.Holds st := by simpa [At, hl] using h
      dsimp only [Option.map_some]
      split
      · exact hst.congr (hf l.peer hst.peer) rfl rfl
      · exact hst

theorem serial_updatePeer {c : Call} {r : String} {l : Link} (hl : c.links.find? r = some l)
    (remote : String) (serial : Nat) (f : Peer → Peer) :
    ∃ l', (c.updatePeer remote serial f).links.find? r = some l' ∧ l'.serial = l.serial := by
  simp only [updatePeer, Table.find?_map, hl, Option.map_some]
  refine ⟨_, rfl, ?_⟩
  split <;> rfl

theorem Stepped.spoken {s : Setting} {r : String} {i : Input} {st st' : Stance}
    {ds : List Description} (h : Stepped s r i st st' ds) (hnone : hearing s r i = none) :
    Spoken st st' ds := by
  cases h with
  | heard hheard => rw [hnone] at hheard; cases hheard
  | prompted _ _ hspoken => exact hspoken
  | nothing _ => exact .nothing

theorem Stepped.eq_of_not_prompts {s : Setting} {r : String} {i : Input} {st st' : Stance}
    {ds : List Description} (h : Stepped s r i st st' ds) (hnone : hearing s r i = none)
    (hprompts : ¬ i.Prompts r) : st' = st ∧ ds = [] := by
  cases h with
  | heard hheard => rw [hnone] at hheard; cases hheard
  | prompted _ hp => exact absurd hp hprompts
  | nothing _ => exact ⟨rfl, rfl⟩

theorem Stepped.kind_ne_offer {s : Setting} {r : String} {i : Input} {st st' : Stance}
    {ds : List Description} (h : Stepped s r i st st' ds) (hprompts : ¬ i.Prompts r) :
    ∀ d ∈ ds, d.kind ≠ .offer := by
  cases h with
  | heard _ hheard => exact hheard.kind_ne_offer
  | prompted _ hp => exact absurd hp hprompts
  | nothing _ => nofun

end Call

namespace Agent

/-- The agent takes turns, its call goes on, and no report that waits cuts the line. -/
structure Fit (r : String) (a : Agent) : Prop where
  sound : a.call.Sound
  live : ¬ a.call.ended
  running : a.running = true
  spared : ∀ signal ∈ a.signals, signal.remote = r →
    signal.event.IsAlive ∨ ∃ l, a.call.links.find? r = some l ∧ l.serial ≠ signal.serial

/-- A turn does not end the call, and the network does no harm to the line. What the participant
says itself is not among these turns. -/
def Turn.Spares (r : String) : Turn → Prop
  | .session (.message m) => m.sender ≠ r
  | .sessionEnded | .teardown | .dropped => False
  | .network remote _ n => remote = r → IceState.isDead n = false
  | _ => True

namespace Fit

variable {r : String} {a : Agent} {s : Setting} {st : Stance}

theorem perform (h : a.Fit r) (hs : s.Fresh) {i : Call.Input} (hcut : ¬ Call.Cuts r a.call i)
    (hat : a.call.At r st) :
    (a.perform s i).1.Fit r ∧ ∃ st' ds, Call.Stepped s r i st st' ds ∧
      (a.perform s i).1.call.At r st' ∧ Call.descriptionsTo r (a.perform s i).2 = ds := by
  obtain ⟨st', ds, hstepped, hline⟩ := Call.line_step hs i hcut h.sound h.live hat
  have hi : i ≠ .teardown := fun hi => hcut (hi ▸ trivial)
  rw [perform_of_running s i h.running]
  refine ⟨⟨Call.sound_step hs i h.sound, ?_, h.running, ?_⟩, st', ds, hstepped, hline.stands,
    hline.sends⟩
  · simp only [Call.step_ended s a.call hi]
    exact h.live
  · intro signal hsignal hr
    rcases List.mem_append.mp hsignal with hold | hnew
    · refine (h.spared signal hold hr).imp_right fun ⟨l, hl, hserial⟩ => ?_
      obtain ⟨l', hl', hserial'⟩ := hline.serial l hl
      exact ⟨l', hl', hserial' ▸ hserial⟩
    · exact .inl (Call.alive_step hs i h.sound signal hnew)

/-- A report moves no stance. -/
theorem takeSignal (h : a.Fit r) (hs : s.Fresh) (hat : a.call.At r st) :
    (a.takeSignal s).1.Fit r ∧ (a.takeSignal s).1.call.At r st ∧
      Call.descriptionsTo r (a.takeSignal s).2 = [] := by
  unfold Agent.takeSignal
  cases hsignals : a.signals with
  | nil => exact ⟨h, hat, rfl⟩
  | cons signal signals =>
      have hrest : ({ a with signals } : Agent).Fit r :=
        ⟨h.sound, h.live, h.running, fun signal' hmem =>
          h.spared signal' (by simp [hsignals, hmem])⟩
      have hcut : ¬ Call.Cuts r a.call (.signal signal) := by
        rintro ⟨hr, hdead, l, hl, hserial⟩
        rcases h.spared signal (by simp [hsignals]) hr with halive | ⟨l', hl', hserial'⟩
        · exact hdead halive
        · rw [hl, Option.some.injEq] at hl'
          exact hserial' (hl' ▸ hserial)
      obtain ⟨hfit, st', ds, hstepped, hat', hsends⟩ := hrest.perform hs hcut hat
      obtain ⟨rfl, rfl⟩ := hstepped.eq_of_not_prompts rfl id
      exact ⟨hfit, hat', hsends⟩

theorem takeAnswer (h : a.Fit r) (hs : s.Fresh) (hat : a.call.At r st) :
    (a.takeAnswer s).1.Fit r ∧ ∃ st' ds, Call.Spoken st st' ds ∧
      (a.takeAnswer s).1.call.At r st' ∧ Call.descriptionsTo r (a.takeAnswer s).2 = ds := by
  unfold Agent.takeAnswer
  split
  · exact ⟨h, st, [], .nothing, hat, rfl⟩
  · rename_i epoch result answers _
    have hrest : ({ a with answers } : Agent).Fit r := ⟨h.sound, h.live, h.running, h.spared⟩
    obtain ⟨hfit, st', ds, hstepped, hline⟩ :=
      hrest.perform hs (i := .media epoch result) (fun hcut => hcut) hat
    exact ⟨hfit, st', ds, hstepped.spoken rfl, hline⟩

theorem answer (h : a.Fit r) (q : Acquisition) (result : Except MediaError MediaStream) :
    (a.answer q result).Fit r ∧ (a.answer q result).call = a.call := by
  unfold Agent.answer
  split
  · exact ⟨⟨h.sound, h.live, h.running, h.spared⟩, rfl⟩
  · exact ⟨h, rfl⟩

theorem disturb (h : a.Fit r) {remote : String} (serial : Nat) {n : IceState}
    (hn : remote = r → n.isDead = false) (hat : a.call.At r st) :
    (a.disturb remote serial n).Fit r ∧ (a.disturb remote serial n).call.At r st := by
  unfold Agent.disturb
  split
  · exact ⟨h, hat⟩
  · have hmoves : ∀ {r st}, a.call.At r st →
        (a.call.updatePeer remote serial fun p => (Connection.network p n).1).At r st :=
      fun hat => Call.at_updatePeer hat remote serial fun p hp => hp.congr rfl rfl rfl rfl rfl
    refine ⟨⟨fun r' => (h.sound r').imp fun _ => hmoves, h.live, h.running, ?_⟩, hmoves hat⟩
    intro signal hsignal hr
    simp only [h.running, if_true] at hsignal
    rcases List.mem_append.mp hsignal with hold | hnew
    · refine (h.spared signal hold hr).imp_right fun ⟨l, hl, hserial⟩ => ?_
      obtain ⟨l', hl', hserial'⟩ := Call.serial_updatePeer hl remote serial
        fun p => (Connection.network p n).1
      exact ⟨l', hl', hserial' ▸ hserial⟩
    · obtain ⟨e, he, rfl⟩ := List.mem_map.mp hnew
      have he : e = .iceChanged n := List.mem_singleton.mp he
      refine .inl fun state hstate => ?_
      rw [he, PeerEvent.iceChanged.injEq] at hstate
      rw [← hstate]
      exact hn hr

/-- In a turn that spares the line the agent may offer, and that is all. -/
theorem turn (h : a.Fit r) (hs : s.Fresh) {t : Turn} (ht : t.Spares r) (hat : a.call.At r st) :
    (a.turn s t).1.Fit r ∧ ∃ st' ds, Call.Spoken st st' ds ∧
      (a.turn s t).1.call.At r st' ∧ Call.descriptionsTo r (a.turn s t).2 = ds := by
  cases t with
  | session e =>
      obtain ⟨hfit, st', ds, hstepped, hline⟩ :=
        h.perform hs (i := .session e) (fun hcut => hcut) hat
      have hnone : Call.hearing s r (.session e) = none := by
        cases e with
        | message m => exact if_neg ht
        | _ => rfl
      exact ⟨hfit, st', ds, hstepped.spoken hnone, hline⟩
  | sessionEnded => exact ht.elim
  | start video =>
      obtain ⟨hfit, st', ds, hstepped, hline⟩ :=
        h.perform hs (i := .start video) (fun hcut => hcut) hat
      exact ⟨hfit, st', ds, hstepped.spoken rfl, hline⟩
  | leave =>
      obtain ⟨hfit, st', ds, hstepped, hline⟩ := h.perform hs (i := .leave) (fun hcut => hcut) hat
      exact ⟨hfit, st', ds, hstepped.spoken rfl, hline⟩
  | teardown => exact ht.elim
  | dropped => exact ht.elim
  | signal =>
      obtain ⟨hfit, hat', hsends⟩ := h.takeSignal hs hat
      exact ⟨hfit, st, [], .nothing, hat', hsends⟩
  | media => exact h.takeAnswer hs hat
  | answered q result =>
      obtain ⟨hfit, hcall⟩ := h.answer q result
      refine ⟨hfit, st, [], .nothing, ?_, rfl⟩
      change (a.answer q result).call.At r st
      rwa [hcall]
  | network remote serial n =>
      obtain ⟨hfit, hat'⟩ := h.disturb serial ht hat
      exact ⟨hfit, st, [], .nothing, hat', rfl⟩

end Fit

/-! ## Whatever an agent lived through -/

/-- Every link is in some stance, none is left once the call is over, and an agent that takes no
more turns has a call that is over. -/
structure Sound (a : Agent) : Prop where
  lines : a.call.Sound
  ended : a.call.ended → a.call.links = .empty
  stopped : a.running = false → a.call.ended

namespace Sound

variable {a : Agent} {s : Setting}

theorem empty : ({} : Agent).Sound := ⟨fun _ => ⟨{}, rfl⟩, fun _ => rfl, nofun⟩

theorem perform (h : a.Sound) (hs : s.Fresh) (i : Call.Input) : (a.perform s i).1.Sound := by
  by_cases hr : a.running = true
  · have hcall : (a.perform s i).1.call = (a.call.step s i).1 := by
      unfold Agent.perform
      rw [if_neg (by simp [hr])]
    refine ⟨?_, ?_, fun hstop => ?_⟩
    · rw [hcall]
      exact Call.sound_step hs i h.lines
    · rw [hcall]
      by_cases hended : a.call.ended
      · rw [Call.step_of_ended s i hended]
        exact h.ended
      · by_cases hi : i = .teardown
        · subst hi
          exact fun _ => (Call.teardown_silent hended).1
        · rw [Call.step_ended s a.call hi]
          exact fun hend => absurd hend hended
    · rw [running_perform, hr] at hstop
      cases hstop
  · rwa [perform_of_not_running s i (by simpa using hr)]

theorem finish (h : a.Sound) (hs : s.Fresh) : (a.finish s).1.Sound := by
  have hdown := h.perform hs .teardown
  exact ⟨hdown.lines, hdown.ended, fun _ => ended_perform_teardown s h.stopped⟩

theorem disturb (h : a.Sound) (remote : String) (serial : Nat) (n : IceState) :
    (a.disturb remote serial n).Sound := by
  unfold Agent.disturb
  split
  · exact h
  · refine ⟨fun r => (h.lines r).imp fun st hat => ?_, fun hend => ?_, h.stopped⟩
    · exact Call.at_updatePeer hat remote serial fun p hp => hp.congr rfl rfl rfl rfl rfl
    · simp only [Call.updatePeer, h.ended hend]
      rfl

theorem turn (h : a.Sound) (hs : s.Fresh) (t : Turn) : (a.turn s t).1.Sound := by
  cases t with
  | session e => exact h.perform hs _
  | sessionEnded => exact h.perform hs _
  | start video => exact h.perform hs _
  | leave => exact h.perform hs _
  | teardown => exact h.finish hs
  | dropped => exact h.finish hs
  | signal =>
      change (a.takeSignal s).1.Sound
      unfold takeSignal
      split
      · exact h
      · rename_i signal signals _
        have hrest : ({ a with signals } : Agent).Sound := ⟨h.lines, h.ended, h.stopped⟩
        exact hrest.perform hs _
  | media =>
      change (a.takeAnswer s).1.Sound
      unfold takeAnswer
      split
      · exact h
      · rename_i epoch result answers _
        have hrest : ({ a with answers } : Agent).Sound := ⟨h.lines, h.ended, h.stopped⟩
        exact hrest.perform hs _
  | answered q result =>
      change (a.answer q result).Sound
      unfold answer
      split
      · exact ⟨h.lines, h.ended, h.stopped⟩
      · exact h
  | network remote serial n => exact h.disturb remote serial n

theorem run (h : a.Sound) {history : List (Setting × Turn)} (hs : ∀ st ∈ history, st.1.Fresh) :
    (a.run history).1.Sound := by
  induction history generalizing a with
  | nil => exact h
  | cons st rest ih =>
      exact ih (h.turn (hs st List.mem_cons_self) st.2) fun st' hst' =>
        hs st' (List.mem_cons_of_mem _ hst')

/-- An agent that has a link still takes turns. -/
theorem of_link (h : a.Sound) {r : String} {l : Link} (hl : a.call.links.find? r = some l) :
    ¬ a.call.ended ∧ a.running = true := by
  have hlive : ¬ a.call.ended := fun hend => by
    rw [h.ended hend] at hl
    cases hl
  exact ⟨hlive, by simpa using fun hstop => hlive (h.stopped hstop)⟩

end Sound

end Agent

end Parley
