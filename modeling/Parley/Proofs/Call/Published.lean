import Parley.Call.Duet
import Parley.Proofs.Call.Publication

/-!
# What is published is what is held

An agent over connections in memory gives every link the tracks of the stream it holds, through
links that come and go, streams that are taken up and taken back, and answers of the devices that
come too late. What carries this from turn to turn is that a stream arrives in the current epoch
only while none is held (`Agent.Coherent`), so that it never meets links that have tracks already.
-/

namespace Parley

namespace Call

variable {label : String} {s : Setting} {c : Call}

/-! ## Steps -/

theorem setControl_call (control : Control) (c : Call) :
    (c.setControl control).1 = { c with control } := by
  unfold setControl
  split
  · rename_i h
    rw [← h]
  · rfl

/-- The links without the tracks of their connections. -/
def bareLinks (c : Call) : Table Link :=
  c.links.map fun _ l => { l with peer := { l.peer with tracks := [] } }

theorem Publishes.map_detach (hc : c.Publishes label) {stream : MediaStream}
    (hheld : c.held = some stream) : (c.links.map fun _ l => l.detach stream) = c.bareLinks := by
  refine Table.ext_find? fun r => ?_
  rw [bareLinks, Table.find?_map, Table.find?_map]
  cases hl : c.links.find? r with
  | none => rfl
  | some l =>
      obtain ⟨-, htracks⟩ := hc.links r l hl
      rw [published, hheld] at htracks
      exact congrArg some (Link.detach_eq htracks)

theorem Publishes.bareLinks_eq (hc : c.Publishes label) (hheld : c.held = none) :
    c.bareLinks = c.links := by
  refine Table.ext_find? fun r => ?_
  rw [bareLinks, Table.find?_map]
  cases hl : c.links.find? r with
  | none => rfl
  | some l =>
      obtain ⟨-, htracks⟩ := hc.links r l hl
      rw [published, hheld] at htracks
      obtain ⟨remote, serial, phase, queue, media, peer⟩ := l
      obtain ⟨peerLabel, tracks⟩ := peer
      obtain rfl : tracks = [] := htracks
      rfl

theorem Publishes.withdraw_eq (hc : c.Publishes label) :
    c.withdraw = ({ c with held := none, links := c.bareLinks }, releaseAll (c.held.getD {})) := by
  unfold withdraw
  split
  · rename_i hheld
    rw [hc.bareLinks_eq hheld]
    cases c
    cases hheld
    rfl
  · rename_i stream hheld
    rw [hc.map_detach hheld, hheld]
    rfl

theorem sent_farewell (c : Call) : Duet.sent c.farewell.2 = [.stopStream none] := by
  have hcontrol : Duet.sent (c.setControl .start).2 = [] := by
    unfold setControl
    split <;> rfl
  rw [farewell, Step.andThen_effects, Duet.sent_append, hcontrol]
  rfl

/-- A call that is left takes the tracks from all links, and everyone is told once. -/
theorem Publishes.leave (hc : c.Publishes label) (hend : c.ended = false) :
    c.leave.1 =
        { c with links := c.bareLinks, held := none, control := .start, epoch := c.epoch + 1 } ∧
      Duet.sent c.leave.2 = [.stopStream none] := by
  have hnext : ({ c with epoch := c.epoch + 1 } : Call).Publishes label := ⟨hc.links, hc.opened⟩
  have hreleases : ∀ stream, Duet.sent (releaseAll stream) = [] := by
    intro stream
    simp [Duet.sent, releaseAll]
  unfold Call.leave
  rw [if_neg (by simp [hend]), hnext.withdraw_eq]
  refine ⟨?_, ?_⟩
  · rw [Step.andThen_call, farewell, Step.andThen_call, setControl_call]
    rfl
  · rw [Step.andThen_effects, Duet.sent_append, hreleases, sent_farewell]
    rfl

theorem publishes_bare {c' : Call} (hc : c.Publishes label) (hheld : c'.held = none)
    (hlinks : c'.links = c.bareLinks) : c'.Publishes label := by
  refine ⟨fun r l hl => ?_, fun stream hs => ?_⟩
  · rw [hlinks, bareLinks, Table.find?_map] at hl
    obtain ⟨k, hk, rfl⟩ := Option.map_eq_some_iff.mp hl
    rw [published, hheld]
    exact ⟨(hc.links r k hk).1, rfl⟩
  · rw [hheld] at hs
    cases hs

theorem Publishes.of_no_links (hlinks : c.links = .empty) (hheld : c.held = none) :
    c.Publishes label := by
  refine ⟨fun r l hl => ?_, fun stream hs => ?_⟩
  · rw [hlinks] at hl
    cases hl
  · rw [hheld] at hs
    cases hs

/-- After a step the links have the published tracks, and the descriptions that were sent list
them. -/
structure Stays (label : String) (t : Step) : Prop where
  publishes : t.1.Publishes label
  lists : ∀ d ∈ descriptions t.2, d.Lists label t.1.published

theorem Discloses.stays {t : Step} (h : Discloses label c t) : Stays label t := by
  refine ⟨h.publishes, fun d hd => ?_⟩
  rw [published, h.held]
  exact h.lists d hd

theorem Stays.quiet {t : Step} (h : t.1.Publishes label) (hsends : descriptions t.2 = []) :
    Stays label t := by
  refine ⟨h, fun d hd => ?_⟩
  rw [hsends] at hd
  cases hd

theorem descriptions_eq (effects : List CallEffect) :
    descriptions effects = (Duet.sent effects).filterMap fun
      | .signal e => e.sdp
      | _ => none := by
  induction effects with
  | nil => rfl
  | cons e rest ih =>
      cases e with
      | send event =>
          cases event with
          | signal e =>
              show (_ :: rest).filterMap _ = (_ :: Duet.sent rest).filterMap _
              rw [List.filterMap_cons, List.filterMap_cons, ← ih]
              rfl
          | _ => exact ih
      | _ => exact ih

theorem stays_leave (hc : c.Publishes label) : Stays label c.leave := by
  cases hend : c.ended with
  | true =>
      unfold leave
      rw [if_pos hend]
      exact (Discloses.nothing hc).stays
  | false =>
      refine .quiet ?_ ?_
      · rw [(hc.leave hend).1]
        exact publishes_bare hc rfl rfl
      · rw [descriptions_eq, (hc.leave hend).2]
        rfl

theorem stays_teardown (hc : c.Publishes label) : Stays label c.teardown := by
  unfold teardown
  split
  · exact (Discloses.nothing hc).stays
  · refine .quiet ?_ ?_
    · simp only [Step.andThen_call, setControl_call]
      exact .of_no_links rfl rfl
    · have htold : ∀ c' : Call, descriptions c'.tellStreams = [] := fun _ => rfl
      simp only [Step.andThen_effects, descriptions_append, descriptions_releaseAll,
        descriptions_setControl, htold, List.append_nil]

theorem stays_onMedia (hs : s.Loopback label) (hc : c.Publishes label) {epoch : Nat}
    {result : Except MediaError MediaStream}
    (hstream : ∀ stream, result = .ok stream → stream.OpenedBy label)
    (hheld : epoch = c.epoch → c.held = none) : Stays label (c.onMedia s epoch result) := by
  unfold onMedia
  split
  · split
    · exact .quiet hc (descriptions_releaseAll _)
    · exact (Discloses.nothing hc).stays
  · rename_i hnow
    rw [not_or, ne_eq, Decidable.not_not] at hnow
    split
    · exact ((Discloses.setControl hc .start).andThen (f := fun c => (c, [_]))
        fun hc' => .aside hc' rfl rfl rfl).stays
    · rename_i stream
      exact (discloses_publish hs hc (hheld hnow.2) (hstream stream rfl)).stays

theorem stays_step (hs : s.Loopback label) (hc : c.Publishes label) {i : Input}
    (hi : ∀ epoch result, i = .media epoch result →
      (∀ stream, result = .ok stream → stream.OpenedBy label) ∧
        (epoch = c.epoch → c.held = none)) : Stays label (c.step s i) := by
  cases i with
  | session e => exact (discloses_of_deals hs (deals_onSession s e c) hc).stays
  | start video => exact (discloses_startMedia hc video).stays
  | leave => exact stays_leave hc
  | teardown => exact stays_teardown hc
  | signal signal => exact (discloses_onSignal hc signal).stays
  | media epoch result =>
      obtain ⟨hstream, hheld⟩ := hi epoch result rfl
      exact stays_onMedia hs hc hstream hheld

end Call

/-! ## Agents -/

namespace Agent

variable {label : String} {s : Setting} {a : Agent} {t : Turn}

/-- The devices that answer have the name of the engine. -/
def Turn.Loopback (label : String) : Turn → Prop
  | .answered q result => ∃ d : Devices, d.label = label ∧ (d.acquire q.video).1 = result
  | _ => True

theorem answers_perform (s : Setting) (i : Call.Input) (a : Agent) :
    (a.perform s i).1.answers = a.answers := by
  unfold perform
  split <;> rfl

/-- An answer waits since this turn or since before. -/
theorem mem_answers_turn {answer : Nat × Except MediaError MediaStream}
    (h : answer ∈ (a.turn s t).1.answers) :
    answer ∈ a.answers ∨ ∃ q result, t = .answered q result ∧ answer = (q.epoch, result) := by
  cases t with
  | session | sessionEnded | start | leave =>
      change answer ∈ (a.perform s _).1.answers at h
      rw [answers_perform] at h
      exact .inl h
  | teardown | dropped => cases h
  | signal =>
      change answer ∈ (a.takeSignal s).1.answers at h
      unfold takeSignal at h
      split at h
      · exact .inl h
      · rw [answers_perform] at h
        exact .inl h
  | media =>
      change answer ∈ (a.takeAnswer s).1.answers at h
      unfold takeAnswer at h
      split at h
      · exact .inl h
      · rename_i hanswers
        rw [answers_perform] at h
        rw [hanswers]
        exact .inl (List.mem_cons_of_mem _ h)
  | answered q result =>
      change answer ∈ (a.answer q result).answers at h
      unfold Agent.answer at h
      split at h
      · dsimp only at h
        split at h
        · rcases List.mem_append.mp h with h | h
          · exact .inl h
          · exact .inr ⟨q, result, rfl, List.mem_singleton.mp h⟩
        · exact .inl h
      · exact .inl h
  | network remote serial n =>
      change answer ∈ (a.disturb remote serial n).answers at h
      unfold disturb at h
      split at h
      · exact .inl h
      · exact .inl h

/-- The links of the call have the published tracks, and the streams that wait came from the
devices. -/
structure Publishes (label : String) (a : Agent) : Prop where
  call : a.call.Publishes label
  coherent : a.Coherent
  waiting : ∀ epoch stream, (epoch, .ok stream) ∈ a.answers → stream.OpenedBy label

namespace Publishes

theorem empty : ({} : Agent).Publishes label where
  call := .of_no_links rfl rfl
  coherent := coherent_empty
  waiting _ _ h := absurd h List.not_mem_nil

/-- A stream that the agent takes came from the devices, and none is held if it is of the current
epoch. -/
theorem of_input (h : a.Publishes label) {epoch : Nat} {result : Except MediaError MediaStream}
    (hi : a.input? t = some (.media epoch result)) :
    (∀ stream, result = .ok stream → stream.OpenedBy label) ∧
      (epoch = a.call.epoch → a.call.held = none) := by
  obtain ⟨-, hgives⟩ := gives_of_input hi
  cases hgives with
  | media hanswers =>
      refine ⟨fun stream hstream => ?_, fun hepoch => ?_⟩
      · subst hstream
        exact h.waiting epoch stream (hanswers ▸ List.mem_cons_self)
      · obtain ⟨-, hagrees⟩ := h.coherent.of_answer hanswers
        exact (hagrees.answered hepoch).2.2.1

theorem stays_turn (h : a.Publishes label) (hs : s.Loopback label) :
    Call.Stays label ((a.turn s t).1.call, (a.turn s t).2) := by
  refine turn_cases s a t ?_ (.quiet h.call rfl) ?_
  · intro i hi
    refine Call.stays_step hs h.call fun epoch result heq => ?_
    subst heq
    exact h.of_input hi
  · intro remote serial n _
    refine .quiet ⟨?_, h.call.opened⟩ rfl
    intro r l hl
    obtain ⟨k, hk, rfl⟩ := Call.find?_of_updatePeer hl
    have hpublishes := h.call.links r k hk
    split
    · exact hpublishes.setIce n
    · exact hpublishes

theorem turn (h : a.Publishes label) (hs : s.Loopback label) (ht : t.Loopback label) :
    (a.turn s t).1.Publishes label where
  call := (h.stays_turn hs).publishes
  coherent := h.coherent.turn s t
  waiting epoch stream hmem := by
    rcases mem_answers_turn hmem with hmem | ⟨q, result, rfl, heq⟩
    · exact h.waiting epoch stream hmem
    · obtain ⟨d, hlabel, hanswer⟩ := ht
      cases heq
      exact ⟨d, q.video, hlabel, hanswer⟩

theorem run (h : a.Publishes label) {history : List (Setting × Turn)}
    (hhistory : ∀ st ∈ history, st.1.Loopback label ∧ st.2.Loopback label) :
    (a.run history).1.Publishes label := by
  induction history generalizing a with
  | nil => exact h
  | cons st rest ih =>
      obtain ⟨⟨hs, ht⟩, hrest⟩ := List.forall_mem_cons.mp hhistory
      exact ih (h.turn hs ht) hrest

end Publishes

/-- Between turns every link has exactly the tracks of the stream that is held, in their order, and
none while none is held. Every offer and every answer lists the tracks that are held when it is
sent. A call that is left takes the tracks from its links and tells everyone once; nothing else
about the links changes. -/
theorem published_is_held {history : List (Setting × Turn)}
    (hhistory : ∀ st ∈ history, st.1.Loopback label ∧ st.2.Loopback label) :
    let a := (({} : Agent).run history).1
    (∀ r l, a.call.links.find? r = some l → l.peer.tracks = a.call.published) ∧
      (∀ s t, s.Loopback label → ∀ d ∈ Call.descriptions (a.turn s t).2,
        d.Lists label (a.turn s t).1.call.published ∧
          (Sdp.Plain label → Sdp.tracks d.sdp = (a.turn s t).1.call.published)) ∧
      (a.call.ended = false → ∀ s,
        (a.turn s .leave).1.call =
            { a.call with
              links := a.call.links.map fun _ l => { l with peer := { l.peer with tracks := [] } }
              held := none, control := .start, epoch := a.call.epoch + 1 } ∧
          Duet.sent (a.turn s .leave).2 = [.stopStream none]) := by
  intro a
  have ha : a.Publishes label := Publishes.empty.run hhistory
  refine ⟨fun r l hl => (ha.call.links r l hl).2, fun s t hs d hd => ?_, fun hend s => ?_⟩
  · have hstays := ha.stays_turn (t := t) hs
    have hlists := hstays.lists d hd
    refine ⟨hlists, fun hlabel => hlists.tracks hlabel fun track htrack => ?_⟩
    cases hheld : (a.turn s t).1.call.held with
    | none =>
        rw [Call.published, hheld] at htrack
        cases htrack
    | some stream =>
        rw [Call.published, hheld] at htrack
        exact (hstays.publishes.opened stream hheld).plain hlabel track htrack
  · have hrunning : a.running = true := by
      refine Decidable.byContradiction fun hr => ?_
      have hended := (ha.coherent.ended (by simpa using hr)).1
      rw [hend] at hended
      cases hended
    have hleave : ((a.turn s .leave).1.call, (a.turn s .leave).2) = a.call.leave :=
      perform_eq s .leave a hrunning
    obtain ⟨hcall, hsent⟩ := ha.call.leave hend
    rw [← hleave] at hcall hsent
    exact ⟨hcall, hsent⟩

/-- The microphone is published to a participant that asked for it before and to one that asks
later, and taken back from both. -/
theorem published_is_held_microphone :
    let s : Setting := { me := some "me", connect := fun _ => some { label := "me" } }
    let mic : Devices := { label := "me" }
    let asks (r : String) : Turn := .session (.message
      { topic := "room", sender := r, event := .startStream (some "me") })
    let history : List (Setting × Turn) := [(s, asks "ann"), (s, .start false),
      (s, .answered ⟨0, false, 0⟩ (mic.acquire false).1), (s, .media), (s, asks "zoe")]
    let a := (({} : Agent).run history).1
    a.call.published = [⟨"me-audio-1", .audio⟩] ∧ a.call.links.keys = ["ann", "zoe"] ∧
      (∀ r l, a.call.links.find? r = some l → l.peer.tracks = [⟨"me-audio-1", .audio⟩]) ∧
      (a.turn s .leave).1.call.published = [] ∧
      Duet.sent (a.turn s .leave).2 = [.stopStream none] := by
  intro s mic asks history a
  have hs : s.Loopback "me" := fun _ _ hp => (Option.some.inj hp).symm
  have hhistory : ∀ st ∈ history, st.1.Loopback "me" ∧ st.2.Loopback "me" := by
    intro st hst
    simp only [history, List.mem_cons, List.not_mem_nil, or_false] at hst
    rcases hst with rfl | rfl | rfl | rfl | rfl
    · exact ⟨hs, trivial⟩
    · exact ⟨hs, trivial⟩
    · exact ⟨hs, mic, rfl, rfl⟩
    · exact ⟨hs, trivial⟩
    · exact ⟨hs, trivial⟩
  obtain ⟨htracks, -, hleave⟩ := published_is_held hhistory
  have hpublished : a.call.published = [⟨"me-audio-1", .audio⟩] := by decide +kernel
  obtain ⟨hcall, hsent⟩ := hleave (by decide +kernel) s
  refine ⟨hpublished, by decide +kernel, fun r l hl => (htracks r l hl).trans hpublished, ?_, hsent⟩
  show (a.turn s .leave).1.call.published = []
  rw [hcall]
  rfl

end Agent

end Parley
