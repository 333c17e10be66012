import Parley.Proofs.Client.Delivery
import Parley.Proofs.Client.Sessions
import Parley.Proofs.Client.Socket

/-!
# What is read of a client

Whoever takes in what a client writes reads something into some of its frames and passes over the
others. What was read of it so far and what will be read of the texts that wait are one log: a text
that is written leaves the one for the other, and a frame that is sent goes to the end
(`Client.unread_transmit`). What sessions ask for while they go on, and what the supervisor does, is
of no account to a reader who passes over it (`Client.readBy_turn_of_aside`).
-/

namespace Parley

/-- A reader passes over the frames of an event on a topic. -/
def Frame.PassedOver {β : Type} (read : Frame → Option β) (topic : String) (e : Event) : Prop :=
  ∀ f : Frame, f.topic = topic → f.action = e.action → read f = none

theorem Phase.isRunning_iff {p : Phase} : p.isRunning = true ↔ ∃ t, p = .running t := by
  cases p <;> simp [isRunning]

namespace Client

variable {σ β : Type} {read : Frame → Option β}

/-! ## Texts -/

/-- What is read into texts. -/
def readings (read : Frame → Option β) (texts : List String) : List β :=
  texts.filterMap fun text => (Frame.decodeText text).toOption.bind read

@[simp] theorem readings_append (texts more : List String) :
    readings read (texts ++ more) = readings read texts ++ readings read more :=
  List.filterMap_append

theorem readings_cons (text : String) (texts : List String) :
    readings read (text :: texts) = readings read [text] ++ readings read texts :=
  readings_append [text] texts

theorem readings_of_encode {f : Frame} {wire : String} (h : f.encode = .ok wire) :
    readings read [wire] = (read f).toList := by
  have hdecode := Frame.decode_encode h []
  rw [List.append_nil] at hdecode
  have hread : (Frame.decodeText wire).toOption.bind read = read f := by
    rw [Frame.decodeText, hdecode]
    rfl
  rw [readings, List.filterMap_cons, hread]
  cases read f <;> rfl

/-- The texts that are written. -/
def written (es : List ClientEffect) : List String := es.filterMap ClientEffect.text?

@[simp] theorem written_append (es fs : List ClientEffect) :
    written (es ++ fs) = written es ++ written fs := List.filterMap_append

/-- What will be read of the texts that wait. -/
def unread (read : Frame → Option β) (c : Client σ) : List β :=
  readings read (c.outbound.getD [])

/-- What is read of a step and will be read of what waits then. -/
def readBy (read : Frame → Option β) (s : Step σ) : List β :=
  readings read (written s.2) ++ s.1.unread read

theorem unread_of_none {c : Client σ} (h : c.outbound = none) : c.unread read = [] := by
  rw [unread, h]
  rfl

theorem written_eq_nil {es : List ClientEffect} (h : ∀ e ∈ es, e.text? = none) :
    written es = [] := List.filterMap_eq_nil_iff.mpr h

theorem Supervised.written {c : Client σ} {s : Step σ} (h : Supervised c s) : written s.2 = [] :=
  written_eq_nil h.silent

theorem Supervised.readBy {c : Client σ} {s : Step σ} (h : Supervised c s)
    (houtbound : s.1.outbound = c.outbound) : readBy read s = c.unread read := by
  rw [Client.readBy, h.written, unread, houtbound]
  rfl

/-! ## Frames that are sent -/

theorem unread_transmit {c : Client σ} {store : Bool} {topic : String} {e : Event}
    (h : (c.transmit store topic e).1 = true) :
    (c.transmit store topic e).2.unread read =
      c.unread read ++ (read (c.frame store topic e)).toList := by
  obtain ⟨texts, text, htexts, htext, hafter⟩ := transmit_of_eq_true h
  rw [hafter, unread, unread, htexts, Option.getD_some, Option.getD_some, readings_append,
    readings_of_encode htext]

theorem unread_transmit_of_passedOver (c : Client σ) (store : Bool) {topic : String} {e : Event}
    (h : Frame.PassedOver read topic e) :
    (c.transmit store topic e).2.unread read = c.unread read := by
  cases hsent : (c.transmit store topic e).1 with
  | false => rw [transmit_of_eq_false hsent]
  | true =>
      have hnone : read (c.frame store topic e) = none := h _ rfl rfl
      rw [unread_transmit hsent, hnone, Option.toList_none, List.append_nil]

theorem unread_transmitAll_of_passedOver (c : Client σ) {topic : String} {es : List Event}
    (h : ∀ e ∈ es, Frame.PassedOver read topic e) :
    (c.transmitAll topic es).unread read = c.unread read := by
  induction es generalizing c with
  | nil => rfl
  | cons e rest ih =>
      obtain ⟨he, hrest⟩ := List.forall_mem_cons.mp h
      rw [transmitAll, List.foldl_cons]
      exact (ih _ hrest).trans (c.unread_transmit_of_passedOver false he)

/-! ## What goes past the reader -/

/-- A reader who passes over what sessions ask for while they go on, and over answers to
heartbeats. -/
structure Overlooks (read : Frame → Option β) : Prop where
  roster : ∀ f : Frame, f.action = .loadSubscribers → read f = none
  page : ∀ f : Frame, f.action = .loadMessages → read f = none
  pong : read Frame.pong = none

namespace Overlooks

theorem rosterRequest (h : Overlooks read) (topic : String) :
    Frame.PassedOver read topic Session.rosterRequest := fun f _ => h.roster f

theorem pageRequest (h : Overlooks read) (topic : String) (s : Session) (page : UInt32) :
    Frame.PassedOver read topic (s.pageRequest page) := fun f _ => h.page f

/-- Whatever a session hears, what it then asks for is passed over. -/
theorem hear (h : Overlooks read) (me : Option String) (palette : Palette) (m : Message)
    (s : Session) (topic : String) :
    ∀ e ∈ (s.hear me palette m).2.2, Frame.PassedOver read topic e := by
  unfold Session.hear
  split
  · exact List.forall_mem_singleton.mpr (h.rosterRequest topic)
  · dsimp only
    split
    · exact List.forall_mem_singleton.mpr fun f _ => h.page f
    · exact List.forall_mem_nil _
  all_goals exact List.forall_mem_nil _

end Overlooks

theorem unread_hear (h : Overlooks read) (l : Listener) (m : Message) (c : Client σ) :
    (hear l m c).2.unread read = c.unread read := by
  unfold hear
  split
  · rfl
  · split
    · rfl
    · exact unread_transmitAll_of_passedOver _ (h.hear _ _ m _ _)

theorem unread_callAll (h : Overlooks read) (m : Message) (ls : List Listener) (c : Client σ) :
    (Router.callAll hear m ls c).2.unread read = c.unread read := by
  induction ls generalizing c with
  | nil => rfl
  | cons l rest ih => exact (ih _).trans (unread_hear h l m c)

theorem readings_pong (h : Overlooks read) : readings read (written pongEffects) = [] := by
  obtain ⟨pong, hpong⟩ := exists_encode_pong
  rw [pongEffects, hpong]
  refine (readings_of_encode hpong).trans ?_
  rw [h.pong]
  rfl

theorem readBy_receive (h : Overlooks read) (bytes : List UInt8) (c : Client σ) :
    readBy read (receive bytes c) = c.unread read := by
  unfold receive
  split
  · rfl
  · split
    · rw [readBy, readings_pong h]
      rfl
    · split
      · rfl
      · split
        · rfl
        · exact unread_callAll h _ _ c

theorem unread_loadMore (h : Overlooks read) (c : Client σ) (index : Nat) :
    (c.loadMore index).2.unread read = c.unread read := by
  unfold loadMore
  split
  · rfl
  · exact unread_transmitAll_of_passedOver _
      (List.forall_mem_singleton.mpr (h.pageRequest _ _ _))

theorem unread_openSession (h : Overlooks read)
    (hjoin : ∀ topic, Frame.PassedOver read topic .subscribe) {c : Client σ} (hc : c.Registered)
    (topic : String) (pageSize : UInt32) :
    (c.openSession topic pageSize).2.unread read = c.unread read := by
  obtain ⟨router, sessions, -, -, -, heq⟩ := hc.openSession topic pageSize
  rw [heq]
  refine unread_transmitAll_of_passedOver _ ?_
  split
  · exact List.forall_mem_singleton.mpr (h.rosterRequest topic)
  · exact List.forall_mem_singleton.mpr (hjoin topic)

theorem unread_closeSession (hleave : ∀ topic, Frame.PassedOver read topic .unsubscribe)
    {c : Client σ} (hc : c.Registered) (index : Nat) :
    (c.closeSession index).unread read = c.unread read := by
  rcases hc.closeSession index with heq | ⟨router, sessions, topic, -, -, -, heq⟩
  · rw [heq]
  · rw [heq]
    refine unread_transmitAll_of_passedOver _ ?_
    split
    · exact List.forall_mem_nil _
    · exact List.forall_mem_singleton.mpr (hleave topic)

theorem unread_resubscribe (hjoin : ∀ topic, Frame.PassedOver read topic .subscribe)
    (c : Client σ) : c.resubscribe.unread read = c.unread read := by
  unfold resubscribe
  generalize c.router.topics.keys = topics
  induction topics generalizing c with
  | nil => rfl
  | cons topic rest ih => exact (ih _).trans (c.unread_transmit_of_passedOver false (hjoin topic))

variable [MarkerStore σ]

theorem outbound_onOpened {c : Client σ} {t : Ticket} (hphase : c.phase = .opening t)
    (husable : (c.config.socketTarget? t).isSome) :
    c.onOpened.1.outbound =
      (resubscribe { c with
        connectionId := some t.connectionId, outbound := some [] }).outbound := by
  unfold onOpened
  split
  · rename_i t' hphase'
    cases hphase.symm.trans hphase'
    split
    · rename_i hnone
      rw [Option.isNone_iff_eq_none.mp hnone] at husable
      cases husable
    · rfl
  · rename_i hnot
    exact absurd hphase (hnot t)

/-- A socket that opens was being opened, under an address that is of use. -/
theorem opening_of_opens {c : Client σ} (hbefore : c.phase.isRunning = false)
    (hafter : c.onOpened.1.phase.isRunning = true) :
    ∃ t, c.phase = .opening t ∧ (c.config.socketTarget? t).isSome := by
  unfold onOpened at hafter
  split at hafter
  · rename_i t hphase
    split at hafter
    · rw [hbefore] at hafter
      cases hafter
    · rename_i husable
      refine ⟨t, hphase, ?_⟩
      rwa [Option.isSome_iff_ne_none, ne_eq, ← Option.isNone_iff_eq_none]
  · rw [hbefore] at hafter
    cases hafter

theorem unread_onOpened (hjoin : ∀ topic, Frame.PassedOver read topic .subscribe) {c : Client σ}
    (hbefore : c.phase.isRunning = false) (hafter : c.onOpened.1.phase.isRunning = true) :
    c.onOpened.1.unread read = [] := by
  obtain ⟨t, hphase, husable⟩ := opening_of_opens hbefore hafter
  rw [unread, outbound_onOpened hphase husable]
  exact unread_resubscribe hjoin _

/-- While a socket stays open, what is read grows only by frames that are transmitted and by what
the opening and the closing of a session ask for. -/
theorem readBy_turn_of_aside {c : Client σ} {t : Turn σ} (h : Overlooks read)
    (htransmit : ∀ store topic e, t = .input (.transmit store topic e) →
      Frame.PassedOver read topic e)
    (hkeeps : t.keepsSessions = true) (hc : c.Registered) (hrunning : c.phase.isRunning = true)
    (hafter : (c.turn t).1.phase.isRunning = true) :
    readBy read (c.turn t) = c.unread read := by
  have hhandling := handling_turn c t
  generalize c.turn t = s at hhandling hafter ⊢
  cases hhandling with
  | supervised hs => exact hs.readBy (hs.outbound.resolve_right (by simp [hafter]))
  | opened hphase =>
      rw [hphase] at hrunning
      cases hrunning
  | @received bytes => exact readBy_receive h bytes c
  | flushed houtbound =>
      rw [unread, houtbound, Option.getD_some, readings_cons]
      rfl
  | transmitted store topic e =>
      exact c.unread_transmit_of_passedOver store (htransmit _ _ _ rfl)
  | unhooked name =>
      change (c.removeHook name).2.unread read = _
      rw [removeHook, hc.noHooks, Table.find?_empty]
  | dispatched m => exact unread_callAll h m _ c
  | asked index => exact unread_loadMore h c index
  | hooked | joined | left => cases hkeeps

/-- A client that leaves keeps its texts for as long as its supervisor goes on. -/
theorem unread_logout (read : Frame → Option β) (c : Client σ) :
    c.logout.unread read = c.unread read ∨ c.logout.outbound = none := by
  unfold logout
  dsimp only
  split
  · exact .inr rfl
  · exact .inl rfl

/-- Without a socket nothing is written. -/
theorem written_turn_of_not_running {c : Client σ} (hc : c.Agrees)
    (hphase : c.phase.isRunning = false) (t : Turn σ) : written (c.turn t).2 = [] := by
  have hhandling := handling_turn c t
  generalize c.turn t = s at hhandling ⊢
  cases hhandling with
  | supervised hs => exact hs.written
  | opened _ hsilent => exact written_eq_nil hsilent
  | received hrunning =>
      rw [hrunning] at hphase
      cases hphase
  | flushed houtbound =>
      rw [hc.outbound_eq_none hphase] at houtbound
      cases houtbound
  | _ => rfl

/-- When a socket ends nothing is written. -/
theorem written_of_ends {c : Client σ} {t : Turn σ} {s : Step σ} (h : Move c t s)
    (hbefore : c.phase.isRunning = true) (hafter : s.1.phase.isRunning = false) :
    written s.2 = [] := by
  cases h with
  | rest same =>
      rw [same.phase, hbefore] at hafter
      cases hafter
  | ticked | written | focused | leave | ticket | elapsed | stop => rfl
  | «begin» | noTicket => rfl
  | opened hphase =>
      rw [hphase] at hbefore
      cases hbefore
  | endOnRequest hends => cases hends <;> rfl
  | @endForGood failed _ _ _ hends => cases hends <;> rfl
  | endAtOnce hends => cases hends <;> rfl
  | endForNow hends => cases hends <;> (split <;> rfl)
  | stopOpen => rfl

/-- What is read grows only by frames that are transmitted, unless the socket ends. -/
theorem readBy_turn {c : Client σ} {t : Turn σ} (h : Overlooks read)
    (hjoin : ∀ topic, Frame.PassedOver read topic .subscribe)
    (hleave : ∀ topic, Frame.PassedOver read topic .unsubscribe)
    (htransmit : ∀ store topic e, t = .input (.transmit store topic e) →
      Frame.PassedOver read topic e)
    (hhook : ∀ name topic outcome, t ≠ .input (.addHook name topic outcome))
    (hc : c.Registered) (hagrees : c.Agrees) :
    readBy read (c.turn t) = c.unread read ∨
      ((c.turn t).1.outbound = none ∧ written (c.turn t).2 = []) := by
  have hmove := move_turn c t
  have hagrees' := hagrees.move hmove
  cases hafter : (c.turn t).1.phase.isRunning with
  | false =>
      refine .inr ⟨hagrees'.outbound_eq_none hafter, ?_⟩
      cases hbefore : c.phase.isRunning with
      | false => exact written_turn_of_not_running hagrees hbefore t
      | true => exact written_of_ends hmove hbefore hafter
  | true =>
      refine .inl ?_
      cases hbefore : c.phase.isRunning with
      | false =>
          obtain ⟨k, hk⟩ := Phase.isRunning_iff.mp hafter
          have hnot : c.phase ≠ .running k := fun heq => by simp [heq, Phase.isRunning] at hbefore
          obtain ⟨rfl, -⟩ := hmove.entersRunning hnot hk
          rw [readBy, written_turn_of_not_running hagrees hbefore,
            unread_of_none (hagrees.outbound_eq_none hbefore)]
          exact unread_onOpened hjoin hbefore hafter
      | true =>
          cases hkeeps : t.keepsSessions with
          | true => exact readBy_turn_of_aside h htransmit hkeeps hc hbefore hafter
          | false =>
              rcases Turn.of_keepsSessions_eq_false hkeeps with
                ⟨name, topic, outcome, rfl⟩ | ⟨topic, pageSize, rfl⟩ | ⟨index, rfl⟩
              · exact absurd rfl (hhook name topic outcome)
              · exact unread_openSession h hjoin hc topic pageSize
              · exact unread_closeSession hleave hc index

end Client

end Parley
