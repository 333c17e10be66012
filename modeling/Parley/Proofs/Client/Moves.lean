import Parley.Client.Supervisor

/-!
# The moves of the supervisor

Most of what a client is asked for goes past its supervisor: frames, listeners and sessions change
what waits to be written, and nothing that the supervisor looks at. What is left is said once, as
the moves of the supervisor: each with the phase that it starts from, the client that it leaves and
what it wants done. Whatever is said about the course of a connection is read off the moves
(`Client.move_turn`), not off the steps.
-/

namespace Parley

/-- The event that an effect tells, if it tells one. -/
def ClientEffect.told? : ClientEffect → Option ClientEvent
  | .tell e => some e
  | _ => none

/-- Whether an effect asks for a ticket or for a socket. -/
def ClientEffect.isAttempt : ClientEffect → Bool
  | .askTicket | .openSocket _ => true
  | _ => false

namespace Client

variable {σ : Type}

/-! ## Effects -/

def told (effects : List ClientEffect) : List ClientEvent := effects.filterMap ClientEffect.told?

@[simp] theorem told_append (es fs : List ClientEffect) : told (es ++ fs) = told es ++ told fs :=
  List.filterMap_append

/-- Effects of a step that goes past the supervisor: frames are written, and while the socket is
open a changed profile may be told. -/
structure Quiet (c : Client σ) (es : List ClientEffect) : Prop where
  told : told es = [] ∨ c.phase.isRunning = true ∧ told es = [.profileRefresh]
  noAttempt : ∀ e ∈ es, e.isAttempt = false

theorem Quiet.nil (c : Client σ) : Quiet c [] := ⟨.inl rfl, nofun⟩

theorem Quiet.write (c : Client σ) (text : String) : Quiet c [.write text] :=
  ⟨.inl rfl, by simp [ClientEffect.isAttempt]⟩

/-! ## What goes past the supervisor -/

/-- The second client is the first one but for its listeners, its sessions and the texts that wait.
-/
structure Undisturbed (c c' : Client σ) : Prop where
  config : c'.config = c.config
  markers : c'.markers = c.markers
  policy : c'.policy = c.policy
  connectionId : c'.connectionId = c.connectionId
  state : c'.state = c.state
  phase : c'.phase = c.phase
  openedBefore : c'.openedBefore = c.openedBefore
  shutdown : c'.shutdown = c.shutdown
  now : c'.now = c.now
  outbound : c'.outbound.isSome = c.outbound.isSome

namespace Undisturbed

theorem refl (c : Client σ) : Undisturbed c c :=
  ⟨rfl, rfl, rfl, rfl, rfl, rfl, rfl, rfl, rfl, rfl⟩

theorem trans {c d e : Client σ} (h : Undisturbed c d) (h' : Undisturbed d e) :
    Undisturbed c e where
  config := h'.config.trans h.config
  markers := h'.markers.trans h.markers
  policy := h'.policy.trans h.policy
  connectionId := h'.connectionId.trans h.connectionId
  state := h'.state.trans h.state
  phase := h'.phase.trans h.phase
  openedBefore := h'.openedBefore.trans h.openedBefore
  shutdown := h'.shutdown.trans h.shutdown
  now := h'.now.trans h.now
  outbound := h'.outbound.trans h.outbound

/-- Listeners, sessions and the like are of no concern. -/
theorem aside {c c' : Client σ} (router : Router Listener) (sessions : List Session)
    (palette : Palette) (hooks : Table Subscription) (called : List (String × Message))
    (heartbeat : Option Stamp) (h : Undisturbed c c') :
    Undisturbed c { c' with router, sessions, palette, hooks, called, heartbeat } :=
  ⟨h.config, h.markers, h.policy, h.connectionId, h.state, h.phase, h.openedBefore, h.shutdown,
    h.now, h.outbound⟩

theorem foldl {α : Type} {f : Client σ → α → Client σ} (h : ∀ c a, Undisturbed c (f c a))
    (l : List α) (c : Client σ) : Undisturbed c (l.foldl f c) := by
  induction l generalizing c with
  | nil => exact .refl c
  | cons a rest ih => exact (h c a).trans (ih _)

end Undisturbed

theorem undisturbed_transmit (c : Client σ) (store : Bool) (topic : String) (e : Event) :
    Undisturbed c (c.transmit store topic e).2 := by
  unfold transmit
  split
  · rename_i houtbound _
    exact ⟨rfl, rfl, rfl, rfl, rfl, rfl, rfl, rfl, rfl, by simp [houtbound]⟩
  · exact .refl c

theorem undisturbed_transmitAll (c : Client σ) (topic : String) (es : List Event) :
    Undisturbed c (c.transmitAll topic es) :=
  .foldl (fun c e => c.undisturbed_transmit false topic e) es c

theorem undisturbed_resubscribe (c : Client σ) : Undisturbed c c.resubscribe :=
  .foldl (fun c topic => c.undisturbed_transmit false topic .subscribe) _ c

theorem undisturbed_addHook (c : Client σ) (name topic : String) (outcome : Outcome) :
    Undisturbed c (c.addHook name topic outcome).2 := (Undisturbed.refl c).aside ..

theorem undisturbed_removeHook (c : Client σ) (name : String) :
    Undisturbed c (c.removeHook name).2 := by
  unfold removeHook
  split
  · exact .refl c
  · exact (Undisturbed.refl c).aside ..

theorem undisturbed_openSession (c : Client σ) (topic : String) (pageSize : UInt32) :
    Undisturbed c (c.openSession topic pageSize).2 :=
  ((Undisturbed.refl c).aside ..).trans (undisturbed_transmitAll _ _ _)

theorem undisturbed_closeSession (c : Client σ) (index : Nat) :
    Undisturbed c (c.closeSession index) := by
  unfold closeSession
  split
  · exact .refl c
  · split
    · exact .refl c
    · exact ((Undisturbed.refl c).aside ..).trans (undisturbed_transmitAll _ _ _)

theorem undisturbed_loadMore (c : Client σ) (index : Nat) :
    Undisturbed c (c.loadMore index).2 := by
  unfold loadMore
  split
  · exact .refl c
  · exact ((Undisturbed.refl c).aside ..).trans (undisturbed_transmitAll _ _ _)

theorem undisturbed_hear (l : Listener) (m : Message) (c : Client σ) :
    Undisturbed c (hear l m c).2 := by
  unfold hear
  split
  · exact (Undisturbed.refl c).aside ..
  · split
    · exact .refl c
    · exact ((Undisturbed.refl c).aside ..).trans (undisturbed_transmitAll _ _ _)

theorem undisturbed_callAll (m : Message) (ls : List Listener) (c : Client σ) :
    Undisturbed c (Router.callAll hear m ls c).2 := by
  induction ls generalizing c with
  | nil => exact .refl c
  | cons l rest ih => exact (undisturbed_hear l m c).trans (ih _)

theorem undisturbed_dispatch (m : Message) (c : Client σ) : Undisturbed c (dispatch m c).2 :=
  undisturbed_callAll m _ c

theorem quiet_pongEffects (c : Client σ) : Quiet c pongEffects := by
  unfold pongEffects
  split
  · exact .write c _
  · exact .nil c

theorem undisturbed_receive (bytes : List UInt8) (c : Client σ) :
    Undisturbed c (receive bytes c).1 := by
  unfold receive
  split
  · exact .refl c
  · split
    · exact (Undisturbed.refl c).aside ..
    · split
      · exact .refl c
      · split
        · exact .refl c
        · exact undisturbed_dispatch _ c

theorem quiet_receive (bytes : List UInt8) {c : Client σ} (h : c.phase.isRunning = true) :
    Quiet c (receive bytes c).2 := by
  unfold receive
  split
  · exact .nil c
  · split
    · exact quiet_pongEffects c
    · split
      · exact ⟨.inr ⟨h, rfl⟩, by simp [ClientEffect.isAttempt]⟩
      · split <;> exact .nil c

theorem undisturbed_onFlush (c : Client σ) : Undisturbed c c.onFlush.1 := by
  unfold onFlush
  split
  · rename_i houtbound
    refine ⟨rfl, rfl, rfl, rfl, rfl, rfl, rfl, rfl, rfl, ?_⟩
    rw [houtbound]
    rfl
  · exact .refl c

theorem quiet_onFlush (c : Client σ) : Quiet c c.onFlush.2 := by
  unfold onFlush
  split
  · exact .write c _
  · exact .nil c

/-! ## Asking for a supervisor -/

theorem connect_of_idle {c : Client σ} (h : c.phase = .idle) :
    c.connect =
      ({ c with shutdown := false, openedBefore := false, state := .connecting, phase := .asking },
        [.askTicket]) := by
  unfold connect
  split
  · rfl
  · rename_i hne
    exact absurd h hne

theorem connect_of_ne_idle {c : Client σ} (h : c.phase ≠ .idle) : c.connect = (c, []) := by
  unfold connect
  split
  · rename_i hidle
    exact absurd hidle h
  · rfl

variable [MarkerStore σ]

/-! ## Asking the supervisor to end -/

theorem logout_eq_of_idle {c : Client σ} (h : c.phase = .idle) :
    c.logout = ({ c with
      markers := MarkerStore.store .absent c.markers, shutdown := true } : Client σ).finish := by
  unfold logout
  dsimp only
  split
  · rfl
  · rename_i hne
    exact absurd h hne

/-- The supervisor is left to see the request; what it looks at stays as it is. -/
theorem logout_of_ne_idle {c : Client σ} (h : c.phase ≠ .idle) :
    c.logout =
      { c with markers := MarkerStore.store .absent c.markers, shutdown := true } := by
  unfold logout
  dsimp only
  split
  · rename_i hidle
    exact absurd hidle h
  · rfl

@[simp] theorem logout_phase (c : Client σ) : c.logout.phase = c.phase := by
  unfold logout
  dsimp only
  split
  · rename_i hphase
    exact hphase.symm
  · rfl

@[simp] theorem logout_shutdown (c : Client σ) : c.logout.shutdown = true := by
  unfold logout
  dsimp only
  split <;> rfl

@[simp] theorem logout_policy (c : Client σ) : c.logout.policy = c.policy := by
  unfold logout
  dsimp only
  split <;> rfl

@[simp] theorem logout_markers (c : Client σ) :
    c.logout.markers = MarkerStore.store .absent c.markers := by
  unfold logout
  dsimp only
  split <;> rfl

/-- Without a supervisor, the client is closed at once. -/
theorem logout_of_idle {c : Client σ} (h : c.phase = .idle) :
    c.logout.state = .closed ∧ c.logout.outbound = none := by
  rw [logout_eq_of_idle h]
  exact ⟨rfl, rfl⟩

/-! ## Moves -/

/-- A socket ends, or it could not be opened in the first place: the input that reports it, the
client that asks the policy what to do then, and what is told before. -/
inductive Ends (c : Client σ) : (failed : Bool) → Input → Client σ → List ClientEffect → Prop
  | refused {t : Ticket} : c.phase = .opening t → Ends c true .refused c []
  | lost {t : Ticket} : c.phase = .running t →
      Ends c false .lost { c with outbound := none } [.tell .disconnected]

/-- What a turn does to the supervisor: a client, a turn, the client after it and its effects. -/
inductive Move (c : Client σ) : Turn σ → Step σ → Prop
  | rest {t : Turn σ} {s : Step σ} : Undisturbed c s.1 → Quiet c s.2 → Move c t s
  | ticked (now : Stamp) : Move c (.clock now) ({ c with now }, [])
  | written (m : σ) : Move c (.markers m) ({ c with markers := m }, [])
  | focused (b : Bool) : Move c (.input (.focus b)) (c.focus b, [])
  | leave : Move c (.input .logout) (c.logout, [])
  | begin : c.phase = .idle →
      Move c (.input .connect)
        ({ c with
            shutdown := false, openedBefore := false, state := .connecting, phase := .asking },
          [.askTicket])
  | noTicket (e : TicketError) : c.phase = .asking →
      Move c (.input (.ticket (.error e))) c.giveUp
  | ticket (t : Ticket) : c.phase = .asking →
      Move c (.input (.ticket (.ok t)))
        ({ c with phase := .opening t }, [.openSocket (c.config.socketTarget? t)])
  | opened {t : Ticket} {c' : Client σ} : c.phase = .opening t →
      (c.config.socketTarget? t).isSome →
      Undisturbed { c with
        connectionId := some t.connectionId, outbound := some [], state := .isOpen,
        policy := { c.policy with noticeShown := false },
        markers := MarkerStore.store .active c.markers, openedBefore := true,
        phase := .running t } c' →
      Move c (.input .opened)
        (c', (if c.policy.noticeShown then [.tell (.notice .reconnected)] else []) ++
          [.tell (.connected t.connectionId)])
  | endOnRequest {failed : Bool} {i : Input} {d : Client σ} {es : List ClientEffect} :
      Ends c failed i d es → d.shutdown = true → Move c (.input i) (d.finish, es)
  | endForGood {failed : Bool} {i : Input} {d : Client σ} {es : List ClientEffect} :
      Ends c failed i d es → d.shutdown = false → MarkerStore.load d.markers = .absent →
      Move c (.input i)
        (d.finish, es ++ if failed then [.tell (.notice .connectionLost)] else [])
  | endAtOnce {failed : Bool} {i : Input} {d : Client σ} {es : List ClientEffect} :
      Ends c failed i d es → d.shutdown = false → MarkerStore.load d.markers = .blurred →
      Move c (.input i)
        (({ d with markers := MarkerStore.store .absent d.markers } : Client σ).beginRound.1,
          es ++ [.askTicket])
  | endForNow {failed : Bool} {i : Input} {d : Client σ} {es : List ClientEffect} :
      Ends c failed i d es → d.shutdown = false → MarkerStore.load d.markers = .active →
      Move c (.input i)
        ({ d with
          policy := { d.policy with noticeShown := true }, state := .reconnecting,
          phase := .waiting },
          es ++ (if d.policy.noticeShown then [] else [.tell (.notice .reconnecting)]) ++
            [.wait d.policy.delay])
  | elapsed : c.phase = .waiting → Move c (.input .elapsed) c.beginRound
  | stop : c.shutdown = true → c.phase = .waiting ∨ (∃ t, c.phase = .opening t) →
      Move c (.input .noticed) (c.finish, [])
  | stopOpen {t : Ticket} : c.shutdown = true → c.phase = .running t →
      Move c (.input .noticed) (c.finish, [.closeSocket, .tell .disconnected])

theorem Move.nothing (c : Client σ) (t : Turn σ) : Move c t (c, []) :=
  .rest (.refl c) (.nil c)

theorem Move.past {c c' : Client σ} {t : Turn σ} (h : Undisturbed c c') : Move c t (c', []) :=
  .rest h (.nil c)

/-! ### The end of a socket -/

theorem afterClose_of_shutdown {c : Client σ} (failed : Bool) (hs : c.shutdown = true) :
    c.afterClose failed = (c.finish, []) := if_pos hs

theorem afterClose_of_absent {c : Client σ} (failed : Bool) (hs : c.shutdown = false)
    (hm : MarkerStore.load c.markers = .absent) :
    c.afterClose failed =
      (c.finish, if failed then [.tell (.notice .connectionLost)] else []) := by
  rw [afterClose, if_neg (by simp [hs])]
  simp only [ReconnectPolicy.onClose, hm]
  cases failed <;> rfl

theorem afterClose_of_blurred {c : Client σ} (failed : Bool) (hs : c.shutdown = false)
    (hm : MarkerStore.load c.markers = .blurred) :
    c.afterClose failed =
      ({ c with markers := MarkerStore.store .absent c.markers } : Client σ).beginRound := by
  rw [afterClose, if_neg (by simp [hs])]
  simp only [ReconnectPolicy.onClose, hm]
  rfl

theorem afterClose_of_active {c : Client σ} (failed : Bool) (hs : c.shutdown = false)
    (hm : MarkerStore.load c.markers = .active) :
    c.afterClose failed =
      ({ c with
        policy := { c.policy with noticeShown := true }, state := .reconnecting,
        phase := .waiting },
        (if c.policy.noticeShown then [] else [.tell (.notice .reconnecting)]) ++
          [.wait c.policy.delay]) := by
  rw [afterClose, if_neg (by simp [hs])]
  simp only [ReconnectPolicy.onClose, hm]
  cases c.policy.noticeShown <;> rfl

/-- What follows the end of a socket is up to the request to end and the marker. -/
theorem move_afterClose {c d : Client σ} {failed : Bool} {i : Input} {es : List ClientEffect}
    (h : Ends c failed i d es) :
    Move c (.input i) (Step.andThen (d, es) (afterClose failed)) := by
  unfold Step.andThen
  dsimp only
  by_cases hs : d.shutdown = true
  · rw [afterClose_of_shutdown failed hs]
    simpa using Move.endOnRequest h hs
  have hs : d.shutdown = false := by simpa using hs
  cases hm : MarkerStore.load d.markers with
  | absent =>
      rw [afterClose_of_absent failed hs hm]
      exact .endForGood h hs hm
  | blurred =>
      rw [afterClose_of_blurred failed hs hm]
      exact .endAtOnce h hs hm
  | active =>
      rw [afterClose_of_active failed hs hm]
      simpa using Move.endForNow h hs hm

theorem move_onTicket (r : Except TicketError Ticket) (c : Client σ) :
    Move c (.input (.ticket r)) (c.onTicket r) := by
  unfold onTicket
  split
  · rename_i e hphase
    exact .noTicket e hphase
  · rename_i t hphase
    exact .ticket t hphase
  · exact .nothing c _

theorem move_onOpened (c : Client σ) : Move c (.input .opened) c.onOpened := by
  unfold onOpened
  split
  · rename_i t hphase
    split
    · exact .nothing c _
    · rename_i husable
      have husable : (c.config.socketTarget? t).isSome := by
        rwa [Option.isSome_iff_ne_none, ne_eq, ← Option.isNone_iff_eq_none]
      have h := undisturbed_resubscribe
        { c with connectionId := some t.connectionId, outbound := some [] }
      have hpolicy := h.policy
      have hmarkers := h.markers
      dsimp only at hpolicy hmarkers ⊢
      rw [ReconnectPolicy.onOpen, hpolicy, hmarkers]
      have hopened : Undisturbed
          { c with
            connectionId := some t.connectionId, outbound := some [], state := .isOpen,
            policy := { c.policy with noticeShown := false },
            markers := MarkerStore.store .active c.markers, openedBefore := true,
            phase := .running t }
          { resubscribe { c with connectionId := some t.connectionId, outbound := some [] } with
            state := .isOpen, policy := { c.policy with noticeShown := false },
            markers := MarkerStore.store .active c.markers, openedBefore := true,
            phase := .running t } :=
        ⟨h.config, rfl, rfl, h.connectionId, rfl, rfl, rfl, h.shutdown, h.now, h.outbound⟩
      have hmove := Move.opened hphase husable hopened
      cases hn : c.policy.noticeShown <;> simpa [hn] using hmove
  · exact .nothing c _

theorem move_onNoticed (c : Client σ) : Move c (.input .noticed) c.onNoticed := by
  unfold onNoticed
  split
  · exact .nothing c _
  · rename_i hs
    have hs : c.shutdown = true := by simpa using hs
    split
    · rename_i t hphase
      exact .stop hs (.inr ⟨t, hphase⟩)
    · rename_i hphase
      exact .stop hs (.inl hphase)
    · rename_i t hphase
      exact .stopOpen hs hphase
    · exact .nothing c _

/-- Every turn is a move of the supervisor. -/
theorem move_turn (c : Client σ) (t : Turn σ) : Move c t (c.turn t) := by
  cases t with
  | clock now => exact .ticked now
  | markers m => exact .written m
  | input i =>
    cases i with
    | connect =>
        change Move c _ c.connect
        by_cases hphase : c.phase = .idle
        · rw [connect_of_idle hphase]
          exact .begin hphase
        · rw [connect_of_ne_idle hphase]
          exact .nothing c _
    | logout => exact .leave
    | focus b => exact .focused b
    | ticket r => exact move_onTicket r c
    | opened => exact move_onOpened c
    | refused =>
        change Move c _ c.onRefused
        unfold onRefused
        split
        · rename_i t hphase
          exact move_afterClose (.refused hphase)
        · exact .nothing c _
    | received bytes =>
        change Move c _ (c.onReceived bytes)
        unfold onReceived
        split
        · rename_i t hphase
          exact .rest (undisturbed_receive bytes c) (quiet_receive bytes (by rw [hphase]; rfl))
        · exact .nothing c _
    | flush => exact .rest c.undisturbed_onFlush c.quiet_onFlush
    | lost =>
        change Move c _ c.onLost
        unfold onLost
        split
        · rename_i t hphase
          exact move_afterClose (.lost hphase)
        · exact .nothing c _
    | elapsed =>
        change Move c _ c.onElapsed
        unfold onElapsed
        split
        · rename_i hphase
          exact .elapsed hphase
        · exact .nothing c _
    | noticed => exact move_onNoticed c
    | transmit store topic e => exact .past (c.undisturbed_transmit store topic e)
    | addHook name topic outcome => exact .past (c.undisturbed_addHook name topic outcome)
    | removeHook name => exact .past (c.undisturbed_removeHook name)
    | dispatch m => exact .past (undisturbed_dispatch m c)
    | openSession topic pageSize => exact .past (c.undisturbed_openSession topic pageSize)
    | closeSession index => exact .past (c.undisturbed_closeSession index)
    | loadMore index => exact .past (c.undisturbed_loadMore index)

/-! ## Runs -/

@[simp] theorem run_nil (c : Client σ) : c.run [] = (c, []) := rfl

theorem run_cons (c : Client σ) (t : Turn σ) (ts : List (Turn σ)) :
    c.run (t :: ts) =
      (((c.turn t).1.run ts).1, (c.turn t).2 ++ ((c.turn t).1.run ts).2) := rfl

theorem run_append (c : Client σ) (ts us : List (Turn σ)) :
    c.run (ts ++ us) = (((c.run ts).1.run us).1, (c.run ts).2 ++ ((c.run ts).1.run us).2) := by
  induction ts generalizing c with
  | nil => rfl
  | cons t rest ih => simp [run_cons, ih]

/-- What every move keeps, a run keeps. -/
theorem run_induction {motive : Client σ → Prop} {c : Client σ} (ts : List (Turn σ))
    (base : motive c)
    (step : ∀ c t s, t ∈ ts → Move c t s → motive c → motive s.1) : motive (c.run ts).1 := by
  induction ts generalizing c with
  | nil => exact base
  | cons t rest ih =>
      refine ih (step c t _ List.mem_cons_self (move_turn c t) base) fun c t s ht => ?_
      exact step c t s (List.mem_cons_of_mem _ ht)

end Client

end Parley
