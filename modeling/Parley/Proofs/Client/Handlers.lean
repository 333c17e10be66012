import Parley.Proofs.Client.Moves

/-!
# What handlers touch

A move of the supervisor passes over whatever the supervisor does not look at. What a turn does to
listeners, sessions and texts that wait is said here, once for each handler: either it is up to the
supervisor alone, and leaves all that as it is (`Client.Supervised`), or it is one of a few
operations, each given in full (`Client.Handling`). Whatever is said about sessions and frames in a
turn is read off that (`Client.handling_turn`), not off the handlers.
-/

namespace Parley

/-- The text that an effect writes, if it writes one. -/
def ClientEffect.text? : ClientEffect → Option String
  | .write text => some text
  | _ => none

namespace Client

variable {σ : Type}

/-- Listeners and sessions stay as they are, nothing is written, and the texts that wait are kept
unless there is no socket any more. -/
structure Supervised (c : Client σ) (s : Step σ) : Prop where
  router : s.1.router = c.router
  hooks : s.1.hooks = c.hooks
  sessions : s.1.sessions = c.sessions
  silent : ∀ e ∈ s.2, e.text? = none
  outbound : s.1.outbound = c.outbound ∨ s.1.phase.isRunning = false

theorem Supervised.nothing (c : Client σ) : Supervised c (c, []) := ⟨rfl, rfl, rfl, nofun, .inl rfl⟩

/-- A client, a turn, the client after it and its effects. -/
inductive Handling (c : Client σ) : Turn σ → Step σ → Prop
  | supervised {t : Turn σ} {s : Step σ} : Supervised c s → Handling c t s
  | opened {k : Ticket} {policy : ReconnectPolicy} {markers : σ} {es : List ClientEffect} :
      c.phase = .opening k → (∀ e ∈ es, e.text? = none) →
      Handling c (.input .opened)
        ({ resubscribe { c with connectionId := some k.connectionId, outbound := some [] } with
          state := .isOpen, policy, markers, openedBefore := true, phase := .running k }, es)
  | received {bytes : List UInt8} {k : Ticket} : c.phase = .running k →
      Handling c (.input (.received bytes)) (receive bytes c)
  | flushed {text : String} {rest : List String} : c.outbound = some (text :: rest) →
      Handling c (.input .flush) ({ c with outbound := some rest }, [.write text])
  | transmitted (store : Bool) (topic : String) (e : Event) :
      Handling c (.input (.transmit store topic e)) ((c.transmit store topic e).2, [])
  | hooked (name topic : String) (outcome : Outcome) :
      Handling c (.input (.addHook name topic outcome)) ((c.addHook name topic outcome).2, [])
  | unhooked (name : String) :
      Handling c (.input (.removeHook name)) ((c.removeHook name).2, [])
  | dispatched (m : Message) : Handling c (.input (.dispatch m)) ((dispatch m c).2, [])
  | joined (topic : String) (pageSize : UInt32) :
      Handling c (.input (.openSession topic pageSize)) ((c.openSession topic pageSize).2, [])
  | left (index : Nat) : Handling c (.input (.closeSession index)) (c.closeSession index, [])
  | asked (index : Nat) : Handling c (.input (.loadMore index)) ((c.loadMore index).2, [])

/-! ## Handlers of the supervisor -/

theorem supervised_connect (c : Client σ) : Supervised c c.connect := by
  unfold connect
  split
  · exact ⟨rfl, rfl, rfl, by simp [beginRound, ClientEffect.text?], .inr rfl⟩
  · exact .nothing c

theorem supervised_onTicket (r : Except TicketError Ticket) (c : Client σ) :
    Supervised c (c.onTicket r) := by
  unfold onTicket
  split
  · exact ⟨rfl, rfl, rfl, by simp [giveUp, ClientEffect.text?], .inr rfl⟩
  · exact ⟨rfl, rfl, rfl, by simp [ClientEffect.text?], .inr rfl⟩
  · exact .nothing c

theorem supervised_onElapsed (c : Client σ) : Supervised c c.onElapsed := by
  unfold onElapsed
  split
  · exact ⟨rfl, rfl, rfl, by simp [beginRound, ClientEffect.text?], .inr rfl⟩
  · exact .nothing c

theorem supervised_onNoticed (c : Client σ) : Supervised c c.onNoticed := by
  unfold onNoticed
  split
  · exact .nothing c
  · split
    · exact ⟨rfl, rfl, rfl, nofun, .inr rfl⟩
    · exact ⟨rfl, rfl, rfl, nofun, .inr rfl⟩
    · exact ⟨rfl, rfl, rfl, by simp [ClientEffect.text?], .inr rfl⟩
    · exact .nothing c

variable [MarkerStore σ]

/-- What follows the end of a socket is up to the supervisor. -/
theorem supervised_afterClose (failed : Bool) (c : Client σ) :
    Supervised c (c.afterClose failed) := by
  by_cases hshutdown : c.shutdown = true
  · rw [afterClose_of_shutdown failed hshutdown]
    exact ⟨rfl, rfl, rfl, nofun, .inr rfl⟩
  have hshutdown : c.shutdown = false := by simpa using hshutdown
  cases hmarker : MarkerStore.load c.markers with
  | absent =>
      rw [afterClose_of_absent failed hshutdown hmarker]
      exact ⟨rfl, rfl, rfl, by cases failed <;> simp [ClientEffect.text?], .inr rfl⟩
  | blurred =>
      rw [afterClose_of_blurred failed hshutdown hmarker]
      exact ⟨rfl, rfl, rfl, by simp [beginRound, ClientEffect.text?], .inr rfl⟩
  | active =>
      rw [afterClose_of_active failed hshutdown hmarker]
      refine ⟨rfl, rfl, rfl, ?_, .inr rfl⟩
      cases c.policy.noticeShown <;> simp [ClientEffect.text?]

theorem supervised_logout (c : Client σ) : Supervised c (c.logout, []) := by
  unfold logout
  dsimp only
  split
  · exact ⟨rfl, rfl, rfl, nofun, .inr rfl⟩
  · exact ⟨rfl, rfl, rfl, nofun, .inl rfl⟩

theorem isRunning_afterClose (failed : Bool) (c : Client σ) :
    (c.afterClose failed).1.phase.isRunning = false := by
  unfold afterClose
  split
  · rfl
  · unfold ReconnectPolicy.onClose
    cases MarkerStore.load c.markers <;> cases failed <;> rfl

theorem supervised_onRefused (c : Client σ) : Supervised c c.onRefused := by
  unfold onRefused
  split
  · exact supervised_afterClose true c
  · exact .nothing c

theorem supervised_onLost (c : Client σ) : Supervised c c.onLost := by
  unfold onLost
  split
  · have h := supervised_afterClose false { c with outbound := none }
    exact ⟨h.router, h.hooks, h.sessions, List.forall_mem_cons.mpr ⟨rfl, h.silent⟩,
      .inr (isRunning_afterClose false _)⟩
  · exact .nothing c

theorem handling_onOpened (c : Client σ) : Handling c (.input .opened) c.onOpened := by
  unfold onOpened
  split
  · split
    · exact .supervised (.nothing c)
    · rename_i hphase _
      refine .opened hphase fun e he => ?_
      rcases List.mem_append.mp he with hnotice | hconnected
      · obtain ⟨n, -, rfl⟩ := List.mem_map.mp hnotice
        rfl
      · rw [List.mem_singleton.mp hconnected]
        rfl
  · exact .supervised (.nothing c)

/-- Every turn is handled in one of these ways. -/
theorem handling_turn (c : Client σ) (t : Turn σ) : Handling c t (c.turn t) := by
  cases t with
  | clock | markers => exact .supervised ⟨rfl, rfl, rfl, nofun, .inl rfl⟩
  | input i =>
    cases i with
    | connect => exact .supervised c.supervised_connect
    | logout => exact .supervised c.supervised_logout
    | focus => exact .supervised ⟨rfl, rfl, rfl, nofun, .inl rfl⟩
    | ticket r => exact .supervised (supervised_onTicket r c)
    | opened => exact c.handling_onOpened
    | refused => exact .supervised c.supervised_onRefused
    | received bytes =>
        change Handling c _ (c.onReceived bytes)
        unfold onReceived
        split
        · rename_i hphase
          exact .received hphase
        · exact .supervised (.nothing c)
    | flush =>
        change Handling c _ c.onFlush
        unfold onFlush
        split
        · rename_i houtbound
          exact .flushed houtbound
        · exact .supervised (.nothing c)
    | lost => exact .supervised c.supervised_onLost
    | elapsed => exact .supervised c.supervised_onElapsed
    | noticed => exact .supervised c.supervised_onNoticed
    | transmit store topic e => exact .transmitted store topic e
    | addHook name topic outcome => exact .hooked name topic outcome
    | removeHook name => exact .unhooked name
    | dispatch m => exact .dispatched m
    | openSession topic pageSize => exact .joined topic pageSize
    | closeSession index => exact .left index
    | loadMore index => exact .asked index

end Client

end Parley
