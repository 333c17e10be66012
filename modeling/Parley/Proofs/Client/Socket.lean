import Parley.Proofs.Client.Moves
import Parley.Proofs.Frame.RoundTrip

/-!
# What a client knows about its socket

The connection state, the texts that wait and the connection id are changed at different places, on
every way into a socket and out of it. As long as a client has one supervisor at a time they agree
all the same between two turns, because each of them is what the phase of that supervisor says
(`Client.Agrees`): a socket is open exactly while the supervisor stays with it, and then under the
ticket that the phase holds. What becomes of them when supervisors overlap is told by the channel of
the manager (`Parley.Proofs.Client.Channel`).
-/

namespace Parley.Client

variable {σ : Type}

/-! ## Sending a frame -/

/-- A frame is sent if there is a socket and none of its texts is too long. -/
theorem transmit_eq_true_iff (c : Client σ) (store : Bool) (topic : String) (e : Event) :
    (c.transmit store topic e).1 = true ↔ c.outbound.isSome ∧
      ∀ p ∈ (c.frame store topic e).openTexts, p.2.utf8ByteSize ≤ Frame.maxFieldLength := by
  rw [← Frame.exists_encode_iff]
  unfold transmit
  split
  · rename_i texts text houtbound htext
    simp [houtbound, htext]
  · rename_i hnone
    refine ⟨nofun, fun ⟨houtbound, text, htext⟩ => ?_⟩
    obtain ⟨texts, htexts⟩ := Option.isSome_iff_exists.mp houtbound
    exact absurd htext (hnone texts text htexts)

/-- A frame that is sent waits behind the others; nothing else changes. -/
theorem transmit_of_eq_true {c : Client σ} {store : Bool} {topic : String} {e : Event}
    (h : (c.transmit store topic e).1 = true) :
    ∃ texts text, c.outbound = some texts ∧ (c.frame store topic e).encode = .ok text ∧
      (c.transmit store topic e).2 = { c with outbound := some (texts ++ [text]) } := by
  unfold transmit at h ⊢
  split at h
  · rename_i texts text houtbound htext
    exact ⟨texts, text, houtbound, htext, rfl⟩
  · cases h

theorem transmit_of_eq_false {c : Client σ} {store : Bool} {topic : String} {e : Event}
    (h : (c.transmit store topic e).1 = false) : (c.transmit store topic e).2 = c := by
  unfold transmit at h ⊢
  split at h
  · cases h
  · rfl

/-! ## The phase tells it all -/

/-- What the client knows about its socket is what the phase of its supervisor says. -/
structure Agrees (c : Client σ) : Prop where
  outbound : c.outbound.isSome = c.phase.isRunning
  state : c.state = .isOpen ↔ c.phase.isRunning = true
  connectionId : ∀ k, c.phase = .running k → c.connectionId = some k.connectionId

namespace Agrees

/-- There is no socket, and nothing says that there is one. -/
theorem of_none {c : Client σ} (houtbound : c.outbound = none) (hstate : c.state ≠ .isOpen)
    (hphase : c.phase.isRunning = false) : c.Agrees where
  outbound := by
    rw [houtbound, hphase]
    rfl
  state := iff_of_false hstate (by simp [hphase])
  connectionId := by
    intro k hk
    rw [hk] at hphase
    cases hphase

theorem outbound_eq_none {c : Client σ} (hc : c.Agrees) (hphase : c.phase.isRunning = false) :
    c.outbound = none := by
  rw [← Option.not_isSome_iff_eq_none, hc.outbound, hphase]
  exact Bool.false_ne_true

theorem state_ne_isOpen {c : Client σ} (hc : c.Agrees) (hphase : c.phase.isRunning = false) :
    c.state ≠ .isOpen := by
  intro hopen
  rw [hc.state.mp hopen] at hphase
  cases hphase

theorem undisturbed {c c' : Client σ} (h : Undisturbed c c') (hc : c.Agrees) : c'.Agrees where
  outbound := by rw [h.outbound, h.phase, hc.outbound]
  state := by rw [h.state, h.phase, hc.state]
  connectionId := by
    rw [h.phase, h.connectionId]
    exact hc.connectionId

theorem create (config : ClientConfig) (markers : σ) : (Client.create config markers).Agrees :=
  .of_none rfl nofun rfl

theorem beginRound {c : Client σ} (h : c.outbound = none) : c.beginRound.1.Agrees := by
  refine .of_none h ?_ rfl
  unfold Client.beginRound
  dsimp only
  split <;> nofun

theorem finish (c : Client σ) : c.finish.Agrees := .of_none rfl nofun rfl

/-- No socket is left behind when one ends, and there was none if it could not be opened. -/
theorem outbound_of_ends {c d : Client σ} {failed : Bool} {i : Input} {es : List ClientEffect}
    (h : Ends c failed i d es) (hc : c.Agrees) : d.outbound = none := by
  cases h with
  | refused hphase => exact hc.outbound_eq_none (by rw [hphase]; rfl)
  | lost => rfl

variable [MarkerStore σ]

theorem logout {c : Client σ} (hc : c.Agrees) : c.logout.Agrees := by
  by_cases hidle : c.phase = .idle
  · obtain ⟨hclosed, hnone⟩ := logout_of_idle hidle
    refine .of_none hnone ?_ ?_
    · rw [hclosed]
      nofun
    · rw [logout_phase, hidle]
      rfl
  · rw [logout_of_ne_idle hidle]
    exact ⟨hc.outbound, hc.state, hc.connectionId⟩

theorem move {c : Client σ} {t : Turn σ} {s : Step σ} (h : Move c t s) (hc : c.Agrees) :
    s.1.Agrees := by
  cases h with
  | rest same => exact hc.undisturbed same
  | ticked | written | focused => exact ⟨hc.outbound, hc.state, hc.connectionId⟩
  | leave => exact hc.logout
  | «begin» hphase => exact .of_none (hc.outbound_eq_none (by rw [hphase]; rfl)) nofun rfl
  | ticket k hphase =>
      have hclosed : c.phase.isRunning = false := by rw [hphase]; rfl
      exact .of_none (hc.outbound_eq_none hclosed) (hc.state_ne_isOpen hclosed) rfl
  | opened _ _ same =>
      refine undisturbed same ⟨rfl, iff_of_true rfl rfl, fun k hk => ?_⟩
      cases hk
      rfl
  | endAtOnce hends =>
      have hnone := outbound_of_ends hends hc
      exact beginRound hnone
  | endForNow hends =>
      have hnone := outbound_of_ends hends hc
      exact .of_none hnone nofun rfl
  | elapsed hphase => exact beginRound (hc.outbound_eq_none (by rw [hphase]; rfl))
  | noTicket | endOnRequest | endForGood | stop | stopOpen => exact finish _

theorem run {c : Client σ} (ts : List (Turn σ)) (hc : c.Agrees) : (c.run ts).1.Agrees :=
  run_induction ts hc fun _ _ _ _ hmove hc => hc.move hmove

end Agrees

/-- Only the opening of a socket leads to one that is open. -/
theorem Move.entersRunning [MarkerStore σ] {c : Client σ} {t : Turn σ} {s : Step σ} {k : Ticket}
    (h : Move c t s) (hbefore : c.phase ≠ .running k) (hafter : s.1.phase = .running k) :
    t = .input .opened ∧ c.phase = .opening k := by
  cases h with
  | rest same => exact absurd (same.phase ▸ hafter) hbefore
  | ticked | written | focused => exact absurd hafter hbefore
  | leave => exact absurd (c.logout_phase ▸ hafter) hbefore
  | opened hphase _ same =>
      rw [same.phase] at hafter
      cases hafter
      exact ⟨rfl, hphase⟩
  | «begin» | noTicket | ticket | endOnRequest | endForGood | endAtOnce | endForNow | elapsed |
    stop | stopOpen => cases hafter

end Parley.Client
