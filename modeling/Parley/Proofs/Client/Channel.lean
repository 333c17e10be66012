import Mathlib.Data.List.Induction
import Mathlib.Logic.Function.Basic
import Parley.Client.Manager
import Parley.Proofs.Client.Socket

/-!
# The channel of a client

The connection state, the channel for texts that are sent and the connection id are set apart from
each other by every supervisor, on each way into a socket and out of it. What a supervisor does to
them is read off the moves of the client that it finds (`Client.Move`), and comes to five cases
(`Manager.Move`). The channel is always that of the supervisor which opened it last, whose socket is
open under the connection id (`Manager.Coherent`), and which ticket that is the run tells
(`Manager.exists_opened`). The state may say something else, but only while a second supervisor
lives: it has gone into a round of its own since.
-/

namespace Parley

namespace Client

variable {σ : Type}

/-- What a turn that is no report leaves alone, unless someone connects or logs out. -/
structure Aside (c c' : Client σ) : Prop where
  phase : c'.phase = c.phase
  openedBefore : c'.openedBefore = c.openedBefore
  shutdown : c'.shutdown = c.shutdown
  state : c'.state = c.state
  connectionId : c'.connectionId = c.connectionId
  outbound : c'.outbound.isSome = c.outbound.isSome

theorem Move.aside [MarkerStore σ] {c : Client σ} {t : Turn σ} {s : Step σ} (h : Move c t s)
    (hconnect : t ≠ .input .connect) (hlogout : t ≠ .input .logout) (ht : t.isReport = false) :
    Aside c s.1 := by
  cases h with
  | rest same =>
      exact ⟨same.phase, same.openedBefore, same.shutdown, same.state, same.connectionId,
        same.outbound⟩
  | ticked | written | focused => exact ⟨rfl, rfl, rfl, rfl, rfl, rfl⟩
  | leave => exact absurd rfl hlogout
  | «begin» => exact absurd rfl hconnect
  | noTicket | ticket | opened | elapsed | stop | stopOpen => cases ht
  | endOnRequest hends | endForGood hends | endAtOnce hends | endForNow hends =>
      cases hends <;> cases ht

end Client

namespace Manager

variable {σ : Type}

/-! ## Phases -/

theorem phase_congr {m m' : Manager σ}
    (h : m'.supervisors.map (·.phase) = m.supervisors.map (·.phase)) : m'.phase = m.phase := by
  funext n
  rw [phase, phase, ← List.getElem?_map, ← List.getElem?_map, h]

theorem phase_of_getElem? {m : Manager σ} {n : Nat} {s : Supervisor}
    (hs : m.supervisors[n]? = some s) : m.phase n = s.phase := by
  rw [phase, hs]
  rfl

@[simp] theorem phase_create (config : ClientConfig) (markers : σ) (n : Nat) :
    (create config markers).phase n = .idle := rfl

theorem isLive_eq_false_iff {m : Manager σ} {n : Nat} : m.isLive n = false ↔ m.phase n = .idle := by
  simp [isLive]

theorem isLive_of_running {m : Manager σ} {n : Nat} {k : Ticket} (h : m.phase n = .running k) :
    m.isLive n = true := by
  rw [isLive, h]
  rfl

theorem map_phase_modify (ss : List Supervisor) (n : Nat) {f : Supervisor → Supervisor}
    (hf : ∀ s, (f s).phase = s.phase) : (ss.modify n f).map (·.phase) = ss.map (·.phase) := by
  refine List.ext_getElem? fun i => ?_
  rw [List.getElem?_map, List.getElem?_modify, List.getElem?_map]
  cases ss[i]? with
  | none => rfl
  | some s =>
      dsimp only [Option.map_eq_map, Option.map_some]
      split
      · rw [hf]
      · rfl

theorem map_phase_setAside (m : Manager σ) :
    m.setAside.map (·.phase) = m.supervisors.map (·.phase) := by
  unfold setAside
  split
  · rfl
  · exact map_phase_modify _ _ fun _ => rfl

theorem map_phase_alertAll (m : Manager σ) :
    m.alertAll.map (·.phase) = m.supervisors.map (·.phase) := by
  rw [alertAll, List.map_map]
  rfl

@[simp] theorem phase_close (m : Manager σ) : m.close.phase = m.phase :=
  phase_congr m.map_phase_setAside

/-- One supervisor goes into another phase. -/
theorem phase_of_modify {m m' : Manager σ} {ss : List Supervisor} {n : Nat} {s : Supervisor}
    {p : Phase} {f : Supervisor → Supervisor} (hs : m.supervisors[n]? = some s)
    (hss : ss.map (·.phase) = m.supervisors.map (·.phase)) (hf : ∀ s, (f s).phase = p)
    (hm' : m'.supervisors = ss.modify n f) : m'.phase = Function.update m.phase n p := by
  funext i
  have hi : (ss[i]?).map (·.phase) = (m.supervisors[i]?).map (·.phase) := by
    rw [← List.getElem?_map, hss, List.getElem?_map]
  rw [phase, hm']
  by_cases hn : n = i
  · subst hn
    rw [hs, Option.map_some, Option.map_eq_some_iff] at hi
    obtain ⟨s', hs', -⟩ := hi
    rw [Function.update_self, List.getElem?_modify_eq, hs']
    exact hf s'
  · rw [Function.update_of_ne (Ne.symm hn), List.getElem?_modify_ne f ss hn, hi, phase]

theorem phase_putBack {m : Manager σ} {n : Nat} {s : Supervisor}
    (hs : m.supervisors[n]? = some s) (c : Client σ) :
    (m.putBack n s c).phase = Function.update m.phase n c.phase := by
  refine phase_of_modify hs ?_ (fun _ => rfl) rfl
  split
  · exact m.map_phase_setAside
  · rfl

/-! ## Connecting and logging out -/

theorem connect_of_isLive {m : Manager σ} {n : Nat} (hslot : m.slot = some n)
    (hn : m.isLive n = true) : m.connect = (m, []) := by
  rw [connect, hslot, if_pos (by simpa using hn)]

theorem connect_of_not_isLive {m : Manager σ} (h : ∀ n, m.slot = some n → m.isLive n = false) :
    m.connect =
      ({ m with
          shared := { m.shared with
            shutdown := false, openedBefore := false, state := .connecting, phase := .asking }
          supervisors := m.alertAll ++ [{}], slot := some m.supervisors.length },
        [.askTicket]) := by
  rw [connect, if_neg]
  · rfl
  · intro hany
    cases hslot : m.slot with
    | none =>
        rw [hslot] at hany
        cases hany
    | some n =>
        rw [hslot, Option.any_some, h n hslot] at hany
        cases hany

/-- A supervisor that was started asks for a ticket. -/
theorem phase_connect {m : Manager σ} (h : ∀ n, m.slot = some n → m.isLive n = false) :
    m.connect.1.phase = Function.update m.phase m.supervisors.length .asking := by
  funext i
  have hi : (m.alertAll[i]?).map (·.phase) = (m.supervisors[i]?).map (·.phase) := by
    rw [← List.getElem?_map, map_phase_alertAll, List.getElem?_map]
  have hlength : m.alertAll.length = m.supervisors.length := List.length_map _
  rw [connect_of_not_isLive h, phase]
  dsimp only
  by_cases hn : i = m.supervisors.length
  · rw [hn, Function.update_self, ← hlength, List.getElem?_concat_length]
    rfl
  · rw [Function.update_of_ne hn, phase, ← hi]
    by_cases hlt : i < m.alertAll.length
    · rw [List.getElem?_append_left hlt]
    · have hlong : (m.alertAll ++ [({} : Supervisor)]).length ≤ i := by
        rw [List.length_append, List.length_singleton]
        omega
      rw [List.getElem?_eq_none hlong, List.getElem?_eq_none (by omega)]

section Logout

variable [MarkerStore σ]

theorem logout_of_isLive {m : Manager σ} {n : Nat} (hslot : m.slot = some n)
    (hn : m.isLive n = true) :
    m.logout = { m with
      shared := { m.shared with
        markers := MarkerStore.store .absent m.shared.markers, shutdown := true }
      supervisors := m.alertAll, slot := none, awaited := n :: m.awaited } := by
  unfold logout
  dsimp only
  rw [hslot, Option.filter_some, if_pos hn]

theorem logout_of_not_isLive {m : Manager σ} (h : ∀ n, m.slot = some n → m.isLive n = false) :
    m.logout = ({ m with
      shared := { m.shared with
        markers := MarkerStore.store .absent m.shared.markers, shutdown := true }
      supervisors := m.alertAll, slot := none } : Manager σ).close := by
  unfold logout
  dsimp only
  cases hslot : m.slot with
  | none => rfl
  | some n => rw [Option.filter_some, if_neg (by simp [h n hslot])]

theorem phase_logout (m : Manager σ) : m.logout.phase = m.phase := by
  unfold logout
  dsimp only
  split
  · exact phase_congr m.map_phase_alertAll
  · exact (phase_close _).trans (phase_congr m.map_phase_alertAll)

end Logout

/-! ## Moves -/

/-- The client keeps its channel and its connection id. -/
structure Keeps (m m' : Manager σ) : Prop where
  writer : m'.writer = m.writer
  outbound : m'.shared.outbound.isSome = m.shared.outbound.isSome
  connectionId : m'.shared.connectionId = m.shared.connectionId

theorem Keeps.refl (m : Manager σ) : Keeps m m := ⟨rfl, rfl, rfl⟩

/-- What a step does to the channel of the client, to its state and to the phases. -/
inductive Move (m : Manager σ) : Happening σ → Step σ → Prop
  | rest {h : Happening σ} {s : Step σ} : Keeps m s.1 → s.1.phase = m.phase →
      s.1.shared.state = m.shared.state → Move m h s
  | ticket {n : Nat} {k : Ticket} {s : Step σ} : m.phase n = .asking → Keeps m s.1 →
      s.1.phase = Function.update m.phase n (.opening k) →
      s.1.shared.state = m.shared.state →
      s.2 = [.openSocket (m.shared.config.socketTarget? k)] →
      Move m (.turn n (.input (.ticket (.ok k)))) s
  | opened {n : Nat} {k : Ticket} {s : Step σ} : m.phase n = .opening k →
      s.1.shared.outbound.isSome → s.1.writer = n →
      s.1.shared.connectionId = some k.connectionId → s.1.shared.state = .isOpen →
      s.1.phase = Function.update m.phase n (.running k) →
      Move m (.turn n (.input .opened)) s
  /-- A supervisor that has no socket begins a round, or waits before it does. -/
  | round {h : Happening σ} {s : Step σ} {n : Nat} {p : Phase} : (m.phase n).isRunning = false →
      p = .asking ∨ p = .waiting → Keeps m s.1 → s.1.phase = Function.update m.phase n p →
      s.1.shared.state ≠ .isOpen → Move m h s
  | close {h : Happening σ} {s : Step σ} : s.1.shared.outbound = none →
      s.1.shared.state ≠ .isOpen →
      (∀ n, s.1.phase n = m.phase n ∨ s.1.phase n = .idle ∨ s.1.phase n = .asking ∨
        s.1.phase n = .waiting) →
      Move m h s

theorem Move.nothing (m : Manager σ) (h : Happening σ) : Move m h (m, []) :=
  .rest (.refl m) rfl rfl

/-- A client that a supervisor leaves with the channel that was there. -/
theorem keeps_putBack {m : Manager σ} {s : Supervisor} {c : Client σ} (n : Nat)
    (hopens : (c.phase.isRunning && !s.phase.isRunning) = false)
    (houtbound : c.outbound.isSome = m.shared.outbound.isSome)
    (hid : c.connectionId = m.shared.connectionId) : Keeps m (m.putBack n s c) where
  writer := by
    unfold putBack
    dsimp only
    rw [hopens, if_neg Bool.false_ne_true]
  outbound := houtbound
  connectionId := hid

/-- A supervisor leaves the client without a channel. -/
theorem Move.putBack_close {m : Manager σ} {n : Nat} {s : Supervisor} {c : Client σ}
    (hs : m.supervisors[n]? = some s) (h : Happening σ) (effects : List ClientEffect)
    (houtbound : c.outbound = none) (hstate : c.state ≠ .isOpen)
    (hphase : c.phase = .idle ∨ c.phase = .asking ∨ c.phase = .waiting) :
    Move m h (m.putBack n s c, effects) := by
  refine .close houtbound hstate fun i => ?_
  dsimp only
  rw [phase_putBack hs]
  by_cases hi : i = n
  · subst hi
    rw [Function.update_self]
    exact .inr hphase
  · rw [Function.update_of_ne hi]
    exact .inl rfl

/-- A supervisor leaves the client as it was, and goes on without a socket. -/
theorem Move.putBack_round {m : Manager σ} {n : Nat} {s : Supervisor} {c : Client σ}
    (hs : m.supervisors[n]? = some s) (h : Happening σ) (effects : List ClientEffect)
    (hbefore : s.phase.isRunning = false) (hphase : c.phase = .asking ∨ c.phase = .waiting)
    (houtbound : c.outbound = m.shared.outbound) (hid : c.connectionId = m.shared.connectionId)
    (hstate : c.state ≠ .isOpen) : Move m h (m.putBack n s c, effects) := by
  refine .round (by rwa [phase_of_getElem? hs]) hphase (keeps_putBack n ?_ ?_ hid)
    (phase_putBack hs c) hstate
  · rcases hphase with hphase | hphase <;> rw [hphase] <;> rfl
  · rw [houtbound]

theorem beginRound_state_ne (c : Client σ) : c.beginRound.1.state ≠ .isOpen := by
  unfold Client.beginRound
  dsimp only
  split <;> nofun

theorem move_connect (m : Manager σ) (h : Happening σ) : Move m h m.connect := by
  by_cases hslot : ∃ n, m.slot = some n ∧ m.isLive n = true
  · obtain ⟨n, hn, hlive⟩ := hslot
    rw [connect_of_isLive hn hlive]
    exact .nothing m h
  · have hslot : ∀ n, m.slot = some n → m.isLive n = false := by simpa using hslot
    have hlast : m.phase m.supervisors.length = .idle := by
      rw [phase, List.getElem?_eq_none (Nat.le_refl _)]
      rfl
    refine .round (by rw [hlast]; rfl) (.inl rfl) ?_ (phase_connect hslot) ?_
    all_goals rw [connect_of_not_isLive hslot]
    · exact ⟨rfl, rfl, rfl⟩
    · nofun

theorem move_flush (m : Manager σ) (n : Nat) (h : Happening σ) : Move m h (m.flush n) := by
  unfold flush
  split
  · have same := m.shared.undisturbed_onFlush
    exact .rest ⟨rfl, same.outbound, same.connectionId⟩ rfl same.state
  · split
    · exact .rest ⟨rfl, rfl, rfl⟩ (phase_congr (map_phase_modify _ _ fun _ => rfl)) rfl
    · exact .nothing m h

theorem move_returned (m : Manager σ) (n : Nat) : Move m (.returned n) (m.returned n, []) := by
  unfold returned
  split
  · exact .close rfl nofun fun i => .inl (congrFun m.phase_close i)
  · exact .nothing m _

section Moves

variable [MarkerStore σ]

/-- What is reported to a supervisor. -/
theorem move_report (m : Manager σ) (n : Nat) {t : Client.Turn σ} (ht : t.isReport = true) :
    Move m (.turn n t) (m.report n t) := by
  unfold report
  split
  · exact .nothing m _
  rename_i s hs
  dsimp only
  have hphase : m.phase n = s.phase := phase_of_getElem? hs
  have hmove := Client.move_turn (m.view s t) t
  generalize (m.view s t).turn t = r at hmove
  cases hmove with
  | ticked | written | focused | leave | «begin» => cases ht
  | rest same =>
      refine .rest (keeps_putBack n ?_ same.outbound same.connectionId) ?_ same.state
      · rw [same.phase]
        exact Bool.and_not_self _
      · rw [phase_putBack hs, same.phase]
        exact Function.update_eq_self_iff.mpr hphase.symm
  | noTicket => exact .putBack_close hs _ _ rfl nofun (.inl rfl)
  | ticket k hasking =>
      exact .ticket (hphase.trans hasking) (keeps_putBack n rfl rfl rfl) (phase_putBack hs _) rfl rfl
  | @opened k c hopening _ same =>
      have hopens : (c.phase.isRunning && !s.phase.isRunning) = true := by
        rw [same.phase, show s.phase = .opening k from hopening]
        rfl
      refine .opened (hphase.trans hopening) same.outbound ?_ same.connectionId same.state ?_
      · unfold putBack
        dsimp only
        rw [hopens, if_pos rfl]
      · rw [phase_putBack hs, same.phase]
  | endOnRequest | endForGood => exact .putBack_close hs _ _ rfl nofun (.inl rfl)
  | endAtOnce hends =>
      cases hends with
      | refused hopening =>
          exact .putBack_round hs _ _ (by rw [show s.phase = _ from hopening]; rfl) (.inl rfl) rfl rfl
            (beginRound_state_ne _)
      | lost => exact .putBack_close hs _ _ rfl (beginRound_state_ne _) (.inr (.inl rfl))
  | endForNow hends =>
      cases hends with
      | refused hopening =>
          exact .putBack_round hs _ _ (by rw [show s.phase = _ from hopening]; rfl) (.inr rfl) rfl rfl
            nofun
      | lost => exact .putBack_close hs _ _ rfl nofun (.inr (.inr rfl))
  | elapsed hwaiting =>
      exact .putBack_round hs _ _ (by rw [show s.phase = _ from hwaiting]; rfl) (.inl rfl) rfl rfl
        (beginRound_state_ne _)
  | stop | stopOpen => exact .putBack_close hs _ _ rfl nofun (.inl rfl)

theorem move_logout (m : Manager σ) (h : Happening σ) : Move m h (m.logout, []) := by
  have hphase := m.phase_logout
  unfold logout at hphase ⊢
  dsimp only at hphase ⊢
  split at hphase
  · exact .rest ⟨rfl, rfl, rfl⟩ hphase rfl
  · exact .close rfl nofun fun n => .inl (congrFun hphase n)

/-- Every step is a move. -/
theorem move_step (m : Manager σ) (h : Happening σ) : Move m h (m.step h) := by
  cases h with
  | turn n t =>
      change Move m _ (m.turn n t)
      unfold turn
      split
      · exact m.move_connect _
      · exact m.move_logout _
      · exact m.move_flush n _
      · rename_i hconnect hlogout _
        split
        · rename_i ht
          exact m.move_report n ht
        · rename_i ht
          have same := (Client.move_turn m.shared t).aside hconnect hlogout (by simpa using ht)
          exact .rest ⟨rfl, same.outbound, same.connectionId⟩ rfl same.state
  | returned n => exact m.move_returned n
  | abandoned n => exact .rest ⟨rfl, rfl, rfl⟩ rfl rfl

end Moves

/-! ## The channel and the state -/

/-- What holds of the channel between two steps. -/
structure Coherent (m : Manager σ) : Prop where
  outbound : m.shared.state = .isOpen → m.shared.outbound.isSome
  running : m.shared.outbound.isSome →
    ∃ k, m.phase m.writer = .running k ∧ m.shared.connectionId = some k.connectionId
  other : m.shared.outbound.isSome → m.shared.state ≠ .isOpen →
    ∃ n, n ≠ m.writer ∧ m.phase n ≠ .idle

namespace Coherent

theorem create (config : ClientConfig) (markers : σ) : (Manager.create config markers).Coherent :=
  ⟨nofun, nofun, nofun⟩

theorem of_none {m : Manager σ} (houtbound : m.shared.outbound = none)
    (hstate : m.shared.state ≠ .isOpen) : m.Coherent where
  outbound h := absurd h hstate
  running h := by simp [houtbound] at h
  other h := by simp [houtbound] at h

theorem move {m : Manager σ} {h : Happening σ} {s : Step σ} (hmove : Move m h s)
    (hm : m.Coherent) : s.1.Coherent := by
  cases hmove with
  | close houtbound hstate => exact .of_none houtbound hstate
  | rest keeps hphase hstate =>
      refine ⟨fun hopen => ?_, fun hsome => ?_, fun hsome hnot => ?_⟩
      · rw [keeps.outbound]
        exact hm.outbound (hstate ▸ hopen)
      · rw [keeps.writer, keeps.connectionId, hphase]
        exact hm.running (keeps.outbound ▸ hsome)
      · rw [keeps.writer, hphase]
        exact hm.other (keeps.outbound ▸ hsome) (hstate ▸ hnot)
  | @ticket n k s hasking keeps hphase hstate =>
      refine ⟨fun hopen => ?_, fun hsome => ?_, fun hsome hnot => ?_⟩
      · rw [keeps.outbound]
        exact hm.outbound (hstate ▸ hopen)
      · obtain ⟨k', hrunning, hid⟩ := hm.running (keeps.outbound ▸ hsome)
        have hne : m.writer ≠ n := fun heq => by simp [heq, hasking] at hrunning
        exact ⟨k', by rw [keeps.writer, hphase, Function.update_of_ne hne, hrunning],
          keeps.connectionId.trans hid⟩
      · obtain ⟨i, hi, hlive⟩ := hm.other (keeps.outbound ▸ hsome) (hstate ▸ hnot)
        refine ⟨i, keeps.writer ▸ hi, ?_⟩
        rw [hphase, Function.update_apply]
        split
        · nofun
        · exact hlive
  | @opened n k s _ houtbound hwriter hid hstate hphase =>
      refine ⟨fun _ => houtbound, fun _ => ⟨k, ?_, hid⟩, fun _ hnot => absurd hstate hnot⟩
      rw [hwriter, hphase, Function.update_self]
  | @round _ _ n p hbefore hp keeps hphase hstate =>
      have hne : m.shared.outbound.isSome → m.writer ≠ n := by
        intro hsome heq
        obtain ⟨k, hrunning, -⟩ := hm.running hsome
        rw [← heq, hrunning] at hbefore
        cases hbefore
      refine ⟨fun hopen => absurd hopen hstate, fun hsome => ?_, fun hsome _ => ⟨n, ?_, ?_⟩⟩
      · obtain ⟨k, hrunning, hid⟩ := hm.running (keeps.outbound ▸ hsome)
        exact ⟨k, by rw [keeps.writer, hphase, Function.update_of_ne (hne (keeps.outbound ▸ hsome)),
          hrunning], keeps.connectionId.trans hid⟩
      · rw [keeps.writer]
        exact (hne (keeps.outbound ▸ hsome)).symm
      · rw [hphase, Function.update_self]
        rcases hp with rfl | rfl <;> nofun

theorem run [MarkerStore σ] {m : Manager σ} (hs : List (Happening σ)) (hm : m.Coherent) :
    (m.run hs).1.Coherent := by
  induction hs generalizing m with
  | nil => exact hm
  | cons h rest ih => exact ih (hm.move (m.move_step h))

/-- While no two supervisors live, the state tells whether there is a channel. -/
theorem isOpen_iff {m : Manager σ} (hm : m.Coherent)
    (hsingle : ∀ n n', m.isLive n = true → m.isLive n' = true → n = n') :
    m.shared.state = .isOpen ↔ m.shared.outbound.isSome := by
  refine ⟨hm.outbound, fun hsome => by_contra fun hnot => ?_⟩
  obtain ⟨n, hn, hlive⟩ := hm.other hsome hnot
  obtain ⟨k, hrunning, -⟩ := hm.running hsome
  exact hn (hsingle n m.writer (by simp [isLive, hlive]) (isLive_of_running hrunning))

end Coherent

/-! ## How a channel came about -/

section Entries

variable [MarkerStore σ]

theorem run_append (m : Manager σ) (hs is : List (Happening σ)) :
    m.run (hs ++ is) = (((m.run hs).1.run is).1, (m.run hs).2 ++ ((m.run hs).1.run is).2) := by
  induction hs generalizing m with
  | nil => rfl
  | cons h rest ih => simp [run, ih]

/-- What holds after a run and did not hold before it began with one of its steps and holds from
then on. -/
theorem exists_entry {P : Manager σ → Prop} {m : Manager σ} (hbefore : ¬ P m)
    (hs : List (Happening σ)) (hafter : P (m.run hs).1) :
    ∃ before h after, hs = before ++ h :: after ∧ ¬ P (m.run before).1 ∧
      P ((m.run before).1.step h).1 ∧
      ∀ later, later <+: after → P (m.run (before ++ h :: later)).1 := by
  induction hs using List.reverseRecOn with
  | nil => exact absurd hafter hbefore
  | append_singleton hs i ih =>
      by_cases hthen : P (m.run hs).1
      · obtain ⟨before, h, after, rfl, hnot, hentered, hstays⟩ := ih hthen
        refine ⟨before, h, after ++ [i], by simp, hnot, hentered, fun later hlater => ?_⟩
        rcases List.prefix_concat_iff.mp hlater with rfl | hearlier
        · simpa using hafter
        · exact hstays later hearlier
      · refine ⟨hs, i, [], rfl, hthen, ?_, fun later hlater => ?_⟩
        · rwa [run_append] at hafter
        · rw [List.prefix_nil.mp hlater]
          exact hafter

omit [MarkerStore σ] in
theorem Move.entersOpening {m : Manager σ} {h : Happening σ} {s : Step σ} {n : Nat} {k : Ticket}
    (hmove : Move m h s) (hbefore : m.phase n ≠ .opening k) (hafter : s.1.phase n = .opening k) :
    h = .turn n (.input (.ticket (.ok k))) ∧ m.phase n = .asking ∧
      s.2 = [.openSocket (m.shared.config.socketTarget? k)] := by
  cases hmove with
  | rest _ hphase => exact absurd (hphase ▸ hafter) hbefore
  | @ticket i k' s hasking _ hphase _ heffects =>
      rw [hphase, Function.update_apply] at hafter
      split at hafter
      · rename_i hn
        subst hn
        cases hafter
        exact ⟨rfl, hasking, heffects⟩
      · exact absurd hafter hbefore
  | opened _ _ _ _ _ hphase =>
      rw [hphase, Function.update_apply] at hafter
      split at hafter
      · cases hafter
      · exact absurd hafter hbefore
  | round _ hp _ hphase =>
      rw [hphase, Function.update_apply] at hafter
      split at hafter
      · rcases hp with rfl | rfl <;> cases hafter
      · exact absurd hafter hbefore
  | close _ _ hphase =>
      rcases hphase n with heq | heq | heq | heq
      · exact absurd (heq ▸ hafter) hbefore
      all_goals
        rw [heq] at hafter
        cases hafter

/-- The channel of the client is that of a supervisor whose socket is open. -/
def Serves (n : Nat) (k : Ticket) (m : Manager σ) : Prop :=
  m.writes n = true ∧ m.phase n = .running k

omit [MarkerStore σ] in
theorem Move.entersServes {m : Manager σ} {h : Happening σ} {s : Step σ} {n : Nat} {k : Ticket}
    (hmove : Move m h s) (hbefore : ¬ Serves n k m) (hafter : Serves n k s.1) :
    h = .turn n (.input .opened) ∧ m.phase n = .opening k := by
  obtain ⟨hwrites, hrunning⟩ := hafter
  have hkeeps : Keeps m s.1 → m.writes n = true := by
    intro keeps
    rwa [writes, keeps.outbound, keeps.writer] at hwrites
  cases hmove with
  | rest keeps hphase => exact absurd ⟨hkeeps keeps, hphase ▸ hrunning⟩ hbefore
  | ticket _ keeps hphase =>
      rw [hphase, Function.update_apply] at hrunning
      split at hrunning
      · cases hrunning
      · exact absurd ⟨hkeeps keeps, hrunning⟩ hbefore
  | @opened i k' s hopening _ hwriter _ _ hphase =>
      have hn : i = n := by
        rw [writes, hwriter, Bool.and_eq_true, decide_eq_true_eq] at hwrites
        exact hwrites.2
      subst hn
      rw [hphase, Function.update_self] at hrunning
      cases hrunning
      exact ⟨rfl, hopening⟩
  | round _ hp keeps hphase =>
      rw [hphase, Function.update_apply] at hrunning
      split at hrunning
      · rcases hp with rfl | rfl <;> cases hrunning
      · exact absurd ⟨hkeeps keeps, hrunning⟩ hbefore
  | close houtbound =>
      rw [writes, houtbound] at hwrites
      cases hwrites

/-- The channel of a supervisor in a run: after `before` it got a ticket and asked for a socket with
it, after `during` that socket opened, and since then its channel is the client's and its socket is
open. -/
structure Opened (m : Manager σ) (n : Nat) (k : Ticket) (before during after : List (Happening σ)) :
    Prop where
  asking : (m.run before).1.phase n = .asking
  asked : ((m.run before).1.step (.turn n (.input (.ticket (.ok k))))).2 =
    [.openSocket ((m.run before).1.shared.config.socketTarget? k)]
  opening : ∀ soon, soon <+: during →
    (m.run (before ++ .turn n (.input (.ticket (.ok k))) :: soon)).1.phase n = .opening k
  open_since : ∀ later, later <+: after →
    Serves n k (m.run (before ++ .turn n (.input (.ticket (.ok k))) ::
      (during ++ .turn n (.input .opened) :: later))).1

theorem exists_opened {config : ClientConfig} {markers : σ} {hs : List (Happening σ)} {n : Nat}
    {k : Ticket} (hserves : Serves n k ((create config markers).run hs).1) :
    ∃ before during after,
      hs = before ++ .turn n (.input (.ticket (.ok k))) ::
        (during ++ .turn n (.input .opened) :: after) ∧
      Opened (create config markers) n k before during after := by
  obtain ⟨since, h, after, rfl, hnot, hentered, hstays⟩ :=
    exists_entry (P := Serves n k) (by simp [Serves]) hs hserves
  obtain ⟨rfl, hopening⟩ := (move_step _ h).entersServes hnot hentered
  obtain ⟨before, h, during, rfl, hnot', hentered', hstays'⟩ :=
    exists_entry (P := fun m => m.phase n = .opening k) (by simp) since hopening
  obtain ⟨rfl, hasking, hasked⟩ := (move_step _ h).entersOpening hnot' hentered'
  refine ⟨before, during, after, by simp, hasking, hasked, hstays', fun later hlater => ?_⟩
  simpa using hstays later hlater

end Entries

/-! ## State, channel and connection id -/

/-- While no two supervisors live, a client is open exactly if it has a channel. Whether or not,
one that is open has a channel, and the channel is that of a supervisor whose socket is open: the
connection id is that of the ticket with which this socket was asked for. A frame is sent exactly
if there is a channel and none of the texts in the frame is too long: then one text is appended to
those that wait, from which the frame is read back with the connection id as its sender. Otherwise
nothing changes. -/
theorem open_iff_channel [MarkerStore σ] (config : ClientConfig) (markers : σ)
    (hs : List (Happening σ)) :
    let m := ((create config markers).run hs).1
    ((∀ n n', m.isLive n = true → m.isLive n' = true → n = n') →
      (m.shared.state = .isOpen ↔ m.shared.outbound.isSome)) ∧
    (m.shared.state = .isOpen → m.shared.outbound.isSome) ∧
    (m.shared.outbound.isSome → ∃ k before during after,
      hs = before ++ .turn m.writer (.input (.ticket (.ok k))) ::
        (during ++ .turn m.writer (.input .opened) :: after) ∧
      Opened (create config markers) m.writer k before during after ∧
      m.shared.connectionId = some k.connectionId) ∧
    ∀ store topic e,
      let sent := m.transmit store topic e
      (sent.1 = true ↔ m.shared.outbound.isSome ∧
        ∀ p ∈ (m.shared.frame store topic e).openTexts,
          p.2.utf8ByteSize ≤ Frame.maxFieldLength) ∧
      (sent.1 = true → ∃ texts text, m.shared.outbound = some texts ∧
        sent.2 = { m with shared := { m.shared with outbound := some (texts ++ [text]) } } ∧
        Frame.decode (Text.bytes text) = .ok (m.shared.frame store topic e) ∧
        m.shared.connectionId = some (m.shared.frame store topic e).sender) ∧
      (sent.1 = false → sent.2 = m) := by
  intro m
  have hm : m.Coherent := (Coherent.create config markers).run hs
  refine ⟨hm.isOpen_iff, hm.outbound, fun hsome => ?_, fun store topic e =>
    ⟨m.shared.transmit_eq_true_iff store topic e, fun hsent => ?_, fun hnot => ?_⟩⟩
  · obtain ⟨k, hrunning, hid⟩ := hm.running hsome
    have hserves : Serves m.writer k m := ⟨by simp [writes, hsome], hrunning⟩
    obtain ⟨before, during, after, hhs, hopened⟩ := exists_opened hserves
    exact ⟨k, before, during, after, hhs, hopened, hid⟩
  · obtain ⟨texts, text, htexts, htext, hafter⟩ := Client.transmit_of_eq_true hsent
    have hread := Frame.decode_encode htext []
    rw [List.append_nil] at hread
    obtain ⟨k, -, hid⟩ := hm.running (by rw [htexts]; rfl)
    refine ⟨texts, text, htexts, congrArg (fun c => { m with shared := c }) hafter, hread, ?_⟩
    rw [Client.frame, hid]
    rfl
  · exact congrArg (fun c => { m with shared := c }) (Client.transmit_of_eq_false hnot)

/-- A client that has two supervisors in turn: the first one is logged out before the second one
starts. -/
theorem open_iff_channel_of_successor :
    let m := ((create {} Marker.absent).run
      [.turn 0 (.input .connect), .turn 0 (.input (.ticket (.ok ⟨"s1", "c1"⟩))),
        .turn 0 (.input .opened), .turn 0 (.input .logout), .turn 0 (.input .noticed), .returned 0,
        .turn 0 (.input .connect), .turn 1 (.input (.ticket (.ok ⟨"s2", "c2"⟩))),
        .turn 1 (.input .opened)]).1
    (∀ n n', m.isLive n = true → m.isLive n' = true → n = n') ∧
    (m.shared.state = .isOpen ↔ m.shared.outbound.isSome) ∧ m.shared.state = .isOpen ∧
    m.writer = 1 ∧ m.shared.connectionId = some "c2" := by
  intro m
  have hlive : ∀ n, m.isLive n = true → n = 1 := by
    have hfirst : m.isLive 0 = false := by decide +kernel
    have hlength : m.supervisors.length = 2 := by decide +kernel
    intro n hn
    match n with
    | 0 => simp [hfirst] at hn
    | 1 => rfl
    | n + 2 =>
        rw [isLive, phase, List.getElem?_eq_none (by omega)] at hn
        simp at hn
  have hsingle : ∀ n n', m.isLive n = true → m.isLive n' = true → n = n' := fun n n' h h' =>
    (hlive n h).trans (hlive n' h').symm
  refine ⟨hsingle, (open_iff_channel {} Marker.absent _).1 hsingle, ?_⟩
  decide +kernel

/-- A logout that waits for its supervisor, or whose caller gave it up, has taken it out of the slot.
A request to connect then starts a second one, under which the client says that it is connecting
while what is sent still goes to the socket of the first. -/
theorem connecting_with_channel :
    let before : List (Happening Marker) :=
      [.turn 0 (.input .connect), .turn 0 (.input (.ticket (.ok ⟨"s1", "c1"⟩))),
        .turn 0 (.input .opened), .turn 0 (.input .logout)]
    ∀ wait ∈ [[], [.abandoned 0]],
      let m := ((create {} Marker.absent).run (before ++ wait ++ [.turn 0 (.input .connect)])).1
      m.isLive 0 = true ∧ m.isLive 1 = true ∧ m.shared.state = .connecting ∧
      m.shared.outbound = some [] ∧ (m.transmit true "room" .subscribe).1 = true := by
  decide +kernel

end Manager

end Parley
