import Parley.Proofs.Client.Channel

/-!
# Supervisors one after the other

Most of what is said about clients is said about `Client.run`, in which a request to connect finds
the client idle or has no effect. That is how a manager goes on as long as supervisors follow each
other (`Manager.Orderly`): nobody connects or logs out while an earlier logout is on its way. Then
the client that the supervisors share is what the one which lives takes it for (`Manager.Single`),
and what a manager does is what the client does in its turns (`Manager.run_of_orderly`).
-/

namespace Parley

namespace Client

variable {σ : Type} [MarkerStore σ]

/-- A client without a supervisor stays closed. -/
theorem Move.closed {c : Client σ} {t : Turn σ} {s : Step σ} (h : Move c t s)
    (hc : c.phase = .idle → c.state = .closed) (hidle : s.1.phase = .idle) :
    s.1.state = .closed := by
  cases h with
  | rest same => exact same.state.trans (hc (same.phase ▸ hidle))
  | ticked | written | focused => exact hc hidle
  | leave =>
      rw [logout_phase] at hidle
      exact (logout_of_idle hidle).1
  | opened _ _ same =>
      rw [same.phase] at hidle
      cases hidle
  | «begin» | ticket | endAtOnce | endForNow | elapsed => cases hidle
  | noTicket | endOnRequest | endForGood | stop | stopOpen => rfl

theorem Move.shutdown_of_isReport {c : Client σ} {t : Turn σ} {s : Step σ} (h : Move c t s)
    (ht : t.isReport = true) : s.1.shutdown = c.shutdown := by
  cases h with
  | rest same | opened _ _ same => exact same.shutdown
  | ticked | written | focused | leave | «begin» => cases ht
  | noTicket | ticket | elapsed | stop | stopOpen => rfl
  | endOnRequest hends | endForGood hends | endAtOnce hends | endForNow hends => cases hends <;> rfl

end Client

namespace Manager

variable {σ : Type}

/-! ## Orderly runs -/

/-- Whoever connects or logs out does so while no logout waits and no supervisor lives but the one
in the slot; and only a supervisor that lives is reported anything. -/
def Admits (m : Manager σ) : Happening σ → Prop
  | .turn n t =>
    (t = .input .connect ∨ t = .input .logout →
      m.awaited = [] ∧ ∀ i, m.isLive i = true → m.slot = some i) ∧
    (t = .input .flush ∨ t.isReport = true → m.isLive n = true)
  | .returned _ | .abandoned _ => True

def Orderly [MarkerStore σ] (m : Manager σ) : List (Happening σ) → Prop
  | [] => True
  | h :: rest => m.Admits h ∧ (m.step h).1.Orderly rest

/-- The turn of the client in what happens to its manager. -/
def Happening.turn? : Happening σ → Option (Client.Turn σ)
  | .turn _ t => some t
  | .returned _ | .abandoned _ => none

/-- The client is as the supervisor that lives takes it to be; without one, it is idle. -/
structure Single (m : Manager σ) : Prop where
  found : ∀ n, m.isLive n = true → m.supervisors[n]? = some
    { phase := m.shared.phase, openedBefore := m.shared.openedBefore, alerted := m.shared.shutdown }
  one : ∀ n n', m.isLive n = true → m.isLive n' = true → n = n'
  idle : (∀ n, m.isLive n = false) → m.shared.phase = .idle
  awaited : ∀ a ∈ m.awaited, ∀ n, m.isLive n = true → n = a
  closed : m.shared.phase = .idle → m.shared.state = .closed
  agrees : m.shared.Agrees
  coherent : m.Coherent

namespace Single

variable {m : Manager σ}

theorem create (config : ClientConfig) (markers : σ) : (Manager.create config markers).Single where
  found n hn := by simp [isLive] at hn
  one n _ hn := by simp [isLive] at hn
  idle _ := rfl
  awaited := nofun
  closed _ := rfl
  agrees := .create config markers
  coherent := .create config markers

theorem phase_eq (hm : m.Single) {n : Nat} (hn : m.isLive n = true) :
    m.phase n = m.shared.phase := phase_of_getElem? (hm.found n hn)

theorem phase_ne_idle (hm : m.Single) {n : Nat} (hn : m.isLive n = true) :
    m.shared.phase ≠ .idle := by
  rw [← hm.phase_eq hn]
  simpa [isLive] using hn

theorem writer_eq (hm : m.Single) {n : Nat} (hn : m.isLive n = true)
    (hsome : m.shared.outbound.isSome) : m.writer = n := by
  obtain ⟨k, hrunning, -⟩ := hm.coherent.running hsome
  exact hm.one _ _ (isLive_of_running hrunning) hn

theorem outbound_eq_none (hm : m.Single) (hidle : m.shared.phase = .idle) :
    m.shared.outbound = none := hm.agrees.outbound_eq_none (by rw [hidle]; rfl)

/-- A client that is idle is closed already. -/
theorem finish_eq (hm : m.Single) (hidle : m.shared.phase = .idle) :
    m.shared.finish = m.shared := by
  have houtbound := hm.outbound_eq_none hidle
  have hstate := hm.closed hidle
  cases hc : m.shared
  simp_all [Client.finish]

theorem view_eq (hm : m.Single) {n : Nat} (hn : m.isLive n = true) {s : Supervisor}
    (hs : m.supervisors[n]? = some s) (t : Client.Turn σ) : m.view s t = m.shared := by
  rw [hm.found n hn] at hs
  cases hs
  unfold view
  split <;> rfl

/-- A step that only touches what the supervisors do not look at. -/
theorem keep (hm : m.Single) {m' : Manager σ} (hsupervisors : m'.supervisors = m.supervisors)
    (hawaited : m'.awaited ⊆ m.awaited) (hphase : m'.shared.phase = m.shared.phase)
    (hopenedBefore : m'.shared.openedBefore = m.shared.openedBefore)
    (hshutdown : m'.shared.shutdown = m.shared.shutdown)
    (hclosed : m'.shared.phase = .idle → m'.shared.state = .closed)
    (hagrees : m'.shared.Agrees) (hcoherent : m'.Coherent) : m'.Single := by
  have hlive : ∀ n, m'.isLive n = m.isLive n := fun n => by
    rw [isLive, isLive, phase, phase, hsupervisors]
  refine ⟨fun n hn => ?_, fun n n' hn hn' => ?_, fun hnone => ?_, fun a ha n hn => ?_, hclosed,
    hagrees, hcoherent⟩
  · rw [hsupervisors, hphase, hopenedBefore, hshutdown]
    exact hm.found n (hlive n ▸ hn)
  · exact hm.one n n' (hlive n ▸ hn) (hlive n' ▸ hn')
  · rw [hphase]
    exact hm.idle fun n => hlive n ▸ hnone n
  · exact hm.awaited a (hawaited ha) n (hlive n ▸ hn)

/-! ### Each step -/

/-- A step of the manager does to the client what a turn does, and one supervisor at most lives
afterwards. -/
structure Follows (s : Step σ) (r : Client.Step σ) : Prop where
  shared : s.1.shared = r.1
  effects : s.2 = r.2
  single : s.1.Single

theorem follows_flush (hm : m.Single) {n : Nat} (hn : m.isLive n = true) :
    Follows (m.flush n) m.shared.onFlush := by
  have hcoherent := hm.coherent.move (m.move_flush n (.turn n (.input .flush)))
  have hagrees := hm.agrees.undisturbed m.shared.undisturbed_onFlush
  have same := m.shared.undisturbed_onFlush
  cases houtbound : m.shared.outbound with
  | none =>
      have hflush : m.shared.onFlush = (m.shared, []) := by rw [Client.onFlush, houtbound]
      rw [flush, if_neg (by simp [writes, houtbound]), hm.found n hn, hflush]
      exact ⟨rfl, rfl, hm⟩
  | some texts =>
      have hwriter := hm.writer_eq hn (by rw [houtbound]; rfl)
      rw [flush, if_pos (by simp [writes, houtbound, hwriter])] at hcoherent ⊢
      exact ⟨rfl, rfl, hm.keep rfl (List.Subset.refl _) same.phase same.openedBefore same.shutdown
        (fun hidle => same.state.trans (hm.closed (same.phase ▸ hidle))) hagrees hcoherent⟩

/-- Whoever waits for a supervisor that has ended finds the client closed. -/
theorem follows_returned (hm : m.Single) (n : Nat) : Follows (m.returned n, []) (m.shared, []) := by
  have hcoherent := hm.coherent.move (m.move_returned n)
  unfold returned at hcoherent ⊢
  split at hcoherent
  · rename_i h
    rw [if_pos h]
    obtain ⟨hmem, hended⟩ := h
    have hnone : ∀ i, m.isLive i = false := fun i => by
      rw [← Bool.not_eq_true]
      intro hi
      rw [hm.awaited n hmem i hi, hended] at hi
      cases hi
    have hidle := hm.idle hnone
    have hshared : m.close.shared = m.shared := hm.finish_eq hidle
    have hsupervisors : m.close.supervisors = m.supervisors := by
      rw [close, setAside, hm.outbound_eq_none hidle]
    refine ⟨hshared, rfl, hm.keep hsupervisors List.erase_subset ?_ ?_ ?_ ?_ ?_ hcoherent⟩
    all_goals dsimp only
    all_goals rw [hshared]
    · exact hm.closed
    · exact hm.agrees
  · rename_i h
    rw [if_neg h]
    exact ⟨rfl, rfl, hm⟩

theorem follows_abandoned (hm : m.Single) (n : Nat) :
    Follows (m.abandoned n, []) (m.shared, []) :=
  ⟨rfl, rfl, hm.keep rfl List.erase_subset rfl rfl rfl hm.closed hm.agrees
    ⟨hm.coherent.outbound, hm.coherent.running, hm.coherent.other⟩⟩

/-- What a supervisor leaves to be written is nothing, for its channel was the client's. -/
theorem found_putBack (hm : m.Single) {n : Nat} (hn : m.isLive n = true) {s : Supervisor}
    (hs : m.supervisors[n]? = some s) {c : Client σ} (hc : c.Agrees) :
    (m.putBack n s c).supervisors[n]? = some
      { phase := c.phase, openedBefore := c.openedBefore, alerted := m.shared.shutdown } := by
  rw [hm.found n hn] at hs
  cases hs
  unfold putBack
  dsimp only
  rw [List.getElem?_modify_eq]
  cases hrunning : c.phase.isRunning with
  | true =>
      have hsome : c.outbound.isNone = false := by
        rw [Option.isNone_eq_false_iff, hc.outbound, hrunning]
      have hss : (if true && !m.shared.phase.isRunning || c.outbound.isNone then m.setAside
          else m.supervisors) = m.supervisors := by
        split
        · rename_i hopens
          rw [hsome, Bool.true_and, Bool.or_false, Bool.not_eq_true'] at hopens
          rw [setAside, hm.agrees.outbound_eq_none hopens]
        · rfl
      rw [hss, hm.found n hn]
      rfl
  | false =>
      have hnone : c.outbound = none := hc.outbound_eq_none hrunning
      obtain ⟨left, hset⟩ : ∃ left, m.setAside[n]? = some
          { phase := m.shared.phase, openedBefore := m.shared.openedBefore,
            alerted := m.shared.shutdown, left } := by
        unfold setAside
        split
        · exact ⟨_, hm.found n hn⟩
        · rename_i texts houtbound
          refine ⟨texts, ?_⟩
          rw [hm.writer_eq hn (by rw [houtbound]; rfl), List.getElem?_modify_eq, hm.found n hn]
          rfl
      rw [hnone, if_pos (by simp), hset]
      rfl

variable [MarkerStore σ]

theorem follows_connect (hm : m.Single) (hawaited : m.awaited = [])
    (hslot : ∀ i, m.isLive i = true → m.slot = some i) :
    Follows m.connect m.shared.connect := by
  by_cases hlives : ∃ i, m.isLive i = true
  · obtain ⟨i, hi⟩ := hlives
    rw [connect_of_isLive (hslot i hi) hi, Client.connect_of_ne_idle (hm.phase_ne_idle hi)]
    exact ⟨rfl, rfl, hm⟩
  · have hnone : ∀ i, m.isLive i = false := by simpa using hlives
    have hstarts := connect_of_not_isLive (m := m) fun i _ => hnone i
    have hphase := phase_connect (m := m) fun i _ => hnone i
    have hcoherent := hm.coherent.move (m.move_connect (.turn 0 (.input .connect)))
    have hagrees := hm.agrees.move (Client.move_turn m.shared (.input .connect))
    have hshared : m.shared.connect = (m.connect.1.shared, m.connect.2) := by
      rw [hstarts, Client.connect_of_idle (hm.idle hnone)]
    have hlive : ∀ i, m.connect.1.isLive i = true ↔ i = m.supervisors.length := by
      intro i
      by_cases hi : i = m.supervisors.length
      · simp [isLive, hphase, hi]
      · have hidle := isLive_eq_false_iff.mp (hnone i)
        simp [isLive, hphase, hidle, hi]
    have hfound : m.connect.1.supervisors[m.supervisors.length]? = some {} := by
      rw [hstarts, ← show m.alertAll.length = m.supervisors.length from List.length_map _]
      exact List.getElem?_concat_length
    refine ⟨by rw [hshared], by rw [hshared], fun i hi => ?_, fun i j hi hj => ?_,
      fun hidle => ?_, ?_, ?_, ?_, hcoherent⟩
    · rw [(hlive i).mp hi, hfound, hstarts]
    · rw [(hlive i).mp hi, (hlive j).mp hj]
    · exact absurd ((hlive _).mpr rfl) (by simp [hidle])
    · rw [hstarts, hawaited]
      exact fun a ha => absurd ha List.not_mem_nil
    · rw [hstarts]
      exact fun hidle => by cases hidle
    · change m.shared.connect.1.Agrees at hagrees
      rwa [hshared] at hagrees

theorem follows_logout (hm : m.Single) (hawaited : m.awaited = [])
    (hslot : ∀ i, m.isLive i = true → m.slot = some i) :
    Follows (m.logout, []) (m.shared.logout, []) := by
  have hcoherent := hm.coherent.move (m.move_logout (.turn 0 (.input .logout)))
  have hagrees := hm.agrees.logout
  have hclosed : m.shared.logout.phase = .idle → m.shared.logout.state = .closed := fun hidle =>
    (Client.logout_of_idle (m.shared.logout_phase ▸ hidle)).1
  have hlive : ∀ i, m.logout.isLive i = m.isLive i := fun i => by
    rw [isLive, isLive, m.phase_logout]
  by_cases hlives : ∃ i, m.isLive i = true
  · obtain ⟨i, hi⟩ := hlives
    have hleaves := logout_of_isLive (hslot i hi) hi
    have hshared : m.shared.logout = m.logout.shared := by
      rw [hleaves, Client.logout_of_ne_idle (hm.phase_ne_idle hi)]
    rw [hshared] at hagrees hclosed ⊢
    refine ⟨rfl, rfl, fun j hj => ?_, fun j k hj hk => ?_, fun hnone => ?_, fun a ha j hj => ?_,
      hclosed, hagrees, hcoherent⟩
    · rw [hlive] at hj
      rw [hleaves]
      dsimp only
      rw [alertAll, List.getElem?_map, hm.found j hj]
      rfl
    · exact hm.one j k (hlive j ▸ hj) (hlive k ▸ hk)
    · have := hnone i
      rw [hlive, hi] at this
      cases this
    · rw [hleaves, hawaited, List.mem_singleton] at ha
      rw [ha]
      exact hm.one j i (hlive j ▸ hj) hi
  · have hnone : ∀ i, m.isLive i = false := by simpa using hlives
    have hleaves := logout_of_not_isLive (m := m) fun i _ => hnone i
    have hshared : m.shared.logout = m.logout.shared := by
      rw [hleaves, Client.logout_eq_of_idle (hm.idle hnone)]
      rfl
    have hno : ∀ j, m.logout.isLive j ≠ true := fun j => by simp [hlive, hnone]
    rw [hshared] at hagrees hclosed ⊢
    exact ⟨rfl, rfl, fun j hj => absurd hj (hno j), fun j k hj => absurd hj (hno j),
      fun _ => by rw [hleaves]; rfl, fun a _ j hj => absurd hj (hno j), hclosed, hagrees, hcoherent⟩

theorem follows_report (hm : m.Single) {n : Nat} (hn : m.isLive n = true) {t : Client.Turn σ}
    (ht : t.isReport = true) : Follows (m.report n t) (m.shared.turn t) := by
  have hcoherent := hm.coherent.move (m.move_report n ht)
  have hmove := Client.move_turn m.shared t
  have hagrees := hm.agrees.move hmove
  obtain ⟨s, hs⟩ : ∃ s, m.supervisors[n]? = some s := ⟨_, hm.found n hn⟩
  have hreport : m.report n t = (m.putBack n s (m.shared.turn t).1, (m.shared.turn t).2) := by
    rw [report, hs]
    dsimp only
    rw [hm.view_eq hn hs]
  have hshared : (m.putBack n s (m.shared.turn t).1).shared = (m.shared.turn t).1 := by
    have hshutdown := hmove.shutdown_of_isReport ht
    unfold putBack
    dsimp only
    rw [← hshutdown]
  have hfound := hm.found_putBack hn hs hagrees
  have hlive : ∀ i, (m.putBack n s (m.shared.turn t).1).isLive i = true → i = n := by
    intro i hi
    by_contra hne
    rw [isLive, phase_putBack hs, Function.update_of_ne hne] at hi
    exact hne (hm.one i n hi hn)
  rw [hreport] at hcoherent ⊢
  refine ⟨hshared, rfl, fun i hi => ?_, fun i j hi hj => ?_, fun hnone => ?_, fun a ha i hi => ?_,
    ?_, ?_, hcoherent⟩
  · rw [hlive i hi, hshared, hmove.shutdown_of_isReport ht]
    exact hfound
  · rw [hlive i hi, hlive j hj]
  · have hended := hnone n
    rwa [isLive_eq_false_iff, phase_putBack hs, Function.update_self, ← hshared] at hended
  · rw [hlive i hi]
    exact hm.awaited a ha n hn
  · rw [hshared]
    exact hmove.closed hm.closed
  · rw [hshared]
    exact hagrees

/-- What is no report goes past the supervisors. -/
theorem follows_aside (hm : m.Single) {t : Client.Turn σ} (hconnect : t ≠ .input .connect)
    (hlogout : t ≠ .input .logout) (ht : t.isReport = false) :
    Follows ({ m with shared := (m.shared.turn t).1 }, (m.shared.turn t).2) (m.shared.turn t) := by
  have hmove := Client.move_turn m.shared t
  have same := hmove.aside hconnect hlogout ht
  have haside : Move m (.turn 0 t)
      ({ m with shared := (m.shared.turn t).1 }, (m.shared.turn t).2) :=
    .rest ⟨rfl, same.outbound, same.connectionId⟩ rfl same.state
  exact ⟨rfl, rfl, hm.keep rfl (List.Subset.refl _) same.phase same.openedBefore same.shutdown
    (hmove.closed hm.closed) (hm.agrees.move hmove) (hm.coherent.move haside)⟩

/-- What a manager does when it admits something is what the client does in its turn. -/
theorem follows_step (hm : m.Single) {h : Happening σ} (hadmits : m.Admits h) :
    Follows (m.step h) (m.shared.run h.turn?.toList) := by
  cases h with
  | returned n => exact hm.follows_returned n
  | abandoned n => exact hm.follows_abandoned n
  | turn n t =>
      have hrun : m.shared.run [t] = m.shared.turn t := by
        rw [Client.run_cons, Client.run_nil, List.append_nil]
      change Follows (m.turn n t) (m.shared.run [t])
      rw [hrun]
      obtain ⟨hcalls, hreports⟩ := hadmits
      unfold turn
      split
      · obtain ⟨hawaited, hslot⟩ := hcalls (.inl rfl)
        exact hm.follows_connect hawaited hslot
      · obtain ⟨hawaited, hslot⟩ := hcalls (.inr rfl)
        exact hm.follows_logout hawaited hslot
      · exact hm.follows_flush (hreports (.inl rfl))
      · rename_i hconnect hlogout _
        cases ht : t.isReport with
        | true =>
            rw [if_pos rfl]
            exact hm.follows_report (hreports (.inr ht)) ht
        | false =>
            rw [if_neg Bool.false_ne_true]
            exact hm.follows_aside hconnect hlogout ht

end Single

/-- As long as supervisors follow each other, the client is what it becomes in its turns, and the
same is done for it. -/
theorem run_of_orderly [MarkerStore σ] {m : Manager σ} (hm : m.Single) {hs : List (Happening σ)}
    (horderly : m.Orderly hs) :
    (m.run hs).1.shared = (m.shared.run (hs.filterMap Happening.turn?)).1 ∧
      (m.run hs).2 = (m.shared.run (hs.filterMap Happening.turn?)).2 ∧ (m.run hs).1.Single := by
  induction hs generalizing m with
  | nil => exact ⟨rfl, rfl, hm⟩
  | cons h rest ih =>
      obtain ⟨hadmits, hrest⟩ := horderly
      have hstep := hm.follows_step hadmits
      obtain ⟨hshared, heffects, hsingle⟩ := ih hstep.single hrest
      have hsplit : (h :: rest).filterMap Happening.turn? =
          h.turn?.toList ++ rest.filterMap Happening.turn? := by
        cases h <;> rfl
      rw [hsplit, Client.run_append, ← hstep.shared, ← hstep.effects]
      exact ⟨hshared, congrArg (_ ++ ·) heffects, hsingle⟩

end Manager

end Parley
