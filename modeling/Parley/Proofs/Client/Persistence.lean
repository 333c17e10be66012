import Parley.Proofs.Client.Conduct

/-!
# A client does not give up silently

Nobody asks the client to end, and nobody but the client writes its marker. Then the marker is there
while a socket is open (`Client.Steadfast`): opening makes it active, and a change of focus only
turns it from active to blurred and back. So the policy never lets the client stay closed when such
a socket ends, and what is left to end the supervisor is a ticket or a first socket that cannot be
had, which it tells.
-/

namespace Parley

namespace ReconnectPolicy

variable {σ : Type} [MarkerStore σ] [LawfulMarkerStore σ]

/-- The focus neither makes nor removes a marker. -/
theorem load_onFocus_eq_absent_iff (focused isOpen : Bool) (markers : σ) :
    MarkerStore.load (onFocus focused isOpen markers) = .absent ↔
      MarkerStore.load markers = .absent := by
  unfold onFocus
  split
  · rename_i hload
    rw [LawfulMarkerStore.load_store, hload]
    simp
  · rename_i hload
    split
    · rw [LawfulMarkerStore.load_store, hload]
      simp
    · rfl
  · rfl

end ReconnectPolicy

namespace Client

variable {σ : Type} [MarkerStore σ]

/-- A client that was not asked to end, and has a marker while its socket is open. -/
structure Steadfast (c : Client σ) : Prop where
  unasked : c.shutdown = false
  marked : c.phase.isRunning = true → MarkerStore.load c.markers ≠ .absent
  reassured : c.Reassured

namespace Steadfast

theorem create (config : ClientConfig) (markers : σ) : (Client.create config markers).Steadfast :=
  ⟨rfl, nofun, nofun⟩

theorem move [LawfulMarkerStore σ] {c : Client σ} {t : Turn σ} {s : Step σ} (h : Move c t s)
    (hlogout : t ≠ .input .logout) (hmarkers : ∀ m, t ≠ .markers m) (hc : c.Steadfast) :
    s.1.Steadfast := by
  have hreassured := hc.reassured.move h
  cases h with
  | rest same =>
      refine ⟨same.shutdown.trans hc.unasked, ?_, hreassured⟩
      rw [same.phase, same.markers]
      exact hc.marked
  | ticked => exact ⟨hc.unasked, hc.marked, hreassured⟩
  | written m => exact absurd rfl (hmarkers m)
  | focused b =>
      refine ⟨hc.unasked, fun hrunning => ?_, hreassured⟩
      exact mt (ReconnectPolicy.load_onFocus_eq_absent_iff _ _ _).mp (hc.marked hrunning)
  | leave => exact absurd rfl hlogout
  | «begin» => exact ⟨rfl, nofun, hreassured⟩
  | opened hphase _ same =>
      refine ⟨same.shutdown.trans hc.unasked, fun _ => ?_, hreassured⟩
      rw [same.markers, LawfulMarkerStore.load_store]
      nofun
  | endOnRequest hends | endForGood hends | endAtOnce hends | endForNow hends =>
      cases hends <;> exact ⟨hc.unasked, nofun, hreassured⟩
  | noTicket | ticket | elapsed | stop | stopOpen =>
      exact ⟨hc.unasked, nofun, hreassured⟩

theorem run [LawfulMarkerStore σ] {c : Client σ} {ts : List (Turn σ)}
    (hlogout : .input .logout ∉ ts) (hmarkers : ∀ m, .markers m ∉ ts) (hc : c.Steadfast) :
    (c.run ts).1.Steadfast :=
  run_induction ts hc fun _ _ _ ht hmove hc =>
    hc.move hmove (fun h => hlogout (h ▸ ht)) fun m h => hmarkers m (h ▸ ht)

/-- The diary of such a client leads on without the supervisor quitting. -/
theorem diary [LawfulMarkerStore σ] {c : Client σ} {ts : List (Turn σ)}
    (hlogout : .input .logout ∉ ts) (hmarkers : ∀ m, .markers m ∉ ts) (hc : c.Steadfast) :
    Conduct.Run False c.conduct (c.diary ts) (c.run ts).1.conduct := by
  induction ts generalizing c with
  | nil => exact .nil _
  | cons t rest ih =>
      rw [List.mem_cons, not_or] at hlogout
      have hmove := move_turn c t
      have hnext := hc.move hmove (Ne.symm hlogout.1)
        fun m h => hmarkers m (List.mem_cons.mpr (.inl h.symm))
      refine (conduct_move hmove hc.reassured ?_).append
        (ih hlogout.2 (fun m h => hmarkers m (List.mem_cons_of_mem _ h)) hnext)
      rintro (hasked | ⟨hrunning, habsent⟩)
      · rw [hc.unasked] at hasked
        cases hasked
      · exact hc.marked hrunning habsent

end Steadfast

/-! ## After the end of a socket -/

theorem delay_run (c : Client σ) (ts : List (Turn σ)) :
    (c.run ts).1.policy.delay = c.policy.delay := by
  refine run_induction (motive := fun d => d.policy.delay = c.policy.delay) ts rfl
    fun d t s _ hmove hd => ?_
  cases hmove with
  | rest same => rw [same.policy, hd]
  | opened _ _ same => rw [same.policy]; exact hd
  | leave => rw [logout_policy, hd]
  | endOnRequest h | endForGood h | endAtOnce h | endForNow h => cases h <;> exact hd
  | _ => exact hd

theorem turn_lost {c : Client σ} (hphase : c.phase.isRunning = true) :
    c.turn (.input .lost) =
      Step.andThen ({ c with outbound := none }, [.tell .disconnected]) (afterClose false) := by
  change c.onLost = _
  unfold onLost
  split
  · rfl
  · rename_i hnot
    cases h : c.phase with
    | running t => exact absurd h (hnot t)
    | _ => rw [h] at hphase; cases hphase

theorem turn_lost_of_blurred {c : Client σ} (hphase : c.phase.isRunning = true)
    (hunasked : c.shutdown = false) (hm : MarkerStore.load c.markers = .blurred) :
    ∃ d : Client σ, d.phase = .asking ∧
      c.turn (.input .lost) = (d, [.tell .disconnected, .askTicket]) := by
  have hclose := afterClose_of_blurred (c := { c with outbound := none }) false hunasked hm
  rw [turn_lost hphase, Step.andThen, hclose]
  exact ⟨_, rfl, rfl⟩

theorem turn_lost_of_active {c : Client σ} (hphase : c.phase.isRunning = true)
    (hunasked : c.shutdown = false) (hm : MarkerStore.load c.markers = .active) :
    ∃ (d : Client σ) (warning : List ClientEffect), d.phase = .waiting ∧ d.shutdown = false ∧
      c.turn (.input .lost) = (d, .tell .disconnected :: warning ++ [.wait c.policy.delay]) := by
  have hclose := afterClose_of_active (c := { c with outbound := none }) false hunasked hm
  rw [turn_lost hphase, Step.andThen, hclose]
  refine ⟨_, if c.policy.noticeShown then [] else [.tell (.notice .reconnecting)], ?_, ?_, rfl⟩
  · rfl
  · exact hunasked

/-- A client that waits and is not asked to end waits until the delay has passed. -/
theorem waiting_run {c : Client σ} {ts : List (Turn σ)} (hphase : c.phase = .waiting)
    (hunasked : c.shutdown = false) (hlogout : .input .logout ∉ ts)
    (helapsed : .input .elapsed ∉ ts) : (c.run ts).1.phase = .waiting := by
  refine (run_induction (motive := fun c => c.phase = .waiting ∧ c.shutdown = false) ts
    ⟨hphase, hunasked⟩ fun c t s ht hmove hc => ?_).1
  obtain ⟨hphase, hunasked⟩ := hc
  cases hmove with
  | rest same => exact ⟨same.phase.trans hphase, same.shutdown.trans hunasked⟩
  | ticked | written | focused => exact ⟨hphase, hunasked⟩
  | leave => exact absurd ht hlogout
  | elapsed => exact absurd ht helapsed
  | «begin» h | noTicket _ h | ticket _ h | opened h => rw [hphase] at h; cases h
  | endOnRequest h | endForGood h | endAtOnce h | endForNow h =>
      cases h with
      | refused h | lost h => rw [hphase] at h; cases h
  | stop h | stopOpen h => rw [hunasked] at h; cases h

theorem turn_elapsed {c : Client σ} (hphase : c.phase = .waiting) :
    c.turn (.input .elapsed) = c.beginRound := by
  change c.onElapsed = _
  rw [onElapsed, hphase]

/-- As long as nobody asks a client to end and nobody else writes its marker: while its socket is
open there is a marker. If that socket ends, the policy does not stay; another ticket is asked for
at once, or after the delay, for which the client waits whatever else happens. And when the
supervisor ends, then of itself, right after it has told with a notice that stays that it has given
up. -/
theorem ends_only_with_notice [LawfulMarkerStore σ] (config : ClientConfig) (markers : σ)
    (ts : List (Turn σ)) (hlogout : .input .logout ∉ ts) (hmarkers : ∀ m, .markers m ∉ ts) :
    let c := ((create config markers).run ts).1
    (c.phase.isRunning = true →
      (MarkerStore.load c.markers = .active ∨ MarkerStore.load c.markers = .blurred) ∧
      (c.policy.onClose c.markers).1.action ≠ .stay ∧
      let closed := c.turn (.input .lost)
      (closed.1.phase = .asking ∧ .askTicket ∈ closed.2 ∨
        closed.1.phase = .waiting ∧ .wait config.reconnectDelay ∈ closed.2 ∧
          ∀ later, .input .logout ∉ later → .input .elapsed ∉ later →
            let waited := (closed.1.run later).1
            waited.phase = .waiting ∧ .askTicket ∈ (waited.turn (.input .elapsed)).2)) ∧
    (∀ before asked after,
      (create config markers).diary ts = before ++ .ended asked :: after →
      asked = false ∧ ∃ rest, before = rest ++ [.told (.notice .connectionLost)]) := by
  intro c
  have hstart : (create config markers).Steadfast := .create config markers
  have hc : c.Steadfast := hstart.run hlogout hmarkers
  refine ⟨fun hrunning => ?_, fun before asked after hdiary =>
    (hstart.diary hlogout hmarkers).lost_of_ended id (conduct_ne_lost _) hdiary⟩
  have hdelay : c.policy.delay = config.reconnectDelay := delay_run (create config markers) ts
  cases hm : MarkerStore.load c.markers with
  | absent => exact absurd hm (hc.marked hrunning)
  | blurred =>
      refine ⟨.inr rfl, by simp [ReconnectPolicy.onClose, hm], .inl ?_⟩
      obtain ⟨d, hphase, hturn⟩ := turn_lost_of_blurred hrunning hc.unasked hm
      rw [hturn]
      exact ⟨hphase, by simp⟩
  | active =>
      refine ⟨.inl rfl, by simp [ReconnectPolicy.onClose, hm], .inr ?_⟩
      obtain ⟨d, warning, hphase, hunasked, hturn⟩ := turn_lost_of_active hrunning hc.unasked hm
      rw [hturn]
      refine ⟨hphase, by simp [hdelay], fun later hlogout helapsed => ?_⟩
      have hwaits : (d.run later).1.phase = .waiting :=
        waiting_run hphase hunasked hlogout helapsed
      refine ⟨hwaits, ?_⟩
      rw [turn_elapsed hwaits]
      exact List.mem_cons_self

/-- The window is in the background when the socket ends, so another ticket is asked for at once. -/
theorem ends_only_with_notice_blurred :
    let ts : List (Turn Marker) :=
      [.input .connect, .input (.ticket (.ok ⟨"s1", "c1"⟩)), .input .opened,
        .input (.focus false)]
    let c := ((create {} Marker.absent).run ts).1
    .input .logout ∉ ts ∧ (∀ m, .markers m ∉ ts) ∧ c.phase = .running ⟨"s1", "c1"⟩ ∧
      c.markers = .blurred ∧ (c.policy.onClose c.markers).1.action ≠ .stay ∧
      (c.turn (.input .lost)).1.phase = .asking ∧ .askTicket ∈ (c.turn (.input .lost)).2 := by
  intro ts c
  have hlogout : .input .logout ∉ ts := by simp [ts]
  have hmarkers : ∀ m, .markers m ∉ ts := by simp [ts]
  have hphase : c.phase = .running ⟨"s1", "c1"⟩ := by decide
  obtain ⟨hrunning, -⟩ := ends_only_with_notice {} Marker.absent ts hlogout hmarkers
  obtain ⟨-, hstay, hnext⟩ := hrunning (by decide)
  refine ⟨hlogout, hmarkers, hphase, by decide, hstay, ?_⟩
  rcases hnext with hasks | ⟨hwaits, -⟩
  · exact hasks
  · exact absurd hwaits (by decide)

end Client

end Parley
