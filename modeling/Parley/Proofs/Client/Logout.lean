import Parley.Proofs.Client.Persistence

/-!
# After logout

A logout takes the marker away and asks the supervisor to end, and it has come to its end when there
is no supervisor any more. Until then the supervisor may be slow to see the request: it does not
look while it waits for a ticket, and where several things happen at once any of them may be seen
first. What it can still do is told by an invariant of the time in between (`Client.Leaving`).
Whatever it is, the client is closed then, and nothing but another `connect` brings it back
(`Client.Gone`). The marker however is made active by a socket that opens, and no one takes it away
again.
-/

namespace Parley.Client

variable {σ : Type} [MarkerStore σ]

/-- Whether a connection is told among effects. -/
def Connects (es : List ClientEffect) : Prop := ∃ id, ClientEffect.tell (.connected id) ∈ es

theorem connects_append (es fs : List ClientEffect) :
    Connects (es ++ fs) ↔ Connects es ∨ Connects fs := by
  simp only [Connects, List.mem_append, exists_or]

theorem mem_told {e : ClientEvent} {es : List ClientEffect} : e ∈ told es ↔ .tell e ∈ es := by
  rw [told, List.mem_filterMap]
  constructor
  · rintro ⟨f, hf, htold⟩
    cases f <;> simp_all [ClientEffect.told?]
  · exact fun h => ⟨_, h, rfl⟩

omit [MarkerStore σ] in
theorem Quiet.not_connects {c : Client σ} {es : List ClientEffect} (h : Quiet c es) :
    ¬ Connects es := by
  rintro ⟨id, hid⟩
  have hid := mem_told.mpr hid
  rcases h.told with hnone | ⟨-, hrefresh⟩
  · rw [hnone] at hid
    cases hid
  · rw [hrefresh] at hid
    simp at hid

/-! ## Until the supervisor has ended -/

/-- A client that was asked to end. Since then a connection was told or not. -/
structure Leaving (c : Client σ) (connected : Prop) : Prop where
  asked : c.shutdown = true
  closed : c.phase = .idle → c.state = .closed ∧ c.outbound = none
  marker : MarkerStore.load c.markers = .absent ↔ ¬ connected

namespace Leaving

theorem logout [LawfulMarkerStore σ] (c : Client σ) : c.logout.Leaving False where
  asked := c.logout_shutdown
  closed h := logout_of_idle (c.logout_phase ▸ h)
  marker := by
    rw [logout_markers, LawfulMarkerStore.load_store]
    simp

/-- Neither the marker nor what was told is changed. -/
theorem silent {c d : Client σ} {connected : Prop} {es : List ClientEffect}
    (hc : c.Leaving connected) (hes : ¬ Connects es) (hshutdown : d.shutdown = c.shutdown)
    (hmarkers : d.markers = c.markers)
    (hclosed : d.phase = .idle → d.state = .closed ∧ d.outbound = none) :
    d.Leaving (connected ∨ Connects es) where
  asked := hshutdown.trans hc.asked
  closed := hclosed
  marker := by rw [hmarkers, hc.marker, or_iff_left hes]

theorem move [LawfulMarkerStore σ] {c : Client σ} {t : Turn σ} {s : Step σ} {connected : Prop}
    (h : Move c t s) (hconnect : t ≠ .input .connect) (hlogout : t ≠ .input .logout)
    (hmarkers : ∀ m, t ≠ .markers m) (hc : c.Leaving connected) :
    s.1.Leaving (connected ∨ Connects s.2) := by
  cases h with
  | rest same quiet =>
      refine hc.silent quiet.not_connects same.shutdown same.markers fun hidle => ?_
      obtain ⟨hstate, houtbound⟩ := hc.closed (same.phase ▸ hidle)
      refine ⟨same.state.trans hstate, ?_⟩
      rw [← Option.isNone_iff_eq_none, ← Option.not_isSome, same.outbound, houtbound]
      rfl
  | ticked => exact hc.silent (by simp [Connects]) rfl rfl hc.closed
  | written m => exact absurd rfl (hmarkers m)
  | focused b =>
      refine ⟨hc.asked, hc.closed, ?_⟩
      rw [focus, ReconnectPolicy.load_onFocus_eq_absent_iff, hc.marker]
      simp [Connects]
  | leave => exact absurd rfl hlogout
  | «begin» => exact absurd rfl hconnect
  | opened hphase _ same =>
      refine ⟨same.shutdown.trans hc.asked, fun hidle => ?_, ?_⟩
      · rw [same.phase] at hidle
        cases hidle
      · rw [same.markers, LawfulMarkerStore.load_store]
        simp [Connects]
  | endOnRequest hends =>
      cases hends with
      | refused | lost => exact hc.silent (by simp [Connects]) rfl rfl fun _ => ⟨rfl, rfl⟩
  | endForGood hends hs | endAtOnce hends hs | endForNow hends hs =>
      cases hends <;> exact absurd (hc.asked.symm.trans hs) nofun
  | noTicket | stop | stopOpen =>
      exact hc.silent (by simp [Connects, giveUp]) rfl rfl fun _ => ⟨rfl, rfl⟩
  | ticket | elapsed => exact hc.silent (by simp [Connects, beginRound]) rfl rfl nofun

theorem run [LawfulMarkerStore σ] {c : Client σ} {ts : List (Turn σ)} {connected : Prop}
    (hconnect : .input .connect ∉ ts) (hlogout : .input .logout ∉ ts)
    (hmarkers : ∀ m, .markers m ∉ ts) (hc : c.Leaving connected) :
    (c.run ts).1.Leaving (connected ∨ Connects (c.run ts).2) := by
  induction ts generalizing c connected with
  | nil =>
      rw [or_iff_left (by simp [Connects])]
      exact hc
  | cons t rest ih =>
      rw [List.mem_cons, not_or] at hconnect hlogout
      have hnext := hc.move (move_turn c t) (Ne.symm hconnect.1) (Ne.symm hlogout.1)
        fun m h => hmarkers m (List.mem_cons.mpr (.inl h.symm))
      rw [run_cons, connects_append, ← or_assoc]
      exact ih hconnect.2 hlogout.2 (fun m h => hmarkers m (List.mem_cons_of_mem _ h)) hnext

end Leaving

/-! ## When the supervisor has ended -/

/-- There is no supervisor, and no socket is open. -/
structure Gone (c : Client σ) : Prop where
  idle : c.phase = .idle
  closed : c.state = .closed
  silent : c.outbound = none

namespace Gone

/-- A client that is gone stays so, makes no attempt at a socket and sets no marker. -/
theorem move [LawfulMarkerStore σ] {c : Client σ} {t : Turn σ} {s : Step σ} (h : Move c t s)
    (hconnect : t ≠ .input .connect) (hmarkers : ∀ m, t ≠ .markers m) (hc : c.Gone) :
    s.1.Gone ∧ (∀ e ∈ s.2, e.isAttempt = false) ∧
      (MarkerStore.load c.markers = .absent → MarkerStore.load s.1.markers = .absent) := by
  have hidle := hc.idle
  cases h with
  | rest same quiet =>
      refine ⟨⟨same.phase.trans hidle, same.state.trans hc.closed, ?_⟩, quiet.noAttempt, ?_⟩
      · rw [← Option.isNone_iff_eq_none, ← Option.not_isSome, same.outbound, hc.silent]
        rfl
      · rw [same.markers]
        exact id
  | ticked => exact ⟨⟨hidle, hc.closed, hc.silent⟩, nofun, id⟩
  | written m => exact absurd rfl (hmarkers m)
  | focused b =>
      exact ⟨⟨hidle, hc.closed, hc.silent⟩, nofun,
        (ReconnectPolicy.load_onFocus_eq_absent_iff _ _ _).mpr⟩
  | leave =>
      obtain ⟨hclosed, hsilent⟩ := logout_of_idle hidle
      refine ⟨⟨c.logout_phase.trans hidle, hclosed, hsilent⟩, nofun, fun _ => ?_⟩
      rw [logout_markers, LawfulMarkerStore.load_store]
  | «begin» => exact absurd rfl hconnect
  | noTicket _ h | ticket _ h | opened h | elapsed h | stopOpen _ h =>
      rw [hidle] at h
      cases h
  | endOnRequest hends | endForGood hends | endAtOnce hends | endForNow hends =>
      exact absurd hidle hends.phase_ne_idle
  | stop _ h =>
      rw [hidle] at h
      rcases h with h | ⟨t, h⟩ <;> cases h

theorem run [LawfulMarkerStore σ] {c : Client σ} {ts : List (Turn σ)}
    (hconnect : .input .connect ∉ ts) (hmarkers : ∀ m, .markers m ∉ ts) (hc : c.Gone) :
    (c.run ts).1.Gone ∧ (∀ e ∈ (c.run ts).2, e.isAttempt = false) ∧
      (MarkerStore.load c.markers = .absent → MarkerStore.load (c.run ts).1.markers = .absent) := by
  induction ts generalizing c with
  | nil => exact ⟨hc, nofun, id⟩
  | cons t rest ih =>
      rw [List.mem_cons, not_or] at hconnect
      obtain ⟨hgone, hnone, habsent⟩ := hc.move (move_turn c t) (Ne.symm hconnect.1)
        fun m h => hmarkers m (List.mem_cons.mpr (.inl h.symm))
      obtain ⟨hgone', hnone', habsent'⟩ :=
        ih hconnect.2 (fun m h => hmarkers m (List.mem_cons_of_mem _ h)) hgone
      refine ⟨hgone', fun e he => ?_, habsent' ∘ habsent⟩
      rw [run_cons] at he
      exact (List.mem_append.mp he).elim (hnone e) (hnone' e)

omit [MarkerStore σ] in
theorem transmit {c : Client σ} (hc : c.Gone) (store : Bool) (topic : String) (e : Event) :
    (c.transmit store topic e).1 = false := by
  rw [Client.transmit, hc.silent]

end Gone

/-- A logout has come to its end when there is no supervisor, whatever the client did before and
whatever the supervisor does until it sees the request. The marker is absent then exactly if no
connection was told in between. Whatever happens later, until someone connects again: the client is
closed, sends nothing and asks for no ticket or socket, and an absent marker stays so unless someone
else writes it. -/
theorem closed_for_good_after_logout [LawfulMarkerStore σ] (c : Client σ)
    (pending later : List (Turn σ))
    (hpending : .input .connect ∉ pending ∧ .input .logout ∉ pending ∧ ∀ m, .markers m ∉ pending)
    (hreturned : (c.logout.run pending).1.phase = .idle)
    (hlater : .input .connect ∉ later ∧ ∀ m, .markers m ∉ later) :
    let returned := c.logout.run pending
    let afterwards := returned.1.run later
    (MarkerStore.load returned.1.markers = .absent ↔ ∀ id, .tell (.connected id) ∉ returned.2) ∧
    (MarkerStore.load returned.1.markers = .absent →
      MarkerStore.load afterwards.1.markers = .absent) ∧
    afterwards.1.state = .closed ∧
    (∀ store topic e, (afterwards.1.transmit store topic e).1 = false) ∧
    ∀ e ∈ afterwards.2, e.isAttempt = false := by
  intro returned afterwards
  obtain ⟨hconnect, hlogout, hmarkers⟩ := hpending
  have hleaving : returned.1.Leaving (False ∨ Connects returned.2) :=
    (Leaving.logout c).run hconnect hlogout hmarkers
  obtain ⟨hclosed, hsilent⟩ := hleaving.closed hreturned
  have hgone : returned.1.Gone := ⟨hreturned, hclosed, hsilent⟩
  obtain ⟨hgone', hnone, habsent⟩ := hgone.run hlater.1 hlater.2
  refine ⟨?_, habsent, hgone'.closed, hgone'.transmit, hnone⟩
  rw [hleaving.marker, false_or, Connects, not_exists]

-- The request is seen while the socket is open.
example :
    let c := ((create {} Marker.absent).run
      [.input .connect, .input (.ticket (.ok ⟨"s1", "c1"⟩)), .input .opened]).1
    let returned := (c.logout.run [.input .noticed]).1
    c.markers = .active ∧ returned.phase = .idle ∧ returned.state = .closed ∧
      returned.markers = .absent := by
  decide

/-- The socket opens before the supervisor sees that it was asked to end. -/
theorem marker_active_after_logout :
    let c := ((create {} Marker.absent).run
      [.input .connect, .input (.ticket (.ok ⟨"s1", "c1"⟩))]).1
    let returned := (c.logout.run [.input .opened, .input .noticed]).1
    c.logout.markers = .absent ∧ returned.phase = .idle ∧ returned.state = .closed ∧
      returned.markers = .active := by
  decide

end Parley.Client
