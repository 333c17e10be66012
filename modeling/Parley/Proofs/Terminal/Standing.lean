import Parley.Proofs.Client.Requests
import Parley.Proofs.Frame.Canonical
import Parley.Proofs.Terminal.Handling

/-!
# What a terminal stands on

A terminal asks things of its client and picks events up from its session, and between two turns it
relies on how these are then: the client knows about its socket what there is to know, and its
session is on the topic that the terminal was started for (`Terminal.Standing`). A session only
hears of older messages on a topic that fits into a frame, since it hears of nothing on another one.
-/

namespace Parley

/-! ## Sessions on a topic -/

namespace Session

/-- The session of a terminal. It has heard of older messages only if its topic fits into a frame,
since it has heard nothing else on another topic. -/
structure Serves (o : Terminal.Options) (s : Session) : Prop where
  topic : s.topic = o.topic
  pageSize : s.pageSize = o.pageSize
  fits : s.moreAvailable = true → o.topic.utf8ByteSize ≤ Frame.maxFieldLength
  one : ∃ r, s.receivers = [r]
  roster : ∃ history, s.roster = Roster.empty.run history

namespace Serves

variable {o : Terminal.Options} {s : Session}

theorem act (h : Serves o s) {a : Act}
    (ha : a.HearsOfMore → o.topic.utf8ByteSize ≤ Frame.maxFieldLength) : Serves o (s.act a).1 where
  topic := (s.fixed_act a).1.trans h.topic
  pageSize := (s.fixed_act a).2.trans h.pageSize
  fits hmore := ((s.moreAvailable_act a).mp hmore).elim ha fun hbefore => h.fits hbefore.1
  one := by
    obtain ⟨r, hr⟩ := h.one
    rcases s.act_reports a with ⟨e, hone, -⟩ | ⟨hone, -⟩ | ⟨hone, -⟩
    · exact ⟨r.push e, by rw [hone, hr]; rfl⟩
    · exact ⟨r, hone.trans hr⟩
    · exact ⟨r.detach, by rw [hone, hr]; rfl⟩
  roster := by
    obtain ⟨history, hroster⟩ := h.roster
    exact ⟨history ++ a.rosterAct?.toList, by rw [roster_act, hroster, Roster.run_append]⟩

theorem lives (h : Serves o s) {ds : List Deed} {s' : Session} (hlives : Lives s ds s')
    (hds : ∀ d ∈ ds, d.act.HearsOfMore → o.topic.utf8ByteSize ≤ Frame.maxFieldLength) :
    Serves o s' := by
  induction hlives with
  | rest => exact h
  | act _ _ ih =>
      obtain ⟨hd, hrest⟩ := List.forall_mem_cons.mp hds
      exact ih (h.act hd) hrest

theorem create (o : Terminal.Options) (subscription : Subscription) :
    Serves o (Session.create o.topic o.pageSize subscription).1 := by
  obtain ⟨hroster, hmore, hone, htopic, hsize⟩ := create_blank o.topic o.pageSize subscription
  refine ⟨htopic, hsize, fun h => ?_, ⟨_, hone⟩, [], hroster⟩
  rw [hmore] at h
  cases h

/-- Its first event is picked up. -/
theorem takeMail (h : Serves o s) {s' : Session} {e : SessionEvent}
    (hmail : Terminal.takeMail s = some (e, s')) : Serves o s' := by
  obtain ⟨r, others, rest, hreceivers, -, rfl⟩ := Terminal.takeMail_eq_some_iff.mp hmail
  obtain ⟨r', hone⟩ := h.one
  cases hreceivers.symm.trans hone
  exact ⟨h.topic, h.pageSize, h.fits, ⟨_, rfl⟩, h.roster⟩

end Serves

end Session

namespace Client

variable {σ : Type}

/-! ## Plain turns -/

/-- A turn that makes no listener but for a session and brings no message but from the socket, while
the clock counts its seconds in 64 bits. -/
def Turn.IsPlain : Turn σ → Prop
  | .input (.addHook ..) | .input (.dispatch _) => False
  | .clock now => now.seconds < 0x8000000000000000 ∧ now.nanos < 0x100000000
  | _ => True

namespace Turn.IsPlain

variable {t : Turn σ}

theorem keepsTime (h : t.IsPlain) : t.KeepsTime := by
  cases t with
  | clock => exact h
  | input | markers => trivial

theorem ne_addHook (h : t.IsPlain) (name topic : String) (outcome : Outcome) :
    t ≠ .input (.addHook name topic outcome) := by
  rintro rfl
  exact h

theorem ne_dispatch (h : t.IsPlain) (m : Message) : t ≠ .input (.dispatch m) := by
  rintro rfl
  exact h

end Turn.IsPlain

/-- What reaches a client from outside, unlike what it is asked to do. -/
def Turn.ComesIn : Turn σ → Prop
  | .input (.ticket _) | .input .opened | .input .refused | .input (.received _) | .input .flush
  | .input .lost | .input .elapsed | .input .noticed | .markers _ => True
  | .clock now => now.seconds < 0x8000000000000000 ∧ now.nanos < 0x100000000
  | .input _ => False

theorem Turn.ComesIn.isPlain {t : Turn σ} (h : t.ComesIn) : t.IsPlain := by
  cases t with
  | clock => exact h
  | markers => trivial
  | input i => cases i <;> trivial

theorem Turn.ComesIn.not_transmit {store : Bool} {topic : String} {e : Event} :
    ¬ (Turn.input (.transmit store topic e) : Turn σ).ComesIn := id

/-- The message was brought to the session. -/
theorem mem_of_deedsHearing {i : Nat} {m : Message} {ls : List Listener} {c : Client σ}
    {d : Session.Deed} (h : d ∈ deedsHearing i m ls c) : .session i ∈ ls := by
  induction ls generalizing c with
  | nil => cases h
  | cons l rest ih =>
      rcases List.mem_append.mp h with hfirst | hrest
      · split at hfirst
        · rename_i hl
          exact hl ▸ List.mem_cons_self
        · cases hfirst
      · exact List.mem_cons_of_mem _ (ih hrest)

theorem topic_of_listener {c : Client σ} (hc : c.Registered) {i : Nat} {s : Session}
    (hs : c.sessions[i]? = some s) {topic : String}
    (h : .session i ∈ c.router.listeners topic) : s.topic = topic := by
  obtain ⟨⟨id, l⟩, hmem, hl⟩ := List.mem_map.mp h
  cases hl
  obtain ⟨j, u, hplace, -, hj⟩ := (hc.roll.entries topic id _).mp hmem
  cases hj
  rw [register, List.getElem?_map, hs] at hplace
  exact (Prod.mk.inj (Option.some.inj hplace)).1

theorem topic_fits_of_message {bytes : List UInt8} {m : Message} (h : message? bytes = some m) :
    m.topic.utf8ByteSize ≤ Frame.maxFieldLength := by
  unfold message? at h
  split at h
  · cases h
  · rename_i f hf
    split at h
    · cases h
    · split at h
      · cases h
      · obtain ⟨e, -, rfl⟩ : ∃ e, Event.decode f.action f.payload = .ok e ∧
            m = ⟨f.store, f.historical, f.timestamp, f.topic, f.sender, e⟩ := by
          unfold Message.ofFrame at h
          cases he : Event.decode f.action f.payload with
          | error _ => rw [he] at h; cases h
          | ok e => rw [he] at h; cases h; exact ⟨e, rfl, rfl⟩
        exact Frame.openTexts_fit hf (.topic, f.topic) (by simp [Frame.openTexts])

theorem topic_fits_of_heard {c : Client σ} {t : Turn σ} (ht : t.IsPlain) {m : Message}
    (h : c.heard? t = some m) : m.topic.utf8ByteSize ≤ Frame.maxFieldLength := by
  cases t with
  | clock | markers => cases h
  | input i =>
    cases i with
    | dispatch m => exact absurd rfl (ht.ne_dispatch m)
    | received bytes =>
        unfold heard? at h
        dsimp only at h
        split at h
        · exact topic_fits_of_message h
        · cases h
    | _ => cases h

/-- A session hears of older messages only on a topic that fits into a frame. -/
theorem fits_of_deed {c : Client σ} (hc : c.Registered) {i : Nat} {s : Session}
    (hs : c.sessions[i]? = some s) {t : Turn σ} (ht : t.IsPlain) :
    ∀ d ∈ c.deeds i t, d.act.HearsOfMore → s.topic.utf8ByteSize ≤ Frame.maxFieldLength := by
  intro d hd hmore
  have hnone {p : Prop} [Decidable p] {a : Session.Act} (ha : ¬ a.HearsOfMore) :
      d ∉ if p then [c.deed i a] else [] := by
    intro hmem
    split at hmem
    · rw [List.mem_singleton.mp hmem] at hmore
      exact ha hmore
    · cases hmem
  unfold deeds at hd
  split at hd
  · rename_i hheard
    rw [topic_of_listener hc hs (mem_of_deedsHearing hd)]
    exact topic_fits_of_heard ht hheard
  · exact absurd hd (hnone id)
  · exact absurd hd (hnone id)
  · cases hd

/-! ## A client that is sound -/

/-- What holds of a client between two turns if only sessions listen. -/
structure Sound (c : Client σ) : Prop where
  agrees : c.Agrees
  able : c.Able
  registered : c.Registered

/-- A session in the place of another one. -/
theorem updateSession_eq (c : Client σ) (n : Nat) (s' : Session) :
    (c.updateSession n fun _ => s') =
      { c with sessions := c.sessions.set n s', palette := c.palette } := by
  have : Inhabited Session := ⟨s'⟩
  rw [updateSession, List.modify_eq_set]

namespace Sound

variable {c : Client σ}

theorem updateSession (hc : c.Sound) {n : Nat} {s s' : Session} (hs : c.sessions[n]? = some s)
    (htopic : s'.topic = s.topic) (hsubscription : s'.subscription = s.subscription) :
    (c.updateSession n fun _ => s').Sound := by
  have haside := (Undisturbed.refl c).aside c.router (c.sessions.set n s') c.palette c.hooks
    c.called c.heartbeat
  rw [updateSession_eq]
  exact ⟨hc.agrees.undisturbed haside, hc.able.undisturbed haside,
    hc.registered.congr (sameSessions_set hs htopic hsubscription c.palette)⟩

variable [MarkerStore σ]

theorem turn (hc : c.Sound) {t : Turn σ} (ht : t.IsPlain) {s : Step σ} (hturn : c.turn t = s) :
    s.1.Sound := by
  subst hturn
  exact ⟨hc.agrees.move (move_turn c t), hc.able.move (move_turn c t) ht.keepsTime,
    hc.registered.turn ht.ne_addHook⟩

theorem create (config : ClientConfig) (markers : σ) : (Client.create config markers).Sound := by
  have hable : ((Client.create config markers).run []).1.Able :=
    able_run config markers (List.forall_mem_nil _)
  exact ⟨.create config markers, hable, .create config markers⟩

end Sound

end Client

namespace Terminal

variable {σ : Type}

/-- What can happen to a terminal: the world does nothing to its client but what reaches it from
outside. -/
def Turn.IsGenuine (u : Turn σ) : Prop := ∀ v, u.world? = some v → v.ComesIn

/-- A terminal between two turns. -/
structure Standing (t : Terminal σ) : Prop where
  client : t.client.Sound
  session : ∀ n, t.stage = .joined n →
    ∃ s, t.client.sessions[n]? = some s ∧ s.Serves t.options

namespace Standing

variable {t t' : Terminal σ}

/-- What a terminal writes on its session goes out on its topic. -/
theorem sendOn (h : t.Standing) {n : Nat} (hstage : t.stage = .joined n) (store : Bool)
    (e : Event) : t.client.sendOn n store e = t.client.transmit store t.options.topic e := by
  obtain ⟨s, hs, hserves⟩ := h.session n hstage
  rw [Client.sendOn, hs, ← hserves.topic]

/-- A terminal whose client is as before. -/
theorem same (h : t.Standing) (hclient : t'.client = t.client) (hoptions : t'.options = t.options)
    (hstage : ∀ n, t'.stage = .joined n → t.stage = .joined n) : t'.Standing where
  client := hclient ▸ h.client
  session n hjoined := by
    rw [hclient, hoptions]
    exact h.session n (hstage n hjoined)

variable [MarkerStore σ]

/-- A terminal whose client takes a turn. -/
theorem asks (h : t.Standing) {v : Client.Turn σ} (hv : v.IsPlain) {es : List ClientEffect}
    (hturn : t.client.turn v = (t'.client, es)) (hoptions : t'.options = t.options)
    (hstage : ∀ n, t'.stage = .joined n → t.stage = .joined n) : t'.Standing where
  client := h.client.turn hv hturn
  session n hjoined := by
    obtain ⟨s, hs, hserves⟩ := h.session n (hstage n hjoined)
    obtain ⟨s', hs', hlives⟩ := Client.lives_turn v hs
    rw [hturn] at hs'
    rw [hoptions]
    refine ⟨s', hs', hserves.lives hlives fun d hd hmore => ?_⟩
    rw [← hserves.topic]
    exact Client.fits_of_deed h.client.registered hs hv d hd hmore

theorem turn (h : t.Standing) {u : Turn σ} (hu : u.IsGenuine) : (t.turn u).1.Standing := by
  have hturn := t.handles_turn u
  generalize t.turn u = course at hturn ⊢
  cases hturn with
  | world told hworld => exact h.asks (hu _ hworld).isPlain rfl rfl fun _ => id
  | joins rest hstage =>
      have hclient := h.client.turn (t := .input (.openSession t.options.topic t.options.pageSize))
        trivial rfl
      refine ⟨hclient, fun n hjoined => ?_⟩
      cases hjoined
      exact ⟨_, t.client.session_opened _ _, .create _ _⟩
  | fails => exact h.same rfl rfl nofun
  | hears hstage hs hmail =>
      obtain ⟨s, hs', hserves⟩ := h.session _ hstage
      cases hs.symm.trans hs'
      obtain ⟨r, others, rest, -, -, hafter⟩ := takeMail_eq_some_iff.mp hmail
      refine ⟨h.client.updateSession hs (by rw [hafter]) (by rw [hafter]), fun n hjoined => ?_⟩
      cases hstage.symm.trans hjoined
      obtain ⟨hlt, -⟩ := List.getElem?_eq_some_iff.mp hs
      refine ⟨_, ?_, hserves.takeMail hmail⟩
      rw [Client.updateSession_eq]
      exact List.getElem?_set_self hlt
  | @asksMore n =>
      exact h.asks (v := .input (.loadMore n)) trivial rfl rfl fun _ => id
  | @sends n line text c hstage _ hsent =>
      rw [h.sendOn hstage] at hsent
      have hturn : t.client.turn
          (.input (.transmit true t.options.topic (.text ⟨text, .written⟩))) = (c, []) := by
        rw [Client.turn, Client.step, hsent]
      exact h.asks (v := .input (.transmit ..)) trivial hturn rfl fun _ => id
  | @leaves n =>
      have hclosed := h.client.turn (t := .input (.closeSession n)) trivial rfl
      exact ⟨hclosed.turn (t := .input .logout) trivial rfl, nofun⟩
  | told | ignores | rests | blank | who | noMore | cannotSend => exact h.same rfl rfl fun _ => id

theorem run (h : t.Standing) {us : List (Turn σ)} (hus : ∀ u ∈ us, u.IsGenuine) :
    (t.run us).1.Standing := by
  induction us generalizing t with
  | nil => exact h
  | cons u rest ih =>
      obtain ⟨hu, hrest⟩ := List.forall_mem_cons.mp hus
      exact ih (h.turn hu) hrest

theorem start (options : Options) (markers : σ) : (Terminal.start options markers).Standing where
  client := (Client.Sound.create options.config markers).turn (t := .input .connect)
    trivial rfl
  session := nofun

end Standing

end Terminal

end Parley
