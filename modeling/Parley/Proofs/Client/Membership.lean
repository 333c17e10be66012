import Parley.Proofs.Alternation
import Parley.Proofs.Client.Readings
import Parley.Proofs.Frame.Fitting

/-!
# The topics that the server has a client on

Frames that join a topic and frames that leave it come from three places: a session that opens, a
session that closes, and a socket that opens while sessions are live. Each decides by itself, from
what the router says. What they have in common is that a frame is sent exactly when it has changed
whether the topic has a live session (`Client.told_turn`), where a socket that opens knows of none.
So the frames of one connection are the changes in the course of that (`Client.told_run`), and
whatever is said about them is said about changes.

A frame counts when it is handed over to the socket: it is written in its turn, while the socket
lasts.
-/

namespace Parley

/-- Whether an action joins a topic or leaves it; none if it does neither. -/
def Action.joins? : Action → Option Bool
  | .subscribe => some true
  | .unsubscribe => some false
  | _ => none

def Frame.joins? (topic : String) (f : Frame) : Option Bool :=
  if f.topic = topic then f.action.joins? else none

namespace Client

variable {σ : Type}

/-! ## Joining and leaving -/

/-- The frames among texts that join a topic, and those that leave it. -/
def memberships (topic : String) (texts : List String) : List Bool :=
  texts.filterMap fun text => (Frame.decodeText text).toOption.bind (Frame.joins? topic)

@[simp] theorem memberships_nil (topic : String) : memberships topic [] = [] := rfl

@[simp] theorem memberships_append (topic : String) (texts more : List String) :
    memberships topic (texts ++ more) = memberships topic texts ++ memberships topic more :=
  readings_append texts more

/-- The memberships that wait to be written. -/
def waiting (c : Client σ) (topic : String) : List Bool :=
  memberships topic (c.outbound.getD [])

/-- The memberships that are written in a step or wait afterwards. -/
def toldBy (topic : String) (s : Step σ) : List Bool :=
  memberships topic (written s.2) ++ s.1.waiting topic

/-! ## Sending -/

/-- A client whose part of a frame fits into it. -/
structure Able (c : Client σ) : Prop where
  clock : c.now.rfc3339.utf8ByteSize ≤ Frame.maxFieldLength
  sender : (c.connectionId.getD "").utf8ByteSize ≤ Frame.maxFieldLength

theorem Able.undisturbed {c c' : Client σ} (h : Undisturbed c c') (hc : c.Able) : c'.Able where
  clock := by
    rw [h.now]
    exact hc.clock
  sender := by
    rw [h.connectionId]
    exact hc.sender

/-- Frames on another topic and frames that neither join nor leave are of no account. -/
theorem passedOver_joins {topic topic' : String} {e : Event}
    (h : topic' = topic → e.action.joins? = none) :
    Frame.PassedOver (Frame.joins? topic) topic' e := by
  intro f htopic haction
  rw [Frame.joins?, htopic, haction]
  split
  · rename_i heq
    exact h heq
  · rfl

theorem overlooks_joins (topic : String) : Overlooks (Frame.joins? topic) := by
  have hother (a : Action) (ha : a.joins? = none) (f : Frame) (hf : f.action = a) :
      f.joins? topic = none := by
    rw [Frame.joins?, hf, ha, ite_self]
  exact ⟨hother _ rfl, hother _ rfl, hother _ rfl _ rfl⟩

theorem waiting_transmit_of_joins {c : Client σ} (hc : c.Able) (houtbound : c.outbound.isSome)
    {topic : String} (htopic : topic.utf8ByteSize ≤ Frame.maxFieldLength) {e : Event} {b : Bool}
    (he : e.action.joins? = some b) (hpayload : e.payload = "") :
    (c.transmit false topic e).2.waiting topic = c.waiting topic ++ [b] := by
  have hsent : (c.transmit false topic e).1 = true := by
    refine (transmit_eq_true_iff ..).mpr ⟨houtbound, ?_⟩
    simp only [Frame.openTexts, List.forall_mem_cons, frame, hpayload]
    exact ⟨hc.clock, htopic, hc.sender, Nat.zero_le _, List.forall_mem_nil _⟩
  have hjoins : (c.frame false topic e).joins? topic = some b := (if_pos rfl).trans he
  refine (unread_transmit hsent).trans ?_
  rw [hjoins]
  rfl

/-- A topic is joined if it is among those that are. -/
theorem waiting_joinAll {topic : String} (htopic : topic.utf8ByteSize ≤ Frame.maxFieldLength)
    {topics : List String} (hnodup : topics.Nodup) {c : Client σ} (hc : c.Able)
    (houtbound : c.outbound.isSome) :
    (topics.foldl (fun c topic => (c.transmit false topic .subscribe).2) c).waiting topic =
      c.waiting topic ++ if topic ∈ topics then [true] else [] := by
  induction topics generalizing c with
  | nil => simp
  | cons first rest ih =>
      obtain ⟨hfirst, hrest⟩ := List.nodup_cons.mp hnodup
      have h := c.undisturbed_transmit false first .subscribe
      rw [List.foldl_cons, ih hrest (hc.undisturbed h) (h.outbound.trans houtbound)]
      by_cases heq : topic = first
      · subst heq
        rw [waiting_transmit_of_joins hc houtbound htopic rfl rfl]
        simp [hfirst]
      · have hother : (c.transmit false first .subscribe).2.waiting topic = c.waiting topic :=
          c.unread_transmit_of_passedOver false (passedOver_joins fun h => absurd h.symm heq)
        rw [hother]
        simp [heq]

variable [MarkerStore σ]

/-- A socket that opens joins the topics that have a live session. -/
theorem waiting_onOpened {c : Client σ} {t : Ticket} (hphase : c.phase = .opening t)
    (husable : (c.config.socketTarget? t).isSome) (hc : c.Registered)
    (hclock : c.now.rfc3339.utf8ByteSize ≤ Frame.maxFieldLength) {topic : String}
    (htopic : topic.utf8ByteSize ≤ Frame.maxFieldLength) :
    c.onOpened.1.waiting topic = if c.isMember topic then [true] else [] := by
  have hable : Able { c with connectionId := some t.connectionId, outbound := some [] } :=
    ⟨hclock, ClientConfig.connectionId_fits husable⟩
  have hjoin := waiting_joinAll htopic c.router.topics.nodup_keys hable rfl
  have hlisteners : topic ∈ c.router.topics.keys ↔ c.isMember topic = true := by
    rw [hc.roll.tidy.mem_keys_iff, hc.isMember_eq]
    simp
  rw [waiting, outbound_onOpened hphase husable]
  refine hjoin.trans ?_
  simp only [hlisteners]
  rfl

/-! ## Turns -/

/-- Topics are joined and left by sessions only, which are the only listeners, and the clock counts
its seconds in 64 bits. -/
def Turn.IsOrdinary : Turn σ → Prop
  | .input (.addHook ..) => False
  | .input (.transmit _ _ e) => e.action.joins? = none
  | .clock now => now.seconds < 0x8000000000000000 ∧ now.nanos < 0x100000000
  | _ => True

/-- The clock counts its seconds in 64 bits. -/
def Turn.KeepsTime : Turn σ → Prop
  | .clock now => now.seconds < 0x8000000000000000 ∧ now.nanos < 0x100000000
  | _ => True

omit [MarkerStore σ] in
theorem Turn.IsOrdinary.keepsTime {t : Turn σ} (h : t.IsOrdinary) : t.KeepsTime := by
  cases t with
  | clock now => exact h
  | input | markers => trivial

theorem Able.move {c : Client σ} {t : Turn σ} {s : Step σ} (h : Move c t s) (htime : t.KeepsTime)
    (hc : c.Able) : s.1.Able := by
  cases h with
  | rest same => exact hc.undisturbed same
  | ticked now => exact ⟨Stamp.rfc3339_fits htime.1 htime.2, hc.sender⟩
  | leave =>
      unfold logout
      dsimp only
      split <;> exact ⟨hc.clock, hc.sender⟩
  | opened _ husable same =>
      constructor
      · rw [same.now]
        exact hc.clock
      · rw [same.connectionId]
        exact ClientConfig.connectionId_fits husable
  | endOnRequest hends | endForGood hends | endAtOnce hends | endForNow hends =>
      cases hends <;> exact ⟨hc.clock, hc.sender⟩
  | _ => exact ⟨hc.clock, hc.sender⟩

/-- Whatever a client that was created goes through, its part of a frame fits. -/
theorem able_run (config : ClientConfig) (markers : σ) {ts : List (Turn σ)}
    (htime : ∀ t ∈ ts, t.KeepsTime) : ((create config markers).run ts).1.Able := by
  have hstart : (create config markers).Able :=
    ⟨Stamp.rfc3339_fits (t := default) (by decide) (by decide), Nat.zero_le _⟩
  exact run_induction ts hstart fun c t s ht hmove hc => hc.move hmove (htime t ht)

/-- A socket that stays open keeps its texts. -/
theorem isSome_outbound_move {c : Client σ} {t : Turn σ} {s : Step σ} (h : Move c t s)
    (hrunning : c.phase.isRunning = true) (houtbound : c.outbound.isSome) :
    s.1.phase.isRunning = true → s.1.outbound.isSome := by
  cases h with
  | rest same => exact fun _ => same.outbound.trans houtbound
  | ticked | written | focused => exact fun _ => houtbound
  | leave =>
      intro _
      unfold logout
      dsimp only
      split
      · rename_i hidle
        rw [hidle] at hrunning
        cases hrunning
      · exact houtbound
  | opened hphase =>
      rw [hphase] at hrunning
      cases hrunning
  | _ => nofun

/-- A client with a socket whose listeners were made by sessions and whose part of a frame fits. -/
structure Online (c : Client σ) : Prop where
  registered : c.Registered
  able : c.Able
  socket : c.outbound.isSome

/-- A socket that stays open keeps a client online. -/
theorem Online.turn {c : Client σ} {t : Turn σ} (hordinary : t.IsOrdinary) (hc : c.Online)
    (hrunning : c.phase.isRunning = true) (hafter : (c.turn t).1.phase.isRunning = true) :
    (c.turn t).1.Online where
  registered := hc.registered.turn (by rintro name topic outcome rfl; exact hordinary)
  able := hc.able.move (move_turn c t) hordinary.keepsTime
  socket := isSome_outbound_move (move_turn c t) hrunning hc.socket hafter

/-- Only the opening and the closing of a session is told. -/
theorem toldBy_turn_of_aside {c : Client σ} {t : Turn σ} (topic : String)
    (hordinary : t.IsOrdinary) (hkeeps : t.keepsSessions = true) (hc : c.Registered)
    (hrunning : c.phase.isRunning = true) (hafter : (c.turn t).1.phase.isRunning = true) :
    toldBy topic (c.turn t) = c.waiting topic := by
  refine readBy_turn_of_aside (overlooks_joins topic) ?_ hkeeps hc hrunning hafter
  rintro store topic' e rfl
  exact passedOver_joins fun _ => hordinary

omit [MarkerStore σ] in
/-- A session that opens joins its topic if it is the first one there. -/
theorem waiting_openSession {c : Client σ} (hc : c.Online) {topic : String}
    (htopic : topic.utf8ByteSize ≤ Frame.maxFieldLength) (topic' : String) (pageSize : UInt32) :
    (c.openSession topic' pageSize).2.waiting topic =
      c.waiting topic ++
        changes (c.isMember topic) [(c.openSession topic' pageSize).2.isMember topic] := by
  obtain ⟨router, sessions, -, hjoined, hother, heq⟩ := hc.registered.openSession topic' pageSize
  have hable : Able { c with router, sessions } := ⟨hc.able.clock, hc.able.sender⟩
  rw [heq, isMember_congr (sameSessions_transmitAll ..)]
  by_cases htopic' : topic' = topic
  · subst htopic'
    rw [hjoined]
    cases c.isMember topic' with
    | false => exact waiting_transmit_of_joins hable hc.socket htopic rfl rfl
    | true =>
        refine (unread_transmitAll_of_passedOver _ ?_).trans (List.append_nil _).symm
        exact List.forall_mem_singleton.mpr (passedOver_joins fun _ => rfl)
  · rw [hother topic (Ne.symm htopic')]
    refine (unread_transmitAll_of_passedOver _ fun _ _ =>
      passedOver_joins fun h => absurd h htopic').trans ?_
    simp [changes, waiting, memberships, unread, readings]

omit [MarkerStore σ] in
/-- A session that closes leaves its topic if it was the last one there. -/
theorem waiting_closeSession {c : Client σ} (hc : c.Online) {topic : String}
    (htopic : topic.utf8ByteSize ≤ Frame.maxFieldLength) (index : Nat) :
    (c.closeSession index).waiting topic =
      c.waiting topic ++ changes (c.isMember topic) [(c.closeSession index).isMember topic] := by
  rcases hc.registered.closeSession index with
    heq | ⟨router, sessions, topic', -, hleft, hother, heq⟩
  · rw [heq]
    simp [changes]
  have hable : Able { c with router, sessions } := ⟨hc.able.clock, hc.able.sender⟩
  rw [heq, isMember_congr (sameSessions_transmitAll ..)]
  by_cases htopic' : topic' = topic
  · subst htopic'
    rw [hleft]
    cases Client.isMember { c with router, sessions } topic' with
    | false => exact waiting_transmit_of_joins hable hc.socket htopic rfl rfl
    | true => exact (List.append_nil _).symm
  · rw [hother topic (Ne.symm htopic')]
    refine (unread_transmitAll_of_passedOver _ fun _ _ =>
      passedOver_joins fun h => absurd h htopic').trans ?_
    simp [changes, waiting, memberships, unread, readings]

/-- A frame is told in a turn if it has changed whether the topic has a live session. -/
theorem told_turn {c : Client σ} {t : Turn σ} {topic : String} (hordinary : t.IsOrdinary)
    (hc : c.Online) (htopic : topic.utf8ByteSize ≤ Frame.maxFieldLength)
    (hrunning : c.phase.isRunning = true) (hafter : (c.turn t).1.phase.isRunning = true) :
    toldBy topic (c.turn t) =
      c.waiting topic ++ changes (c.isMember topic) [(c.turn t).1.isMember topic] := by
  cases hkeeps : t.keepsSessions with
  | true =>
    rw [toldBy_turn_of_aside topic hordinary hkeeps hc.registered hrunning hafter,
      isMember_congr (hc.registered.sameSessions_turn hkeeps)]
    simp [changes]
  | false =>
    rcases Turn.of_keepsSessions_eq_false hkeeps with
      ⟨name, topic', outcome, rfl⟩ | ⟨topic', pageSize, rfl⟩ | ⟨index, rfl⟩
    · cases hordinary
    · exact waiting_openSession hc htopic topic' pageSize
    · exact waiting_closeSession hc htopic index

/-! ## Connections -/

/-- Whether a session on the topic is live, at first and after each turn. -/
def moments (c : Client σ) (topic : String) : List (Turn σ) → List Bool
  | [] => [c.isMember topic]
  | t :: rest => c.isMember topic :: (c.turn t).1.moments topic rest

theorem getLast?_moments (c : Client σ) (topic : String) (ts : List (Turn σ)) :
    (c.moments topic ts).getLast? = some ((c.run ts).1.isMember topic) := by
  induction ts generalizing c with
  | nil => rfl
  | cons t rest ih => rw [moments, List.getLast?_cons, ih, Option.getD_some, run_cons]

theorem mem_moments_iff {c : Client σ} {topic : String} {ts : List (Turn σ)} {b : Bool} :
    b ∈ c.moments topic ts ↔ ∃ done, done <+: ts ∧ (c.run done).1.isMember topic = b := by
  induction ts generalizing c with
  | nil => simp [moments, eq_comm]
  | cons t rest ih =>
      simp only [moments, List.mem_cons, ih, List.prefix_cons_iff]
      constructor
      · rintro (rfl | ⟨done, hdone, rfl⟩)
        · exact ⟨[], .inl rfl, rfl⟩
        · exact ⟨t :: done, .inr ⟨done, rfl, hdone⟩, rfl⟩
      · rintro ⟨_, rfl | ⟨done, rfl, hdone⟩, rfl⟩
        · exact .inl rfl
        · exact .inr ⟨done, hdone, rfl⟩

theorem exists_moments_cons (c : Client σ) (topic : String) (ts : List (Turn σ)) :
    ∃ later, c.moments topic ts = c.isMember topic :: later := by
  cases ts <;> exact ⟨_, rfl⟩

/-- While a socket stays open, the frames that are told are the changes. -/
theorem told_run {c : Client σ} {ts : List (Turn σ)} {topic : String}
    (hordinary : ∀ t ∈ ts, t.IsOrdinary) (hc : c.Online)
    (htopic : topic.utf8ByteSize ≤ Frame.maxFieldLength)
    (hrunning : ∀ done, done <+: ts → (c.run done).1.phase.isRunning = true) :
    toldBy topic (c.run ts) = c.waiting topic ++ changes (c.isMember topic) (c.moments topic ts) ∧
      (c.run ts).1.outbound.isSome := by
  induction ts generalizing c with
  | nil => exact ⟨by simp [toldBy, written, moments, changes], hc.socket⟩
  | cons t rest ih =>
      obtain ⟨ht, hrest⟩ := List.forall_mem_cons.mp hordinary
      have hfirst : c.phase.isRunning = true := hrunning [] (List.nil_prefix)
      have hafter : (c.turn t).1.phase.isRunning = true :=
        hrunning [t] (List.prefix_cons_inj t |>.mpr List.nil_prefix)
      obtain ⟨htold, hopen⟩ := ih hrest (hc.turn ht hfirst hafter)
        fun done hdone => hrunning (t :: done) ((List.prefix_cons_inj t).mpr hdone)
      refine ⟨?_, hopen⟩
      have hturn := told_turn ht hc htopic hfirst hafter
      rw [toldBy] at htold hturn ⊢
      obtain ⟨later, hlater⟩ := exists_moments_cons (c.turn t).1 topic rest
      rw [hlater, changes_self_cons] at htold
      rw [run_cons, written_append, memberships_append, List.append_assoc, moments,
        changes_self_cons, hlater, changes_cons]
      dsimp only
      rw [htold, ← List.append_assoc, hturn, List.append_assoc]

/-- From the opening of a socket on, the frames that are told are the changes from no session. -/
theorem told_connection {c : Client σ} {ts : List (Turn σ)} {topic : String} (hc : c.Registered)
    (hable : c.Able) (htopic : topic.utf8ByteSize ≤ Frame.maxFieldLength)
    (hbefore : c.phase.isRunning = false) (hordinary : ∀ t ∈ ts, t.IsOrdinary)
    (hrunning : ∀ done, done <+: ts →
      ((c.turn (.input .opened)).1.run done).1.phase.isRunning = true) :
    let opened := (c.turn (.input .opened)).1
    toldBy topic (opened.run ts) = changes false (opened.moments topic ts) ∧
      (opened.run ts).1.outbound.isSome := by
  intro opened
  obtain ⟨t, hphase, husable⟩ := opening_of_opens hbefore (hrunning [] List.nil_prefix)
  have honline : opened.Online := by
    refine ⟨hc.turn (by rintro _ _ _ ⟨⟩), hable.move (move_turn c (.input .opened)) trivial, ?_⟩
    change c.onOpened.1.outbound.isSome = true
    rw [outbound_onOpened hphase husable, (undisturbed_resubscribe _).outbound]
    rfl
  have hwaiting : opened.waiting topic = changes false [opened.isMember topic] := by
    have hmember : opened.isMember topic = c.isMember topic :=
      isMember_congr (hc.sameSessions_turn (t := .input .opened) rfl) topic
    rw [hmember]
    refine (waiting_onOpened hphase husable hc hable.clock htopic).trans ?_
    cases c.isMember topic <;> rfl
  obtain ⟨htold, hopen⟩ := told_run hordinary honline htopic hrunning
  refine ⟨?_, hopen⟩
  obtain ⟨later, hlater⟩ := exists_moments_cons opened topic ts
  rw [htold, hwaiting, hlater, changes_self_cons, ← changes_cons]

/-- Up to a connection, sessions are registered and frames fit. -/
theorem sound_run (config : ClientConfig) (markers : σ) (ts : List (Turn σ))
    (hordinary : ∀ t ∈ ts, t.IsOrdinary) :
    ((create config markers).run ts).1.Registered ∧ ((create config markers).run ts).1.Able := by
  constructor
  · exact (Registered.create config markers).run fun name topic outcome ht => hordinary _ ht
  · exact able_run config markers fun t ht => (hordinary t ht).keepsTime

/-- A connection: a socket opens after `before` and stays open for as long as `during` goes on. On a
topic that fits into a frame, the frames that join it and those that leave it, written or waiting to
be, strictly alternate and begin with one that joins it. The last one joins it exactly if a session
on the topic is live, and there is none exactly if no session was live at any time since the socket
opened. -/
theorem memberships_follow_sessions (config : ClientConfig) (markers : σ)
    (before during : List (Turn σ)) (topic : String)
    (hordinary : ∀ t ∈ before ++ during, t.IsOrdinary)
    (htopic : topic.utf8ByteSize ≤ Frame.maxFieldLength)
    (hbefore : ((create config markers).run before).1.phase.isRunning = false)
    (hduring : ∀ done, done <+: during →
      ((create config markers).run (before ++ .input .opened :: done)).1.phase.isRunning = true) :
    let opened := ((create config markers).run (before ++ [.input .opened])).1
    let c := (opened.run during).1
    ∃ waiting, c.outbound = some waiting ∧
      let sent := memberships topic (written (opened.run during).2 ++ waiting)
      Alternates true sent ∧
      (sent.getLast? = some true ↔ ∃ s ∈ c.sessions, s.topic = topic ∧ s.isLive = true) ∧
      (sent = [] ↔ ∀ done, done <+: during →
        ∀ s ∈ (opened.run done).1.sessions, ¬(s.topic = topic ∧ s.isLive = true)) := by
  intro opened c
  have hopened : opened = (((create config markers).run before).1.turn (.input .opened)).1 := by
    simp only [opened, run_append, run_cons, run_nil]
  have hrunning (done : List (Turn σ)) (hdone : done <+: during) :
      (opened.run done).1.phase.isRunning = true := by
    have h := hduring done hdone
    rwa [run_append, run_cons, ← hopened] at h
  obtain ⟨hregistered, hable⟩ := sound_run config markers before fun t ht =>
    hordinary t (List.mem_append_left _ ht)
  obtain ⟨htold, houtbound⟩ := told_connection hregistered hable htopic hbefore
    (fun t ht => hordinary t (List.mem_append_right _ ht)) (hopened ▸ hrunning)
  rw [← hopened] at htold houtbound
  obtain ⟨waiting, hwaiting⟩ := Option.isSome_iff_exists.mp houtbound
  refine ⟨waiting, hwaiting, ?_⟩
  intro sent
  have hsent : sent = changes false (opened.moments topic during) := by
    rw [← htold, toldBy, Client.waiting, hwaiting, Option.getD_some, ← memberships_append]
  have hlast := getLast?_changes false (opened.moments topic during)
  rw [← hsent, getLast?_moments, Option.getD_some] at hlast
  refine ⟨?_, ?_, ?_⟩
  · rw [hsent]
    exact alternates_changes false _
  · rw [← isMember_iff_exists, ← hlast]
    cases sent.getLast? <;> simp
  · rw [hsent, changes_eq_nil_iff]
    constructor
    · intro hnone done hdone s hs hlive
      have hmember := hnone _ (mem_moments_iff.mpr ⟨done, hdone, rfl⟩)
      rw [isMember_iff_exists.mpr ⟨s, hs, hlive⟩] at hmember
      cases hmember
    · intro hnone b hb
      obtain ⟨done, hdone, rfl⟩ := mem_moments_iff.mp hb
      rw [Bool.eq_false_iff, ne_eq, isMember_iff_exists]
      rintro ⟨s, hs, hlive⟩
      exact hnone done hdone s hs hlive

/-- One session is live when the socket opens; another one is opened, and both are closed. -/
theorem memberships_follow_sessions_room :
    let before : List (Turn Marker) :=
      [.input (.openSession "room" 10), .input .connect, .input (.ticket (.ok ⟨"s1", "c1"⟩))]
    let during : List (Turn Marker) :=
      [.input (.openSession "room" 5), .input (.closeSession 0), .input (.closeSession 1)]
    let opened := ((create {} Marker.absent).run (before ++ [.input .opened])).1
    let c := (opened.run during).1
    (∀ t ∈ before ++ during, t.IsOrdinary) ∧
    (∀ done, done <+: during → (opened.run done).1.phase.isRunning = true) ∧
    ∃ waiting, c.outbound = some waiting ∧
      let sent := memberships "room" (written (opened.run during).2 ++ waiting)
      Alternates true sent ∧ sent ≠ [] ∧ sent.getLast? ≠ some true := by
  intro before during opened c
  have hordinary : ∀ t ∈ before ++ during, t.IsOrdinary := by
    simp [before, during, Turn.IsOrdinary]
  have hrunning : ∀ done, done <+: during →
      ((create {} Marker.absent).run (before ++ .input .opened :: done)).1.phase.isRunning =
        true := by
    intro done hdone
    simp only [during, List.prefix_cons_iff, List.prefix_nil] at hdone
    rcases hdone with rfl | ⟨_, rfl, rfl | ⟨_, rfl, rfl | ⟨_, rfl, rfl⟩⟩⟩ <;> decide +kernel
  obtain ⟨waiting, hwaiting, halternates, hlast, hnone⟩ :=
    memberships_follow_sessions {} Marker.absent before during "room" hordinary (by decide)
      (by decide) hrunning
  have hopened : opened = (((create {} Marker.absent).run before).1.turn (.input .opened)).1 := by
    simp only [opened, run_append, run_cons, run_nil]
  have hfirst : opened.isMember "room" = true := by decide +kernel
  have hafter : ¬ c.isMember "room" = true := by decide +kernel
  rw [isMember_iff_exists] at hfirst hafter
  refine ⟨hordinary, fun done hdone => ?_, waiting, hwaiting, halternates, fun hempty => ?_,
    mt hlast.mp hafter⟩
  · have h := hrunning done hdone
    rwa [run_append, run_cons, ← hopened] at h
  · obtain ⟨s, hs, hlive⟩ := hfirst
    exact hnone.mp hempty [] List.nil_prefix s hs hlive

end Client

end Parley
