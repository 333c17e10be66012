import Parley.Proofs.Call.Pings
import Parley.Proofs.Client.Life

/-!
# What a session reports, and who listens to it

Whoever opens a session gets the stream of its reports. A session takes itself for subscribed when
its subscription is acknowledged, and reports that; the first session on a topic does so in no other
way, so that its stream says whether it is subscribed (`Session.Frank`). A later session finds the
client on the topic already: it is subscribed from the beginning, and says nothing of it. An agent
that is fed with its stream does not know that it is, and asks nobody whether they stream until an
acknowledgement is heard, which may be never (`Agent.pings_of_session`).
-/

namespace Parley

/-! ## Receivers -/

/-- What was reported stays reported, and nothing is added once the stream is over. -/
structure Receiver.Grows (r r' : Receiver) : Prop where
  mailbox : r.mailbox <+: r'.mailbox
  ended : r.attached = false → r' = r

namespace Receiver.Grows

theorem refl (r : Receiver) : r.Grows r := ⟨List.prefix_refl _, fun _ => rfl⟩

theorem trans {r r' r'' : Receiver} (h : r.Grows r') (h' : r'.Grows r'') : r.Grows r'' where
  mailbox := h.mailbox.trans h'.mailbox
  ended hended := by
    have hsame := h.ended hended
    rw [h'.ended (hsame ▸ hended), hsame]

theorem push (e : SessionEvent) (r : Receiver) : r.Grows (r.push e) := by
  unfold Receiver.push
  split
  · exact refl r
  · rename_i hattached
    have hnot : r.attached ≠ false := by simpa using hattached
    split
    · exact ⟨List.prefix_refl _, fun h => absurd h hnot⟩
    · exact ⟨List.prefix_append _ _, fun h => absurd h hnot⟩

theorem detach (r : Receiver) : r.Grows r.detach where
  mailbox := List.prefix_refl _
  ended h := by
    rw [Receiver.detach, ← h]

end Receiver.Grows

namespace Session

/-- What the session has reported to whoever opened it. -/
def stream (s : Session) : List SessionEvent :=
  match s.receivers with
  | [] => []
  | r :: _ => r.mailbox

/-! ## What an act reports -/

/-- A session reports something of whatever it hears, and takes itself for subscribed when it
reports that. -/
theorem hear_reports (me : Option String) (palette : Palette) (m : Message) (s : Session) :
    ∃ e, (s.hear me palette m).1.receivers = s.receivers.map (Receiver.push e) ∧
      ((s.hear me palette m).1.subscribed = true ↔ s.subscribed = true ∨ e = .subscribed) := by
  unfold hear
  split
  · exact ⟨.subscribed, rfl, by simp [emit]⟩
  · dsimp only
    split <;> exact ⟨_, rfl, by simp [emit]⟩
  · exact ⟨_, rfl, by simp [emit]⟩
  · exact ⟨_, rfl, by simp [emit]⟩
  · exact ⟨_, rfl, by simp [emit]⟩

theorem act_reports (s : Session) (a : Act) :
    (∃ e, (s.act a).1.receivers = s.receivers.map (Receiver.push e) ∧
      ((s.act a).1.subscribed = true ↔ s.subscribed = true ∨ e = .subscribed)) ∨
    ((s.act a).1.receivers = s.receivers ∧ (s.act a).1.subscribed = s.subscribed) ∨
    ((s.act a).1.receivers = s.receivers.map Receiver.detach ∧
      (s.act a).1.subscribed = s.subscribed) := by
  cases a with
  | hears me palette m => exact .inl (s.hear_reports me palette m)
  | asksMore => exact .inr (.inl ⟨rfl, rfl⟩)
  | closes =>
      unfold act
      dsimp only
      split
      · exact .inr (.inl ⟨rfl, rfl⟩)
      · exact .inr (.inr ⟨rfl, rfl⟩)

/-- A session that reports to the one who opened it. As long as it does, it is subscribed if it has
reported so, or from the beginning if it was opened later than another one. -/
structure Frank (later : Prop) (s : Session) (r : Receiver) : Prop where
  one : s.receivers = [r]
  held : r.dropped = false
  flag : r.attached = true → (s.subscribed = true ↔ later ∨ .subscribed ∈ r.mailbox)

namespace Frank

variable {later : Prop} {s s' : Session} {r : Receiver} {ds : List Deed}

theorem stream_eq (h : Frank later s r) : s.stream = r.mailbox := by
  rw [stream, h.one]

theorem create (topic : String) (pageSize : UInt32) (subscription : Subscription) :
    Frank (subscription.first = false) (Session.create topic pageSize subscription).1 {} := by
  unfold Session.create
  dsimp only
  split
  · rename_i hfirst
    exact ⟨rfl, rfl, fun _ => iff_of_false Bool.false_ne_true (by simp [hfirst])⟩
  · rename_i hlater
    exact ⟨rfl, rfl, fun _ => iff_of_true rfl (.inl (by simpa using hlater))⟩

theorem act (h : Frank later s r) (a : Act) :
    ∃ r', Frank later (s.act a).1 r' ∧ r.Grows r' := by
  rcases s.act_reports a with ⟨e, hone, hflag⟩ | ⟨hone, hflag⟩ | ⟨hone, hflag⟩
  · refine ⟨r.push e, ⟨by rw [hone, h.one]; rfl, ?_, fun hattached => ?_⟩, .push e r⟩
    · unfold Receiver.push
      split
      · exact h.held
      · split <;> exact h.held
    · by_cases hr : r.attached = true
      · have hpush : r.push e = { r with mailbox := r.mailbox ++ [e] } := by
          rw [Receiver.push, if_neg (by simp [hr]), if_neg (by simp [h.held])]
        rw [hpush, hflag, h.flag hr, List.mem_append, List.mem_singleton, or_assoc,
          eq_comm (a := e)]
      · -- The stream is over, and it stays so.
        have hr : r.attached = false := by simpa using hr
        rw [(Receiver.Grows.push e r).ended hr, hr] at hattached
        cases hattached
  · exact ⟨r, ⟨hone.trans h.one, h.held, by rw [hflag]; exact h.flag⟩, .refl r⟩
  · exact ⟨r.detach, ⟨by rw [hone, h.one]; rfl, h.held, nofun⟩, .detach r⟩

theorem lives (h : Frank later s r) (hlives : Lives s ds s') :
    ∃ r', Frank later s' r' ∧ r.Grows r' := by
  refine hlives.induct (motive := fun s => ∃ r', Frank later s r' ∧ r.Grows r')
    ⟨r, h, .refl r⟩ fun s a ⟨r', hr', hgrows⟩ => ?_
  obtain ⟨r'', hr'', hgrows'⟩ := hr'.act a
  exact ⟨r'', hr'', hgrows.trans hgrows'⟩

/-- A session that is subscribed and goes on to report has reported the acknowledgement, unless it
was opened later. -/
theorem acknowledged (h : Frank later s r) {r' : Receiver} (hgrows : r.Grows r')
    (hsubscribed : s.subscribed = true) (hmore : r.mailbox.length < r'.mailbox.length) :
    later ∨ .subscribed ∈ s.stream := by
  cases hr : r.attached with
  | true =>
      rw [h.stream_eq]
      exact (h.flag hr).mp hsubscribed
  | false =>
      rw [hgrows.ended hr] at hmore
      exact absurd hmore (Nat.lt_irrefl _)

end Frank

end Session

namespace Client

variable {σ : Type}

/-- What a session has reported to whoever opened it. -/
def stream (c : Client σ) (i : Nat) : List SessionEvent :=
  match c.sessions[i]? with
  | none => []
  | some s => s.stream

/-- Whether a session takes itself for subscribed. -/
def isSubscribed (c : Client σ) (i : Nat) : Bool := c.sessions[i]?.any (·.subscribed)

variable [MarkerStore σ]

omit [MarkerStore σ] in
/-- A session is opened later if its topic has listeners. -/
theorem frank_opened (c : Client σ) (topic : String) (pageSize : UInt32) :
    ∃ s, (c.openSession topic pageSize).2.sessions[(c.openSession topic pageSize).1]? = some s ∧
      s.Frank (c.router.listeners topic ≠ []) {} := by
  refine ⟨_, c.session_opened topic pageSize, ?_⟩
  have h := Session.Frank.create topic pageSize
    (c.router.subscribe topic (.session c.sessions.length)).1
  have hlater : (c.router.subscribe topic (.session c.sessions.length)).1.first = false ↔
      c.router.listeners topic ≠ [] := by
    rw [Router.listeners, ne_eq, List.map_eq_nil_iff]
    exact List.isEmpty_eq_false_iff
  rwa [hlater] at h

section Frank

variable {c : Client σ} {i : Nat} {later : Prop} {s : Session} {r : Receiver}

omit [MarkerStore σ] in
theorem stream_of_frank (hs : c.sessions[i]? = some s) (h : s.Frank later r) :
    c.stream i = r.mailbox := by
  rw [stream, hs]
  exact h.stream_eq

theorem frank_run (ts : List (Turn σ)) (hs : c.sessions[i]? = some s) (h : s.Frank later r) :
    ∃ s' r', (c.run ts).1.sessions[i]? = some s' ∧ s'.Frank later r' ∧ r.Grows r' := by
  obtain ⟨s', hs', hlives⟩ := lives_run ts hs
  obtain ⟨r', hr', hgrows⟩ := h.lives hlives
  exact ⟨s', r', hs', hr', hgrows⟩

/-- What a session that takes itself for subscribed reports in a turn, it reports after the
acknowledgement, unless it was opened later than another one. -/
theorem acknowledged_before (hs : c.sessions[i]? = some s) (h : s.Frank later r)
    (done rest : List (Turn σ)) (t : Turn σ) {k : Nat}
    (hsubscribed : (c.run done).1.isSubscribed i = true)
    (hold : ((c.run done).1.stream i).length ≤ k)
    (hnew : k < ((c.run (done ++ [t])).1.stream i).length) :
    later ∨ .subscribed ∈ ((c.run (done ++ t :: rest)).1.stream i).take k := by
  obtain ⟨s₁, r₁, hs₁, hfrank₁, -⟩ := frank_run done hs h
  obtain ⟨s₂, r₂, hs₂, hfrank₂, hgrows₂⟩ := frank_run [t] hs₁ hfrank₁
  obtain ⟨s₃, r₃, hs₃, hfrank₃, hgrows₃⟩ := frank_run rest hs₂ hfrank₂
  have hturn : (c.run (done ++ [t])).1 = ((c.run done).1.run [t]).1 := by rw [run_append]
  have hend : (c.run (done ++ t :: rest)).1 = (((c.run done).1.run [t]).1.run rest).1 := by
    rw [List.append_cons, run_append, hturn]
  rw [stream_of_frank hs₁ hfrank₁] at hold
  rw [hturn, stream_of_frank hs₂ hfrank₂] at hnew
  rw [isSubscribed, hs₁] at hsubscribed
  rw [hend, stream_of_frank hs₃ hfrank₃]
  refine (hfrank₁.acknowledged hgrows₂ hsubscribed (by omega)).imp id fun hmem => ?_
  rw [hfrank₁.stream_eq] at hmem
  obtain ⟨added, hadded⟩ := (hgrows₂.trans hgrows₃).mailbox
  rw [← hadded, List.take_append, List.take_of_length_le hold]
  exact List.mem_append_left _ hmem

end Frank

end Client

namespace Agent

variable {κ : Type} [Connection κ] {σ : Type} [MarkerStore σ]

/-- An agent that is given a stream and nothing else was told of the stream. -/
theorem heard_map_session (s : Setting κ) (es : List SessionEvent) :
    heard (es.map fun e => (s, Turn.session e)) = es := by
  simp [heard, List.flatMap_map, Turn.tells]

/-- An agent asks its topic at most once, whatever happens. As long as its call is not torn down, it
has asked exactly if it was told of a roster with someone else on it, and of the acknowledgement
before. Now let it be fed with the stream of a session, from when that is opened and whatever its
client goes through. When the session was the first listener of its topic, or has told of the
acknowledgement before, the agent has asked as soon as it was told of a roster with someone else on
it that the session reported while it took itself for subscribed. -/
theorem pings_of_session (c : Client σ) (topic : String) (pageSize : UInt32)
    (ts : List (Client.Turn σ)) (history : List (Setting κ × Turn κ)) :
    let i := (c.openSession topic pageSize).1
    let opened := (c.openSession topic pageSize).2
    let asked := pings (({} : Agent κ).run history).2
    asked ≤ 1 ∧
    ((∀ p ∈ history, p.2.endsCall = false) →
      (asked = 1 ↔ ∃ k r, (heard history)[k]? = some (.rosterUpdated r) ∧ 2 ≤ r.size ∧
        .subscribed ∈ (heard history).take k) ∧
      (heard history <+: (opened.run ts).1.stream i →
        ∀ done t rest k r, ts = done ++ t :: rest →
          (opened.run done).1.isSubscribed i = true →
          ((opened.run done).1.stream i).length ≤ k →
          k < ((opened.run (done ++ [t])).1.stream i).length →
          (heard history)[k]? = some (.rosterUpdated r) → 2 ≤ r.size →
          c.router.listeners topic = [] ∨ .subscribed ∈ (heard history).take k → asked = 1)) := by
  intro i opened asked
  refine ⟨pings_le_one history, fun halive => ?_⟩
  have hasked : asked = 1 ↔ Joined (heard history) := pings_eq_one_iff halive
  rw [joined_iff] at hasked
  refine ⟨hasked, fun hfed done t rest k r hts hsubscribed hold hnew hroster hsize htold => ?_⟩
  refine hasked.mpr ⟨k, r, hroster, hsize, ?_⟩
  rcases htold with hfirst | htold
  · obtain ⟨s, hs, hfrank⟩ := Client.frank_opened c topic pageSize
    rcases Client.acknowledged_before hs hfrank done rest t hsubscribed hold hnew with hlater | hmem
    · exact absurd hfirst hlater
    · -- What the agent was told of so far is what the session reported so far.
      obtain ⟨hk, -⟩ := List.getElem?_eq_some_iff.mp hroster
      obtain ⟨untold, huntold⟩ := hfed
      subst hts
      rwa [← huntold, List.take_append_of_le_length (Nat.le_of_lt hk)] at hmem
  · exact htold

/-- The first session on a topic hears the acknowledgement, and then of two participants. -/
theorem pings_of_session_first :
    let c := ((Client.create {} Marker.absent).run
      [.input .connect, .input (.ticket (.ok ⟨"s1", "c1"⟩)), .input .opened]).1
    let opened := (c.openSession "room" 10).2
    let acknowledged : Client.Turn Marker := .input (.received
      (Text.bytes "00001800001f00001f0000000004room00002c100000"))
    let roster : Client.Turn Marker := .input (.received (Text.bytes
      "000021000001f00001f0000000004room00002c100035\x7b\"p\":\x7b\"scid\":\"p\"\x7d,\"q\":\x7b\"scid\":\"q\"\x7d\x7d"))
    let ts := [acknowledged, roster]
    let stream := (opened.run ts).1.stream 0
    let s : Setting := ⟨some "c1", fun _ => none, 0⟩
    let history := stream.map fun e => (s, Turn.session e)
    (∀ p ∈ history, p.2.endsCall = false) ∧ heard history <+: stream ∧
      pings (({} : Agent).run history).2 = 1 := by
  intro c opened acknowledged roster ts stream s history
  have halive : ∀ p ∈ history, p.2.endsCall = false := by
    intro p hp
    obtain ⟨e, -, rfl⟩ := List.mem_map.mp hp
    rfl
  have hheard : heard history = stream := heard_map_session s stream
  have hfed : heard history <+: stream := ⟨[], by rw [List.append_nil, hheard]⟩
  refine ⟨halive, hfed, ?_⟩
  let r : Roster := (opened.run ts).1.sessions[0]?.elim {} (·.roster)
  have hreports : stream[1]? = some (.rosterUpdated r) ∧ 2 ≤ r.size ∧
      (opened.run [acknowledged]).1.isSubscribed 0 = true ∧
      ((opened.run [acknowledged]).1.stream 0).length ≤ 1 ∧ 1 < stream.length ∧
      c.router.listeners "room" = [] := by
    decide +kernel
  obtain ⟨hroster, hsize, hsubscribed, hold, hnew, hfirst⟩ := hreports
  obtain ⟨-, hasked⟩ := pings_of_session c "room" 10 ts history
  exact (hasked halive).2 hfed [acknowledged] roster [] 1 r rfl hsubscribed hold hnew
    (hheard ▸ hroster) hsize (.inl hfirst)

/-- A second session on the topic takes itself for subscribed and hears of two participants. -/
theorem unasked_in_later_session :
    let c := ((Client.create {} Marker.absent).run
      [.input .connect, .input (.ticket (.ok ⟨"s1", "c1"⟩)), .input .opened,
        .input (.openSession "room" 10), .input (.received
          (Text.bytes "00001800001f00001f0000000004room00002c100000"))]).1
    let opened := (c.openSession "room" 10).2
    let roster : Client.Turn Marker := .input (.received (Text.bytes
      "000021000001f00001f0000000004room00002c100035\x7b\"p\":\x7b\"scid\":\"p\"\x7d,\"q\":\x7b\"scid\":\"q\"\x7d\x7d"))
    let stream := (opened.run [roster]).1.stream 1
    let s : Setting := ⟨some "c1", fun _ => none, 0⟩
    opened.isSubscribed 1 = true ∧
      (∃ r, stream = [.rosterUpdated r] ∧ r.size = 2) ∧
      pings (({} : Agent).run (stream.map fun e => (s, Turn.session e))).2 = 0 := by
  intro c opened roster stream s
  let r : Roster := (opened.run [roster]).1.sessions[1]?.elim {} (·.roster)
  have hreports : opened.isSubscribed 1 = true ∧ stream = [.rosterUpdated r] ∧ r.size = 2 ∧
      pings (({} : Agent).run (stream.map fun e => (s, Turn.session e))).2 = 0 := by
    decide +kernel
  obtain ⟨hsubscribed, hstream, hsize, hunasked⟩ := hreports
  exact ⟨hsubscribed, ⟨r, hstream, hsize⟩, hunasked⟩

end Agent

end Parley
