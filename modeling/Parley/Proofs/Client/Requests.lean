import Parley.Proofs.Client.Membership
import Parley.Proofs.Client.Socket
import Parley.Proofs.Session.History

/-!
# What sessions have sent

The sessions of a client share its socket, and what they ask for goes out one after the other. The
texts that a turn adds for them are those of their requests, in the order of the deeds of all
sessions (`Client.outbound_turn`): no text is added that none of them asked for. A request is sent
if the socket is open, unless the topic is too long for a frame (`Client.sent_turn`).
-/

namespace Parley

theorem Session.Asks.payload_fits {pageSize page : UInt32} {a : Session.Act} {es : List Event}
    (h : Session.Asks pageSize page a es) :
    ∀ e ∈ es, e.payload.utf8ByteSize ≤ Frame.maxFieldLength := by
  intro e he
  cases h with
  | acknowledged =>
      rw [List.mem_singleton.mp he]
      exact Nat.zero_le _
  | ownRoster | more =>
      rw [List.mem_singleton.mp he]
      exact PageRequest.payload_fits _
  | other | closes => cases he

namespace Client

variable {σ : Type}

/-! ## Requests on one topic -/

theorem frame_of_undisturbed {c c' : Client σ} (h : Undisturbed c c') (store : Bool)
    (topic : String) (e : Event) : c'.frame store topic e = c.frame store topic e := by
  rw [frame, frame, h.now, h.connectionId]

theorem transmits_of_undisturbed {c c' : Client σ} (h : Undisturbed c c') (store : Bool)
    (topic : String) (e : Event) :
    (c'.transmit store topic e).1 = (c.transmit store topic e).1 := by
  rw [Bool.eq_iff_iff, transmit_eq_true_iff, transmit_eq_true_iff, h.outbound,
    frame_of_undisturbed h]

/-- A client between two turns can send what fits into a frame while its socket is open. -/
theorem transmits_iff {c : Client σ} (hable : c.Able) (hagrees : c.Agrees) (store : Bool)
    (topic : String) {e : Event} (he : e.payload.utf8ByteSize ≤ Frame.maxFieldLength) :
    (c.transmit store topic e).1 = true ↔
      c.state = .isOpen ∧ topic.utf8ByteSize ≤ Frame.maxFieldLength := by
  rw [transmit_eq_true_iff, hagrees.outbound, hagrees.state]
  refine and_congr_right fun _ => ?_
  simp only [Frame.openTexts, List.forall_mem_cons, frame]
  exact ⟨fun h => h.2.1, fun h => ⟨hable.clock, h, hable.sender, he, List.forall_mem_nil _⟩⟩

/-- Requests on a topic, each with whether it is sent. -/
def answered (c : Client σ) (topic : String) (es : List Event) : List (Event × Bool) :=
  es.map fun e => (e, (c.transmit false topic e).1)

/-- The texts of those requests on a topic that are sent. -/
def wires (c : Client σ) (topic : String) (requests : List (Event × Bool)) : List String :=
  (requests.filter (·.2)).map fun r => (c.frame false topic r.1).wireText

theorem wires_append (c : Client σ) (topic : String) (requests more : List (Event × Bool)) :
    c.wires topic (requests ++ more) = c.wires topic requests ++ c.wires topic more := by
  rw [wires, List.filter_append, List.map_append]
  rfl

theorem wires_of_undisturbed {c c' : Client σ} (h : Undisturbed c c') (topic : String)
    (requests : List (Event × Bool)) : c'.wires topic requests = c.wires topic requests := by
  simp only [wires, frame_of_undisturbed h]

theorem answered_of_undisturbed {c c' : Client σ} (h : Undisturbed c c') (topic : String)
    (es : List Event) : c'.answered topic es = c.answered topic es := by
  simp only [answered, transmits_of_undisturbed h]

theorem outbound_transmit (c : Client σ) (topic : String) (e : Event) :
    (c.transmit false topic e).2.outbound =
      c.outbound.map (· ++ c.wires topic (c.answered topic [e])) := by
  cases hsent : (c.transmit false topic e).1 with
  | false =>
      rw [transmit_of_eq_false hsent]
      cases c.outbound <;> simp [answered, wires, hsent]
  | true =>
      obtain ⟨texts, text, htexts, htext, hafter⟩ := transmit_of_eq_true hsent
      obtain ⟨-, hwire⟩ := Frame.encode_eq_ok_iff.mp htext
      rw [hafter, htexts]
      simp [answered, wires, hsent, hwire]

/-- The requests may be read off an earlier client, if it was not disturbed since. -/
theorem outbound_transmitAll {b c : Client σ} (h : Undisturbed b c) (topic : String)
    (es : List Event) :
    (c.transmitAll topic es).outbound =
      c.outbound.map (· ++ b.wires topic (b.answered topic es)) := by
  induction es generalizing c with
  | nil => simp [transmitAll, answered, wires]
  | cons e rest ih =>
      have hsplit : b.wires topic (b.answered topic (e :: rest)) =
          b.wires topic (b.answered topic [e]) ++ b.wires topic (b.answered topic rest) :=
        b.wires_append topic (b.answered topic [e]) (b.answered topic rest)
      rw [transmitAll, List.foldl_cons, hsplit]
      refine (ih (h.trans (c.undisturbed_transmit false topic e))).trans ?_
      rw [outbound_transmit, wires_of_undisturbed h, answered_of_undisturbed h, Option.map_map]
      exact congrArg (Option.map · c.outbound) (funext fun texts => List.append_assoc ..)

/-! ## The deeds of all sessions -/

/-- What sessions do, by their numbers, while a message is brought to listeners. -/
def doingsHearing (m : Message) : List Listener → Client σ → List (Nat × Session.Deed)
  | [], _ => []
  | .session j :: rest, c =>
    (j, c.deed j (.hears c.connectionId c.palette m)) ::
      doingsHearing m rest (hear (.session j) m c).2
  | .hook name outcome :: rest, c => doingsHearing m rest (hear (.hook name outcome) m c).2

/-- What sessions do in a turn, by their numbers. -/
def doings (c : Client σ) (t : Turn σ) : List (Nat × Session.Deed) :=
  match c.heard? t with
  | some m => doingsHearing m (c.router.listeners m.topic) c
  | none =>
    match t with
    | .input (.loadMore j) => [(j, c.deed j .asksMore)]
    | .input (.closeSession j) => [(j, c.deed j .closes)]
    | _ => []

/-- The topic of a session, if there is such a session. -/
def topicOf? (c : Client σ) (j : Nat) : Option String := c.sessions[j]?.map (·.topic)

theorem topicOf?_congr {c c' : Client σ} (h : SameSessions c c') (j : Nat) :
    c'.topicOf? j = c.topicOf? j := by
  have hplace := congrArg (fun reg : Register => reg[j]?.map (·.1)) h.register
  simp only [register, List.getElem?_map, Option.map_map] at hplace
  exact hplace

/-- The texts of the requests that a session had sent with a deed. -/
def textsOf (c : Client σ) (doing : Nat × Session.Deed) : List String :=
  match c.topicOf? doing.1 with
  | none => []
  | some topic => c.wires topic doing.2.requests

theorem textsOf_congr {c c' : Client σ} (hsame : SameSessions c c') (h : Undisturbed c c')
    (doing : Nat × Session.Deed) : c'.textsOf doing = c.textsOf doing := by
  simp only [textsOf, topicOf?_congr hsame, wires_of_undisturbed h]

theorem textsOf_deed {c : Client σ} {j : Nat} {s : Session} (hs : c.sessions[j]? = some s)
    (a : Session.Act) :
    c.textsOf (j, c.deed j a) = c.wires s.topic (c.answered s.topic (s.act a).2) := by
  simp only [textsOf, topicOf?, deed, hs]
  rfl

theorem textsOf_deed_of_none {c : Client σ} {j : Nat} (hs : c.sessions[j]? = none)
    (a : Session.Act) : c.textsOf (j, c.deed j a) = [] := by
  simp only [textsOf, topicOf?, hs]
  rfl

theorem outbound_hear_session (j : Nat) (m : Message) (c : Client σ) :
    (hear (.session j) m c).2.outbound =
      c.outbound.map (· ++ c.textsOf (j, c.deed j (.hears c.connectionId c.palette m))) := by
  cases hs : c.sessions[j]? with
  | none =>
      rw [textsOf_deed_of_none hs]
      simp [hear, hs]
  | some s =>
      obtain ⟨htopic, -⟩ := s.hear_place c.connectionId c.palette m
      rw [textsOf_deed hs]
      simp only [hear, hs, htopic]
      exact outbound_transmitAll ((Undisturbed.refl c).aside ..) s.topic _

theorem outbound_loadMore (j : Nat) (c : Client σ) :
    (c.loadMore j).2.outbound = c.outbound.map (· ++ c.textsOf (j, c.deed j .asksMore)) := by
  cases hs : c.sessions[j]? with
  | none =>
      rw [textsOf_deed_of_none hs]
      simp [loadMore, hs]
  | some s =>
      rw [textsOf_deed hs]
      simp only [loadMore, hs]
      exact outbound_transmitAll ((Undisturbed.refl c).aside ..) s.topic _

theorem outbound_callAll (m : Message) (ls : List Listener) (c : Client σ) :
    (Router.callAll hear m ls c).2.outbound =
      c.outbound.map (· ++ (doingsHearing m ls c).flatMap c.textsOf) := by
  induction ls generalizing c with
  | nil => simp [Router.callAll, doingsHearing]
  | cons l rest ih =>
      have htexts : (hear l m c).2.textsOf = c.textsOf :=
        funext (textsOf_congr (sameSessions_hear l m c) (undisturbed_hear l m c))
      refine (ih (hear l m c).2).trans ?_
      rw [htexts]
      cases l with
      | hook name outcome => rfl
      | session j =>
          rw [outbound_hear_session, doingsHearing, Option.map_map]
          refine congrArg (Option.map · c.outbound) (funext fun texts => ?_)
          rw [List.flatMap_cons, ← List.append_assoc]
          rfl

/-- What the sessions asked for in a turn that brings a message, or that asks for more, is all that
the turn adds to the texts that wait. -/
theorem outbound_turn [MarkerStore σ] {c : Client σ} {t : Turn σ}
    (h : (∃ m, c.heard? t = some m) ∨ ∃ j, t = .input (.loadMore j)) :
    (c.turn t).1.outbound = c.outbound.map (· ++ (c.doings t).flatMap c.textsOf) := by
  rcases h with ⟨m, hm⟩ | ⟨j, rfl⟩
  · simp only [turn_of_heard hm, doings, hm]
    exact outbound_callAll m _ c
  · refine (outbound_loadMore j c).trans ?_
    simp [doings, heard?]

/-! ## The deeds of one session -/

theorem deedsHearing_eq (i : Nat) (m : Message) (ls : List Listener) (c : Client σ) :
    deedsHearing i m ls c = ((doingsHearing m ls c).filter (·.1 = i)).map (·.2) := by
  induction ls generalizing c with
  | nil => rfl
  | cons l rest ih =>
      rw [deedsHearing, ih]
      cases l with
      | hook name outcome => rfl
      | session j => by_cases hj : j = i <;> simp [doingsHearing, hj]

theorem deeds_eq (c : Client σ) (i : Nat) (t : Turn σ) :
    c.deeds i t = ((c.doings t).filter (·.1 = i)).map (·.2) := by
  unfold deeds doings
  cases hheard : c.heard? t with
  | some m => exact deedsHearing_eq i m _ c
  | none =>
      cases t with
      | clock | markers => rfl
      | input a =>
        cases a with
        | loadMore j | closeSession j => by_cases hj : j = i <;> simp [hj]
        | _ => rfl

/-- A session does what it does in a turn while nothing but listeners, sessions and texts that wait
have changed since the turn began. -/
theorem exists_deed_hearing {i : Nat} {m : Message} {ls : List Listener} {c : Client σ}
    {d : Session.Deed} (h : d ∈ deedsHearing i m ls c) :
    ∃ b a, Undisturbed c b ∧ SameSessions c b ∧ d = b.deed i a := by
  induction ls generalizing c with
  | nil => cases h
  | cons l rest ih =>
      rcases List.mem_append.mp h with hfirst | hrest
      · split at hfirst
        · exact ⟨c, _, .refl c, .refl c, List.mem_singleton.mp hfirst⟩
        · cases hfirst
      · obtain ⟨b, a, hundisturbed, hsame, rfl⟩ := ih hrest
        exact ⟨b, a, (undisturbed_hear l m c).trans hundisturbed,
          (sameSessions_hear l m c).trans hsame, rfl⟩

theorem exists_deed {c : Client σ} {i : Nat} {t : Turn σ} {d : Session.Deed}
    (h : d ∈ c.deeds i t) : ∃ b a, Undisturbed c b ∧ SameSessions c b ∧ d = b.deed i a := by
  have hone {p : Prop} [Decidable p] {a : Session.Act}
      (hd : d ∈ if p then [c.deed i a] else []) :
      ∃ b a, Undisturbed c b ∧ SameSessions c b ∧ d = b.deed i a := by
    split at hd
    · exact ⟨c, a, .refl c, .refl c, List.mem_singleton.mp hd⟩
    · cases hd
  unfold deeds at h
  split at h
  · exact exists_deed_hearing h
  · exact hone h
  · exact hone h
  · cases h

/-- The requests of a deed are sent if the socket is open and the topic fits into a frame. -/
theorem sent_deed {c : Client σ} {i : Nat} {topic : String} (htopic : c.topicOf? i = some topic)
    (hable : c.Able) (hagrees : c.Agrees) (a : Session.Act) :
    ∀ r ∈ (c.deed i a).requests,
      (r.2 = true ↔ c.state = .isOpen ∧ topic.utf8ByteSize ≤ Frame.maxFieldLength) := by
  obtain ⟨s, hs, rfl⟩ := Option.map_eq_some_iff.mp htopic
  intro r hr
  simp only [deed, hs] at hr
  obtain ⟨e, he, rfl⟩ := List.mem_map.mp hr
  exact transmits_iff hable hagrees false s.topic ((s.asks_act a).payload_fits e he)

theorem sent_turn {c : Client σ} {i : Nat} {topic : String} (htopic : c.topicOf? i = some topic)
    (hable : c.Able) (hagrees : c.Agrees) (t : Turn σ) :
    ∀ d ∈ c.deeds i t, ∀ r ∈ d.requests,
      (r.2 = true ↔ c.state = .isOpen ∧ topic.utf8ByteSize ≤ Frame.maxFieldLength) := by
  intro d hd
  obtain ⟨b, a, h, hsame, rfl⟩ := exists_deed hd
  rw [← h.state]
  exact sent_deed ((topicOf?_congr hsame i).trans htopic) (hable.undisturbed h)
    (hagrees.undisturbed h) a

/-! ## A session and its history -/

/-- The session that is opened recalls what happens to it from then on. -/
theorem exists_opened_session (c : Client σ) (topic : String) (pageSize : UInt32) :
    ∃ s : Session,
      (c.openSession topic pageSize).2.sessions[(c.openSession topic pageSize).1]? = some s ∧
      s.topic = topic ∧ s.pageSize = pageSize ∧ ∀ acts, (s.after acts).Recalls acts := by
  obtain ⟨-, -, -, htopic, hsize⟩ := Session.create_blank topic pageSize
    (c.router.subscribe topic (.session c.sessions.length)).1
  exact ⟨_, c.session_opened topic pageSize, htopic, hsize, Session.recalls_after _ _ _⟩

section History

variable [MarkerStore σ] (config : ClientConfig) (markers : σ) (before : List (Turn σ))
  (topic : String) (pageSize : UInt32) (ts : List (Turn σ))

theorem run_openSession :
    ((((create config markers).run before).1.openSession topic pageSize).2.run ts).1 =
      ((create config markers).run (before ++ .input (.openSession topic pageSize) :: ts)).1 := by
  rw [run_append]
  rfl

/-- A session, from when it is opened and whatever its client goes through. It recalls its history:
its roster, its page, whether there is more and what it has reported follow from the messages that
it heard and from when it was asked for more. With each deed it asks for what `Session.Asks` says,
where the page is the one that it then has. What it asks for is sent if the socket is open and the
topic fits into a frame. A turn that brings a message, or that asks for more, adds the texts of what
all sessions had sent in it to those that wait, and nothing else. -/
theorem session_follows_history (htime : ∀ t ∈ before ++ ts, t.KeepsTime) :
    let c := ((create config markers).run before).1
    let i := (c.openSession topic pageSize).1
    let opened := (c.openSession topic pageSize).2
    let life := opened.life i ts
    (∃ s, (opened.run ts).1.sessions[i]? = some s ∧ s.Recalls (life.map (·.act))) ∧
    (∀ done d rest, life = done ++ d :: rest →
      ∃ s : Session, s.Recalls ((done ++ [d]).map (·.act)) ∧
        Session.Asks pageSize s.page d.act (d.requests.map (·.1))) ∧
    (∀ done t rest, ts = done ++ t :: rest →
      let here := (opened.run done).1
      (∀ d ∈ here.deeds i t, ∀ r ∈ d.requests,
        (r.2 = true ↔ here.state = .isOpen ∧ topic.utf8ByteSize ≤ Frame.maxFieldLength)) ∧
      here.deeds i t = ((here.doings t).filter (·.1 = i)).map (·.2) ∧
      ((∃ m, here.heard? t = some m) ∨ (∃ j, t = .input (.loadMore j)) →
        (here.turn t).1.outbound =
          here.outbound.map (· ++ (here.doings t).flatMap here.textsOf))) := by
  intro c i opened life
  obtain ⟨s₀, hopened, htopic, hsize, hrecalls⟩ := c.exists_opened_session topic pageSize
  refine ⟨?_, fun done d rest hlife => ?_, fun done t rest hts => ⟨?_, deeds_eq _ i t,
    outbound_turn⟩⟩
  · obtain ⟨s, hs, hlives⟩ := lives_run ts hopened
    exact ⟨s, hs, hlives.eq_after ▸ hrecalls _⟩
  · obtain ⟨s', -, hlives⟩ := lives_run ts hopened
    have hlives : Session.Lives s₀ (done ++ d :: rest) s' := hlife ▸ hlives
    refine ⟨_, hrecalls _, ?_⟩
    have hasks := (s₀.after (done.map (·.act))).asks_act d.act
    rw [(s₀.fixed_after _).2, hsize] at hasks
    rw [hlives.requests_eq, List.map_append, Session.after_append]
    exact hasks
  · obtain ⟨s, hs, hlives⟩ := lives_run done hopened
    have hplace : (opened.run done).1.topicOf? i = some topic := by
      rw [topicOf?, hs, hlives.eq_after, Option.map_some, (s₀.fixed_after _).1, htopic]
    have hable : (opened.run done).1.Able := by
      rw [run_openSession]
      refine able_run config markers fun u hu => ?_
      rcases List.mem_append.mp hu with hu | hu
      · exact htime u (List.mem_append_left _ hu)
      · rcases List.mem_cons.mp hu with rfl | hu
        · trivial
        · exact htime u (List.mem_append_right _ (hts ▸ List.mem_append_left _ hu))
    have hagrees : (opened.run done).1.Agrees := by
      rw [run_openSession]
      exact (Agrees.create config markers).run _
    exact sent_turn hplace hable hagrees t

end History

/-- The own roster comes in, and more is asked for. -/
theorem session_follows_history_room :
    let before : List (Turn Marker) :=
      [.input .connect, .input (.ticket (.ok ⟨"s1", "c1"⟩)), .input .opened]
    let roster : Turn Marker := .input (.received
      (Text.bytes "000021000001f00001f0000000004room00002c100002\x7b\x7d"))
    let more : Turn Marker := .input (.loadMore 0)
    let c := ((create {} Marker.absent).run before).1
    let opened := (c.openSession "room" 10).2
    (∀ t ∈ before ++ [roster, more], t.KeepsTime) ∧
    (∃ s, (opened.run [roster, more]).1.sessions[0]? = some s ∧
      s.Recalls ((opened.life 0 [roster, more]).map (·.act)) ∧ s.page = 2) ∧
    ((opened.run [roster]).1.deeds 0 more).map (·.requests) =
      [[(.loadMessages ⟨2, 10⟩, true)]] ∧
    ∀ d ∈ (opened.run [roster]).1.deeds 0 more, ∀ r ∈ d.requests, r.2 = true := by
  intro before roster more c opened
  have htime : ∀ t ∈ before ++ [roster, more], t.KeepsTime := by
    simp [before, roster, more, Turn.KeepsTime]
  have hindex : (c.openSession "room" 10).1 = 0 := by decide +kernel
  obtain ⟨⟨s, hs, hrecalls⟩, -, hturns⟩ :=
    session_follows_history {} Marker.absent before "room" 10 [roster, more] htime
  obtain ⟨hsent, -⟩ := hturns [roster] more [] rfl
  rw [hindex] at hs hrecalls hsent
  have hrun : (opened.run [roster, more]).1.sessions[0]?.map (·.page) = some 2 ∧
      ((opened.run [roster]).1.deeds 0 more).map (·.requests) =
        [[(.loadMessages ⟨2, 10⟩, true)]] ∧
      (opened.run [roster]).1.state = .isOpen := by decide +kernel
  obtain ⟨hpage, hasked, hopen⟩ := hrun
  refine ⟨htime, ⟨s, hs, hrecalls, ?_⟩, hasked,
    fun d hd r hr => (hsent d hd r hr).mpr ⟨hopen, by decide⟩⟩
  rw [hs] at hpage
  exact Option.some.inj hpage

/-! ## Topics that are too long -/

theorem transmit_of_long_topic {topic : String} (h : Frame.maxFieldLength < topic.utf8ByteSize)
    (c : Client σ) (store : Bool) (e : Event) : (c.transmit store topic e).1 = false := by
  rw [Bool.eq_false_iff]
  intro hsent
  obtain ⟨-, hfits⟩ := (transmit_eq_true_iff ..).mp hsent
  exact Nat.not_le_of_lt h (hfits (.topic, topic) (by simp [Frame.openTexts, frame]))

/-- A session on a topic that is too long for a frame counts its pages, but asks nobody. -/
theorem loadMore_of_long_topic (c : Client σ) {topic : String}
    (h : Frame.maxFieldLength < topic.utf8ByteSize) (pageSize : UInt32) :
    let i := (c.openSession topic pageSize).1
    let opened := (c.openSession topic pageSize).2
    (opened.loadMore i).1 = some 1 ∧ (opened.loadMore i).2.outbound = opened.outbound := by
  intro i opened
  obtain ⟨s, hopened, htopic, -, hrecalls⟩ := c.exists_opened_session topic pageSize
  have hpage : s.page = 0 := (hrecalls []).page_first (List.forall_mem_nil _)
  constructor
  · unfold loadMore
    rw [show opened.sessions[i]? = some s from hopened]
    exact congrArg (fun page => some (page + 1)) hpage
  · have hnone (es : List Event) : (opened.answered topic es).filter (·.2) = [] := by
      refine List.filter_eq_nil_iff.mpr fun r hr => ?_
      obtain ⟨e, -, rfl⟩ := List.mem_map.mp hr
      simp [transmit_of_long_topic h]
    rw [outbound_loadMore, textsOf_deed hopened, htopic, wires, hnone]
    simp

/-- On a topic of 100000 bytes a session asks for the first page of its backlog over an open
socket, and no text waits for it. -/
theorem page_unsent_on_long_topic :
    let topic := String.ofList (List.replicate 100000 'x')
    let c := ((create {} Marker.absent).run
      [.input .connect, .input (.ticket (.ok ⟨"s1", "c1"⟩)), .input .opened]).1
    let i := (c.openSession topic 10).1
    let opened := (c.openSession topic 10).2
    opened.state = .isOpen ∧ (opened.loadMore i).1 = some 1 ∧
      (opened.loadMore i).2.outbound = opened.outbound := by
  intro topic c i opened
  have hlong : Frame.maxFieldLength < topic.utf8ByteSize := by
    have hlength := Text.length_le_utf8ByteSize (List.replicate 100000 'x')
    rw [List.length_replicate] at hlength
    exact hlength
  have hstate : c.state = .isOpen := by decide +kernel
  exact ⟨(c.undisturbed_openSession topic 10).state.trans hstate,
    c.loadMore_of_long_topic hlong 10⟩

end Client

end Parley
