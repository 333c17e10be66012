import Parley.Proofs.Terminal.Runs
import Parley.Proofs.Terminal.Standing

/-!
# What becomes of the lines that are typed

A line that is no command and not blank is a text, which the client takes or does not take
(`Terminal.said?`). A text that it takes is one stored frame among those that wait, and nothing else
puts such a frame there (`Terminal.posts_turn`); of a text that it does not take nothing is left but
one line on the screen. So the frames of a run are the texts that were taken, in the order in which
they were typed, as far as the sockets lasted that they were handed to (`Terminal.posts_run`).
-/

namespace Parley

/-! ## Frames of one action -/

/-- What a frame brings: whether it is to be kept, where it goes, and its event if its payload can
be read. -/
structure Posting where
  store : Bool
  topic : String
  event : Option Event
  deriving Repr

def Frame.posting? (a : Action) (f : Frame) : Option Posting :=
  if f.action = a then some ⟨f.store, f.topic, (Event.decode a f.payload).toOption⟩ else none

theorem Frame.posting?_of_ne {a : Action} {f : Frame} (h : f.action ≠ a) :
    f.posting? a = none := by
  rw [posting?, if_neg h]

namespace Client

variable {σ : Type}

theorem passedOver_posting {a : Action} {e : Event} (h : e.action ≠ a) (topic : String) :
    Frame.PassedOver (Frame.posting? a) topic e :=
  fun _ _ haction => Frame.posting?_of_ne fun heq => h (haction.symm.trans heq)

theorem overlooks_texts : Overlooks (Frame.posting? .text) := by
  have hother (a : Action) (ha : a ≠ .text) (f : Frame) (hf : f.action = a) :
      f.posting? .text = none := Frame.posting?_of_ne (hf ▸ ha)
  exact ⟨hother .loadSubscribers nofun, hother .loadMessages nofun,
    hother .pingChannel nofun _ rfl⟩

/-- The frame of an event that is read back from its payload. -/
theorem posting?_frame (c : Client σ) (store : Bool) (topic : String) {e : Event}
    (he : Event.decode e.action e.payload = .ok e) :
    (c.frame store topic e).posting? e.action = some ⟨store, topic, some e⟩ := by
  have haction : (c.frame store topic e).action = e.action := rfl
  have hpayload : (c.frame store topic e).payload = e.payload := rfl
  rw [Frame.posting?, if_pos haction, hpayload, he]
  rfl

/-- A frame that is sent is one text more that waits. -/
theorem transmit_posting {c : Client σ} {store : Bool} {topic : String} {e : Event}
    (hsent : (c.transmit store topic e).1 = true)
    (he : Event.decode e.action e.payload = .ok e) :
    ∃ texts wire, c.outbound = some texts ∧
      readings (Frame.posting? e.action) [wire] = [⟨store, topic, some e⟩] ∧
      (c.transmit store topic e).2 = { c with outbound := some (texts ++ [wire]) } := by
  obtain ⟨texts, wire, htexts, hwire, hafter⟩ := transmit_of_eq_true hsent
  refine ⟨texts, wire, htexts, ?_, hafter⟩
  rw [readings_of_encode hwire, posting?_frame c store topic he]
  rfl

end Client

namespace Client

variable {σ : Type} {c : Client σ} {n : Nat} {s : Session}

/-- A client whose socket is open asks for a page on a topic that fits into a frame. -/
theorem loadMore_posting (hc : c.Sound) (hs : c.sessions[n]? = some s) (hopen : c.isOpen = true)
    (hfits : s.topic.utf8ByteSize ≤ Frame.maxFieldLength) :
    ∃ texts wire, c.outbound = some texts ∧
      readings (Frame.posting? .loadMessages) [wire] =
        [⟨false, s.topic, some (.loadMessages ⟨s.page + 1, s.pageSize⟩)⟩] ∧
      (c.loadMore n).2.outbound = some (texts ++ [wire]) := by
  have hstate : c.state = .isOpen := of_decide_eq_true hopen
  have haside := (Undisturbed.refl c).aside c.router (c.sessions.set n s.loadMore.1) c.palette
    c.hooks c.called c.heartbeat
  have hsent := (transmits_iff hc.able hc.agrees false s.topic
    (PageRequest.payload_fits ⟨s.page + 1, s.pageSize⟩)).mpr ⟨hstate, hfits⟩
  rw [← transmits_of_undisturbed haside] at hsent
  obtain ⟨texts, wire, htexts, hwire, hafter⟩ := transmit_posting hsent
    (Event.decode_payload (e := .loadMessages ⟨s.page + 1, s.pageSize⟩) ⟨nofun, nofun⟩ nofun)
  refine ⟨texts, wire, htexts, hwire, ?_⟩
  unfold loadMore
  rw [hs]
  exact congrArg Client.outbound hafter

theorem outbound_loadMore_of_closed (hc : c.Sound) (hclosed : c.isOpen = false) (n : Nat) :
    c.outbound = none ∧ (c.loadMore n).2.outbound = none := by
  have hnone : c.outbound = none := by
    refine hc.agrees.outbound_eq_none ?_
    rw [← Bool.not_eq_true, ← hc.agrees.state]
    exact of_decide_eq_false hclosed
  refine ⟨hnone, ?_⟩
  rw [outbound_loadMore, hnone]
  rfl

end Client

namespace Terminal

theorem decode_text (t : TextMessage) :
    Event.decode (Event.text t).action (Event.text t).payload = .ok (.text t) :=
  Event.decode_payload ⟨nofun, nofun⟩ nofun

variable {σ : Type}

/-! ## Texts -/

/-- The texts that are typed until the terminal is left. -/
def typed (us : List (Turn σ)) : List String := (stay us).filterMap Turn.text?

theorem not_mem_commands_of_typed {us : List (Turn σ)} {text : String} (h : text ∈ typed us) :
    text ∉ commands := by
  obtain ⟨u, -, hu⟩ := List.mem_filterMap.mp h
  cases u with
  | clock | markers => cases hu
  | input i =>
    cases i with
    | line line => exact (text?_eq_some_iff.mp hu).2
    | _ => cases hu

/-- A text that is typed, with whether the client takes it. -/
def said? (t : Terminal σ) (u : Turn σ) : Option (String × Bool) :=
  match t.stage with
  | .joined _ =>
    u.text?.map fun text =>
      (text, (t.client.transmit true t.options.topic (.text ⟨text, .written⟩)).1)
  | _ => none

/-- The texts among frames. -/
def posts (frames : List String) : List Posting := Client.readings (Frame.posting? .text) frames

/-- The frames of those texts that are taken. -/
def Options.postings (o : Options) (said : List (String × Bool)) : List Posting :=
  (said.filter (·.2)).map fun s => ⟨true, o.topic, some (.text ⟨s.1, .written⟩)⟩

theorem Options.postings_append (o : Options) (said more : List (String × Bool)) :
    o.postings (said ++ more) = o.postings said ++ o.postings more := by
  rw [postings, List.filter_append, List.map_append]
  rfl

theorem said?_of_none {t : Terminal σ} {u : Turn σ} (h : u.text? = none) : t.said? u = none := by
  unfold said?
  split
  · rw [h, Option.map_none]
  · rfl

theorem said?_of_not_joined {t : Terminal σ} (h : ∀ n, t.stage ≠ .joined n) (u : Turn σ) :
    t.said? u = none := by
  unfold said?
  split
  · rename_i n hstage
    exact absurd hstage (h n)
  · rfl

theorem said?_of_command (t : Terminal σ) {line : String} (h : Text.trim line ∈ commands) :
    t.said? (.input (.line line)) = none := by
  rw [said?_of_none]
  rw [Turn.text?_line, text?_of_command h]

theorem onTopic_said : OnTopic (said? : Terminal σ → Turn σ → Option (String × Bool)) :=
  fun _ u h => h.elim (fun hnot => said?_of_not_joined hnot u) fun hends =>
    said?_of_none (Turn.text?_of_ends hends)

theorem map_fst_said? {t : Terminal σ} {n : Nat} (hstage : t.stage = .joined n) (u : Turn σ) :
    (t.said? u).map Prod.fst = u.text? := by
  rw [said?, hstage]
  cases u.text? <;> rfl

/-- Of a text what is said tells whether the session takes it. -/
theorem Standing.said?_line {t : Terminal σ} (h : t.Standing) {n : Nat}
    (hstage : t.stage = .joined n) {line text : String} (htext : text? line = some text) :
    t.said? (.input (.line line)) =
      some (text, (t.client.sendOn n true (.text ⟨text, .written⟩)).1) := by
  rw [h.sendOn hstage, said?, hstage, Turn.text?_line, htext]
  rfl

variable [MarkerStore σ]

def sayings (t : Terminal σ) (us : List (Turn σ)) : List (String × Bool) := t.collect said? us

theorem map_fst_sayings {t : Terminal σ} {n : Nat} (hstage : t.stage = .joined n)
    {us : List (Turn σ)} (hends : ∀ u ∈ us, u.ends = false) :
    (t.sayings us).map Prod.fst = us.filterMap Turn.text? := by
  induction us generalizing t with
  | nil => rfl
  | cons u rest ih =>
      obtain ⟨hstays, hlater⟩ := List.forall_mem_cons.mp hends
      rw [sayings, collect_cons, List.map_append, ← Option.toList_map, map_fst_said? hstage,
        List.filterMap_cons]
      refine (congrArg _ (ih (stage_turn_of_stays hstage hstays) hlater)).trans ?_
      cases u.text? <;> rfl

/-- What is said is what is typed until the terminal is left. -/
theorem map_fst_sayings_eq_typed {t : Terminal σ} {n : Nat} (hstage : t.stage = .joined n)
    (us : List (Turn σ)) : (t.sayings us).map Prod.fst = typed us := by
  rw [sayings, ← collect_stay onTopic_said hstage]
  exact map_fst_sayings hstage fun u => ends_of_mem_stay

/-! ## Frames -/

/-- What is read of the texts that a turn writes or leaves to be written was there before, or the
turn has said it; unless it leaves no socket, and writes nothing. -/
theorem posts_turn {t : Terminal σ} (h : t.Standing) {u : Turn σ} (hu : u.IsGenuine) :
    posts (Client.written (t.turn u).2.2) ++ (t.turn u).1.client.unread (Frame.posting? .text) =
        t.client.unread (Frame.posting? .text) ++ t.options.postings (t.said? u).toList ∨
      ((t.turn u).1.client.outbound = none ∧ Client.written (t.turn u).2.2 = []) := by
  have hturn := t.handles_turn u
  generalize t.turn u = course at hturn ⊢
  -- A turn that has the client do nothing that could be read, and says nothing.
  have hkept {t' : Terminal σ} {shown : List TerminalOutput} (hnone : t.said? u = none)
      (hunread : t'.client.unread (Frame.posting? .text) =
        t.client.unread (Frame.posting? .text)) :
      posts (Client.written ((t', shown, []) : Course σ).2.2) ++
          t'.client.unread (Frame.posting? .text) =
        t.client.unread (Frame.posting? .text) ++ t.options.postings (t.said? u).toList := by
    rw [hnone, hunread]
    exact (List.append_nil _).symm
  have hjoin : ∀ topic, Frame.PassedOver (Frame.posting? .text) topic .subscribe :=
    Client.passedOver_posting (by decide)
  have hleave : ∀ topic, Frame.PassedOver (Frame.posting? .text) topic .unsubscribe :=
    Client.passedOver_posting (by decide)
  cases hturn with
  | @world _ v told hworld =>
      have hv := hu v hworld
      have htransmit : ∀ store topic e, v = .input (.transmit store topic e) →
          Frame.PassedOver (Frame.posting? .text) topic e := by
        rintro store topic e rfl
        exact absurd hv Client.Turn.ComesIn.not_transmit
      have hread := Client.readBy_turn Client.overlooks_texts hjoin hleave htransmit
        hv.isPlain.ne_addHook h.client.registered h.client.agrees
      rw [said?_of_none (Turn.text?_of_world hworld)]
      exact hread.imp_left fun hkeeps => hkeeps.trans (List.append_nil _).symm
  | joins =>
      exact .inl (hkept (said?_of_none rfl) (Client.unread_openSession Client.overlooks_texts
        hjoin h.client.registered _ _))
  | fails | told | rests | hears => exact .inl (hkept (said?_of_none rfl) rfl)
  | ignores hnot => exact .inl (hkept (said?_of_not_joined hnot _) rfl)
  | blank _ htrim | who _ htrim | noMore _ htrim =>
      exact .inl (hkept (t.said?_of_command (by simp [htrim, commands])) rfl)
  | asksMore _ htrim =>
      exact .inl (hkept (t.said?_of_command (by simp [htrim, commands]))
        (Client.unread_loadMore Client.overlooks_texts _ _))
  | @sends n line text c hstage htext hsent =>
      rw [h.said?_line hstage htext, hsent]
      rw [h.sendOn hstage] at hsent
      have htaken : (t.client.transmit true t.options.topic (.text ⟨text, .written⟩)).1 = true :=
        congrArg Prod.fst hsent
      have hposting := Client.posting?_frame t.client true t.options.topic
        (decode_text ⟨text, .written⟩)
      have hafter : c.unread (Frame.posting? .text) =
          t.client.unread (Frame.posting? .text) ++
            ((t.client.frame true t.options.topic
              (.text ⟨text, .written⟩)).posting? .text).toList := by
        rw [← Client.unread_transmit htaken, hsent]
      exact .inl (hafter.trans (congrArg (fun p => _ ++ p.toList) hposting))
  | cannotSend hstage htext hunsent =>
      rw [h.said?_line hstage htext, hunsent]
      exact .inl (List.append_nil _).symm
  | @leaves n _ hstage hends =>
      have hclosed := Client.unread_closeSession hleave h.client.registered n
      have hlogout := Client.unread_logout (Frame.posting? .text) (t.client.closeSession n)
      refine hlogout.imp (fun hkeeps => ?_) fun hnone => ⟨hnone, rfl⟩
      exact @hkept (t.leave n) [] (onTopic_said t u (.inr hends)) (hkeeps.trans hclosed)

theorem posts_append (frames more : List String) :
    posts (frames ++ more) = posts frames ++ posts more :=
  Client.readings_append frames more

/-- What is read of the texts that a run writes or leaves to be written was there before or was said
in the run, in this order; and all of it is there, if a socket was there after each turn. -/
theorem posts_run {t : Terminal σ} (h : t.Standing) {us : List (Turn σ)}
    (hus : ∀ u ∈ us, u.IsGenuine) :
    let out := posts (Client.written (t.run us).2.2) ++
      (t.run us).1.client.unread (Frame.posting? .text)
    let due := t.client.unread (Frame.posting? .text) ++ t.options.postings (t.sayings us)
    out.Sublist due ∧
      ((∀ done, done <+: us → (t.run done).1.client.outbound.isSome) → out = due) := by
  induction us generalizing t with
  | nil => exact ⟨(List.append_nil _).symm ▸ .refl _, fun _ => (List.append_nil _).symm⟩
  | cons u rest ih =>
      obtain ⟨hu, hrest⟩ := List.forall_mem_cons.mp hus
      obtain ⟨hsub, heq⟩ := ih (h.turn hu) hrest
      have hturn := posts_turn h hu
      rw [options_turn] at hsub heq
      intro out due
      have hout : out = posts (Client.written (t.turn u).2.2) ++
          (posts (Client.written ((t.turn u).1.run rest).2.2) ++
            ((t.turn u).1.run rest).1.client.unread (Frame.posting? .text)) := by
        rw [← List.append_assoc, ← posts_append, ← Client.written_append]
        rfl
      have hdue : due = (t.client.unread (Frame.posting? .text) ++
          t.options.postings (t.said? u).toList) ++
            t.options.postings ((t.turn u).1.sayings rest) := by
        rw [List.append_assoc, ← Options.postings_append]
        exact congrArg (_ ++ t.options.postings ·) (t.collect_cons u rest)
      rw [hout, hdue]
      constructor
      · rcases hturn with hkeeps | ⟨hnone, hsilent⟩
        · rw [← hkeeps, List.append_assoc]
          exact hsub.append_left _
        · rw [Client.unread_of_none hnone] at hsub
          rw [hsilent]
          exact hsub.trans (List.sublist_append_right _ _)
      · intro hopen
        rw [heq fun done hdone => hopen (u :: done) (List.cons_prefix_cons.mpr ⟨rfl, hdone⟩)]
        rcases hturn with hkeeps | ⟨hnone, -⟩
        · rw [← hkeeps, List.append_assoc]
        · have hsome := hopen [u] (List.cons_prefix_cons.mpr ⟨rfl, List.nil_prefix⟩)
          rw [show (t.run [u]).1 = (t.turn u).1 from rfl, hnone] at hsome
          cases hsome

/-! ## One line -/

section Line

variable {t : Terminal σ} {n : Nat} {line : String}

theorem turn_line (hstage : t.stage = .joined n) (line : String) :
    t.turn (.input (.line line)) = ((t.onLine n line).1, (t.onLine n line).2, []) := by
  change ((t.step (.line line)).1, (t.step (.line line)).2, []) = _
  rw [step, hstage]

/-- A text that the client takes is one text more that waits to be written. -/
theorem turn_taken (h : t.Standing) (hstage : t.stage = .joined n) {text : String}
    (htext : text? line = some text)
    (htaken : (t.client.transmit true t.options.topic (.text ⟨text, .written⟩)).1 = true) :
    ∃ texts wire, t.client.outbound = some texts ∧
      posts [wire] = [⟨true, t.options.topic, some (.text ⟨text, .written⟩)⟩] ∧
      t.turn (.input (.line line)) =
        ({ t with client := { t.client with outbound := some (texts ++ [wire]) } }, [], []) := by
  obtain ⟨texts, wire, htexts, hwire, hafter⟩ := Client.transmit_posting htaken (decode_text _)
  refine ⟨texts, wire, htexts, hwire, ?_⟩
  rw [turn_line hstage, onLine_of_text htext, say, h.sendOn hstage]
  dsimp only
  rw [hafter, htaken]
  rfl

theorem turn_refused (h : t.Standing) (hstage : t.stage = .joined n) {text : String}
    (htext : text? line = some text)
    (hrefused : (t.client.transmit true t.options.topic (.text ⟨text, .written⟩)).1 = false) :
    t.turn (.input (.line line)) = (t, [unsent], []) := by
  rw [turn_line hstage, onLine_of_text htext, say, h.sendOn hstage]
  dsimp only
  rw [Client.transmit_of_eq_false hrefused, hrefused]
  rfl

theorem turn_blank (hstage : t.stage = .joined n) (htrim : Text.trim line = "") :
    t.turn (.input (.line line)) = (t, [], []) := by
  simp only [turn_line hstage, onLine, htrim]

theorem turn_who (hstage : t.stage = .joined n) (htrim : Text.trim line = "/who") :
    t.turn (.input (.line line)) = (t, t.showRoster n, []) := by
  simp only [turn_line hstage, onLine, htrim]

theorem turn_more (hstage : t.stage = .joined n) (htrim : Text.trim line = "/more") {s : Session}
    (hs : t.client.sessions[n]? = some s) :
    t.turn (.input (.line line)) =
      if s.moreAvailable then
        ({ t with log := t.log.clearMore, client := (t.client.loadMore n).2 }, [], [])
      else (t, [.print "(no older messages)"], []) := by
  simp only [turn_line hstage, onLine, htrim, more, hs, Option.map_some, Option.getD_some]
  split <;> rfl

end Line

/-! ## What is shown of texts that were not sent -/

theorem count_unsent_of_prints {shown : List TerminalOutput}
    (h : ∀ o ∈ shown, ∃ s, o = .print s) : shown.count unsent = 0 := by
  refine List.count_eq_zero.mpr fun hmem => ?_
  obtain ⟨s, hs⟩ := h unsent hmem
  cases hs

theorem head?_append {text : String} {c : Char} (h : text.toList.head? = some c)
    (rest : String) : (text ++ rest).toList.head? = some c := by
  rw [String.toList_append, List.head?_append, h]
  rfl

theorem count_unsent_of_head {text : String} {c : Char} (h : text.toList.head? = some c)
    (hc : c ≠ 'n') : [TerminalOutput.warn text].count unsent = 0 := by
  refine List.count_eq_zero.mpr fun hmem => hc ?_
  have heq : unsent = .warn text := List.mem_singleton.mp hmem
  cases heq
  exact (Option.some.inj h).symm

theorem count_unsent_notice (n : Notice) :
    [TerminalOutput.warn (noticeLine n)].count unsent = 0 := by
  unfold noticeLine
  cases n.kind with
  | success =>
      exact count_unsent_of_head (c := 'S') (head?_append (head?_append rfl _) _) (by decide)
  | warning =>
      exact count_unsent_of_head (c := 'W') (head?_append (head?_append rfl _) _) (by decide)
  | error =>
      exact count_unsent_of_head (c := 'E') (head?_append (head?_append rfl _) _) (by decide)

theorem count_unsent_failure (host message : String) :
    [TerminalOutput.warn (failureText host message)].count unsent = 0 :=
  count_unsent_of_head (c := 'E') (head?_append (head?_append (head?_append rfl _) _) _) (by decide)

omit [MarkerStore σ] in
theorem prints_onSession (s : Session) (e : SessionEvent) (t : Terminal σ) :
    ∀ o ∈ (onSession s e t).2, ∃ line, o = .print line := by
  unfold onSession
  dsimp only
  split
  · simp
  · simp
  · simp
  · simp
  · split
    · cases added? (t.log.apply _ s.roster).1 _ <;> simp
    · simp

/-- A terminal says once of each text that was not sent that it was not. -/
theorem count_unsent_turn {t : Terminal σ} (h : t.Standing) (u : Turn σ) :
    (t.turn u).2.1.count unsent = (t.said? u).toList.countP (!·.2) := by
  have hturn := t.handles_turn u
  generalize t.turn u = course at hturn ⊢
  cases hturn with
  | world _ hworld => rw [said?_of_none (Turn.text?_of_world hworld)]; rfl
  | joins | rests => rw [said?_of_none rfl]; rfl
  | fails => rw [said?_of_none rfl]; exact count_unsent_failure _ _
  | told _ n =>
      rw [said?_of_none rfl]
      cases n with
      | none => rfl
      | some n => exact count_unsent_notice n
  | ignores hnot => rw [said?_of_not_joined hnot]; rfl
  | hears => rw [said?_of_none rfl]; exact count_unsent_of_prints (prints_onSession _ _ t)
  | blank _ htrim | asksMore _ htrim =>
      rw [t.said?_of_command (by simp [htrim, commands])]
      rfl
  | noMore _ htrim =>
      rw [t.said?_of_command (by simp [htrim, commands])]
      exact count_unsent_of_prints (by simp)
  | who _ htrim =>
      rw [t.said?_of_command (by simp [htrim, commands])]
      exact count_unsent_of_prints (by simp [showRoster])
  | sends hstage htext hsent =>
      rw [h.said?_line hstage htext, hsent]
      rfl
  | cannotSend hstage htext hunsent =>
      rw [h.said?_line hstage htext, hunsent]
      rfl
  | leaves _ hends => rw [onTopic_said t u (.inr hends)]; rfl

theorem count_unsent_run {t : Terminal σ} (h : t.Standing) {us : List (Turn σ)}
    (hus : ∀ u ∈ us, u.IsGenuine) :
    (t.run us).2.1.count unsent = (t.sayings us).countP (!·.2) := by
  induction us generalizing t with
  | nil => rfl
  | cons u rest ih =>
      obtain ⟨hu, hrest⟩ := List.forall_mem_cons.mp hus
      rw [run_cons, sayings, collect_cons, List.countP_append, ← count_unsent_turn h u]
      exact List.count_append.trans (congrArg _ (ih (h.turn hu) hrest))

end Terminal

end Parley
