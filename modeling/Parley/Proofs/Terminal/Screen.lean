import Parley.Proofs.Chat
import Parley.Proofs.Client.Streams
import Parley.Proofs.Terminal.Lines

/-!
# What is shown of the messages that arrive

A terminal picks the events of its session up one after the other, each once
(`Terminal.stream_run`). A message goes to the log with the roster of that moment, and if the log
accepts it, its line is printed: the line is fetched from the end of the log where it was put, and
nothing has come there since (`Terminal.added?_add`). So what is printed of messages are the lines
of the accepted ones in the order in which they were picked up, and the log shows the same lines
(`Terminal.log_run`).
-/

namespace Parley

theorem Session.stream_act (s : Session) (a : Act) : s.stream <+: (s.act a).1.stream := by
  have hmap {f : Receiver → Receiver} (hf : ∀ r, Receiver.Grows r (f r))
      (h : (s.act a).1.receivers = s.receivers.map f) : s.stream <+: (s.act a).1.stream := by
    rw [stream, stream, h]
    cases s.receivers with
    | nil => exact List.prefix_refl _
    | cons r others => exact (hf r).mailbox
  rcases s.act_reports a with ⟨e, h, -⟩ | ⟨h, -⟩ | ⟨h, -⟩
  · exact hmap (Receiver.Grows.push e) h
  · exact hmap Receiver.Grows.refl (h.trans s.receivers.map_id.symm)
  · exact hmap Receiver.Grows.detach h

/-- What a session has reported it goes on having reported, whatever its client does. -/
theorem Client.stream_turn {σ : Type} [MarkerStore σ] {c : Client σ} {n : Nat} {s : Session}
    (hs : c.sessions[n]? = some s) (v : Turn σ) : c.stream n <+: (c.turn v).1.stream n := by
  obtain ⟨s', hs', hlives⟩ := lives_turn v hs
  rw [stream, stream, hs, hs']
  exact hlives.induct (motive := fun s' => s.stream <+: s'.stream) (List.prefix_refl _)
    fun s' a h => h.trans (s'.stream_act a)

namespace Terminal

variable {σ : Type}

/-! ## Picking up -/

/-- The event of its session that a terminal picks up in a turn, with the roster of that moment. -/
def heard? (t : Terminal σ) : Turn σ → Option (SessionEvent × Roster)
  | .input .heard =>
    match t.stage with
    | .joined n => (t.client.sessions[n]? >>= takeMail).map fun m => (m.1, m.2.roster)
    | _ => none
  | _ => none

/-- The text that is picked up, if the log accepts it. -/
def accepted? (heard : SessionEvent × Roster) : Option ChatLog.Arrival :=
  match heard.1 with
  | .message m => (ChatLog.textArrival? m heard.2).filter fun a => a.Accepted
  | _ => none

theorem accepted?_event (e : SessionEvent) (history : List Roster.Act) :
    (ChatLog.Act.event e history).accepted? = accepted? (e, Roster.empty.run history) := by
  cases e <;> rfl

/-- What is printed of a text. -/
def printed (a : ChatLog.Arrival) : TerminalOutput := .print (entryLine a.line)

theorem heard?_of_heard {t : Terminal σ} {n : Nat} (hstage : t.stage = .joined n) {s s' : Session}
    {e : SessionEvent} (hs : t.client.sessions[n]? = some s) (hmail : takeMail s = some (e, s')) :
    t.heard? (.input .heard) = some (e, s'.roster) := by
  simp [heard?, hstage, hs, hmail]

theorem heard?_of_not_joined {t : Terminal σ} (h : ∀ n, t.stage ≠ .joined n) (u : Turn σ) :
    t.heard? u = none := by
  unfold heard?
  split
  · split
    · rename_i n hstage
      exact absurd hstage (h n)
    · rfl
  · rfl

theorem heard?_of_ne {t : Terminal σ} {u : Turn σ} (h : u ≠ .input .heard) :
    t.heard? u = none := by
  unfold heard?
  split
  · exact absurd rfl h
  · rfl

theorem heard?_of_ends {t : Terminal σ} {u : Turn σ} (h : u.ends = true) : t.heard? u = none := by
  refine heard?_of_ne ?_
  rintro rfl
  cases h

theorem onTopic_heard :
    OnTopic (heard? : Terminal σ → Turn σ → Option (SessionEvent × Roster)) :=
  fun _ u h => h.elim (fun hnot => heard?_of_not_joined hnot u) heard?_of_ends

/-! ## Printing -/

/-- The line that was added is fetched. -/
theorem added?_add (log : ChatLog) {e : ChatEntry} {m : Message}
    (h : e.historical = m.historical) : added? (log.add e) m = some e := by
  rw [added?, ChatLog.entries_add, h]
  cases m.historical with
  | true => rfl
  | false => exact List.getLast?_concat

theorem historical_of_entry {m : Message} {roster : Roster} {e : ChatEntry}
    (h : ChatLog.entry? m roster = some e) : e.historical = m.historical := by
  rw [ChatLog.entry?_eq] at h
  obtain ⟨a, ha, rfl⟩ := Option.map_eq_some_iff.mp h
  obtain ⟨harrival, -⟩ := Option.filter_eq_some_iff.mp ha
  unfold ChatLog.textArrival? at harrival
  split at harrival
  · cases harrival
    rfl
  · cases harrival

/-- What is shown of a message: its line, if the log accepts it. -/
theorem onSession_message (s : Session) (m : Message) (t : Terminal σ) :
    (onSession s (.message m) t).2 = ((accepted? (.message m, s.roster)).map printed).toList := by
  have hentry : ChatLog.entry? m s.roster =
      (accepted? (.message m, s.roster)).map ChatLog.Arrival.line := ChatLog.entry?_eq m s.roster
  unfold onSession ChatLog.apply
  dsimp only
  cases he : ChatLog.entry? m s.roster with
  | none =>
      rw [he] at hentry
      rw [Option.map_eq_none_iff.mp hentry.symm]
      rfl
  | some e =>
      rw [he] at hentry
      obtain ⟨a, ha, rfl⟩ := Option.map_eq_some_iff.mp hentry.symm
      dsimp only
      rw [if_pos rfl, added?_add t.log (historical_of_entry he), ha]
      rfl

variable [MarkerStore σ]

/-- What a terminal shows in the turns in which it picks up a message. -/
def showing (t : Terminal σ) (u : Turn σ) : List TerminalOutput :=
  match t.heard? u with
  | some (.message _, _) => (t.turn u).2.1
  | _ => []

def heards (t : Terminal σ) (us : List (Turn σ)) : List (SessionEvent × Roster) :=
  t.collect heard? us

theorem heards_cons (t : Terminal σ) (u : Turn σ) (us : List (Turn σ)) :
    t.heards (u :: us) = (t.heard? u).toList ++ (t.turn u).1.heards us := t.collect_cons u us

theorem accepted_heards_cons (t : Terminal σ) (u : Turn σ) (us : List (Turn σ)) :
    (t.heards (u :: us)).filterMap accepted? =
      ((t.heard? u).bind accepted?).toList ++ ((t.turn u).1.heards us).filterMap accepted? := by
  rw [heards_cons, List.filterMap_append]
  cases t.heard? u with
  | none => rfl
  | some heard =>
      rw [Option.toList_some, List.filterMap_cons, Option.bind_some]
      cases accepted? heard <;> rfl

/-- A turn in which an event is picked up. -/
theorem turn_of_heard {t : Terminal σ} {u : Turn σ} {e : SessionEvent} {roster : Roster}
    (h : t.heard? u = some (e, roster)) :
    ∃ n s s', t.stage = .joined n ∧ t.client.sessions[n]? = some s ∧
      takeMail s = some (e, s') ∧ s'.roster = roster ∧
      t.turn u =
        ({ t with
            client := t.client.updateSession n fun _ => s', log := (t.log.apply e roster).1 },
          (onSession s' e t).2, []) := by
  by_cases hu : u = .input .heard
  · subst hu
    have hturn := t.handles_turn (.input .heard)
    generalize t.turn (.input .heard) = course at hturn ⊢
    cases hturn with
    | world _ hworld => cases hworld
    | ignores hnot =>
        rw [heard?_of_not_joined hnot] at h
        cases h
    | rests hstage hnone =>
        simp [heard?, hstage, hnone] at h
    | hears hstage hs hmail =>
        rw [heard?_of_heard hstage hs hmail] at h
        cases h
        exact ⟨_, _, _, hstage, hs, hmail, rfl, rfl⟩
    | leaves _ hends => cases hends
  · rw [heard?_of_ne hu] at h
    cases h

theorem shown_of_message {t : Terminal σ} {u : Turn σ} {m : Message} {roster : Roster}
    (h : t.heard? u = some (.message m, roster)) :
    (t.turn u).2.1 = ((accepted? (.message m, roster)).map printed).toList := by
  obtain ⟨n, s, s', -, -, -, rfl, hturn⟩ := turn_of_heard h
  rw [hturn]
  exact onSession_message s' m t

theorem showing_eq (t : Terminal σ) (u : Turn σ) :
    t.showing u = (((t.heard? u).bind accepted?).map printed).toList := by
  unfold showing
  split
  · rename_i m roster hheard
    rw [shown_of_message hheard, hheard]
    rfl
  · rename_i hnot
    cases hheard : t.heard? u with
    | none => rfl
    | some heard =>
        obtain ⟨e, roster⟩ := heard
        cases e with
        | message m => exact absurd hheard (hnot m roster)
        | _ => rfl

/-- What is printed of messages are the lines of those that the log accepts. -/
theorem showing_run (t : Terminal σ) (us : List (Turn σ)) :
    ((t.moments us).flatMap fun m => m.1.showing m.2) =
      ((t.heards us).filterMap accepted?).map printed := by
  induction us generalizing t with
  | nil => rfl
  | cons u rest ih =>
      rw [moments, List.flatMap_cons, ih, accepted_heards_cons, List.map_append, showing_eq,
        Option.toList_map]

/-! ## The log -/

/-- The log takes in what is picked up, and is told when more is asked for. -/
theorem log_turn {t : Terminal σ} (h : t.Standing) (u : Turn σ) :
    ∃ acts, (t.turn u).1.log = t.log.run acts ∧
      ChatLog.accepted acts = ((t.heard? u).bind accepted?).toList := by
  cases hheard : t.heard? u with
  | some heard =>
      obtain ⟨e, roster⟩ := heard
      obtain ⟨n, s, s', hstage, hs, hmail, hroster, hturn⟩ := turn_of_heard hheard
      obtain ⟨s₀, hs₀, hserves⟩ := h.session n hstage
      cases hs.symm.trans hs₀
      obtain ⟨history, hhistory⟩ := (hserves.takeMail hmail).roster
      rw [hroster] at hhistory
      refine ⟨[.event e history], ?_, ?_⟩
      · rw [hturn, hhistory]
        rfl
      · rw [ChatLog.accepted, List.filterMap_cons, accepted?_event, ← hhistory, Option.bind_some]
        cases accepted? (e, roster) <;> rfl
  | none =>
      have hturn := t.handles_turn u
      generalize t.turn u = course at hturn ⊢
      cases hturn with
      | hears hstage hs hmail =>
          rw [heard?_of_heard hstage hs hmail] at hheard
          cases hheard
      | asksMore => exact ⟨[.clearMore], rfl, rfl⟩
      | _ => exact ⟨[], rfl, rfl⟩

theorem log_run {t : Terminal σ} (h : t.Standing) {us : List (Turn σ)}
    (hus : ∀ u ∈ us, u.IsGenuine) :
    ∃ acts, (t.run us).1.log = t.log.run acts ∧
      ChatLog.accepted acts = (t.heards us).filterMap accepted? := by
  induction us generalizing t with
  | nil => exact ⟨[], rfl, rfl⟩
  | cons u rest ih =>
      obtain ⟨hu, hrest⟩ := List.forall_mem_cons.mp hus
      obtain ⟨first, hfirst, haccepted⟩ := log_turn h u
      obtain ⟨acts, hacts, haccepted'⟩ := ih (h.turn hu) hrest
      refine ⟨first ++ acts, ?_, ?_⟩
      · rw [run_cons, ChatLog.run_append, ← hfirst]
        exact hacts
      · rw [ChatLog.accepted, List.filterMap_append, accepted_heards_cons, ← haccepted,
          ← haccepted']
        rfl

/-! ## The mail -/

/-- Until a terminal is left, what its session has reported is picked up from the front and goes on
at the end. -/
theorem stream_turn {t : Terminal σ} (h : t.Standing) {n : Nat} (hstage : t.stage = .joined n)
    {u : Turn σ} (hends : u.ends = false) :
    t.client.stream n <+:
      ((t.heard? u).map Prod.fst).toList ++ (t.turn u).1.client.stream n := by
  obtain ⟨s, hs, hserves⟩ := h.session n hstage
  cases hheard : t.heard? u with
  | some heard =>
      obtain ⟨e, roster⟩ := heard
      obtain ⟨n', s', s'', hstage', hs', hmail, -, hturn⟩ := turn_of_heard hheard
      cases hstage.symm.trans hstage'
      cases hs.symm.trans hs'
      obtain ⟨r, others, rest, hreceivers, hmailbox, rfl⟩ := takeMail_eq_some_iff.mp hmail
      obtain ⟨hlt, -⟩ := List.getElem?_eq_some_iff.mp hs
      rw [hturn, Client.updateSession_eq, Client.stream, Client.stream, hs,
        List.getElem?_set_self hlt]
      dsimp only
      rw [Session.stream, hreceivers]
      dsimp only
      rw [hmailbox]
      exact List.prefix_refl _
  | none =>
      have hturn := t.handles_turn u
      generalize t.turn u = course at hturn ⊢
      cases hturn with
      | world => exact Client.stream_turn hs _
      | joins _ h | fails _ _ h => cases hstage.symm.trans h
      | hears hstage hs hmail =>
          rw [heard?_of_heard hstage hs hmail] at hheard
          cases hheard
      | asksMore hstage' =>
          cases hstage.symm.trans hstage'
          exact Client.stream_turn hs (.input (.loadMore n))
      | @sends _ line text c hstage' _ hsent =>
          rw [h.sendOn hstage'] at hsent
          have hgrows := Client.stream_turn hs
            (.input (.transmit true t.options.topic (.text ⟨text, .written⟩)))
          rw [Client.turn, Client.step, hsent] at hgrows
          exact hgrows
      | leaves _ h => cases hends.symm.trans h
      | _ => exact List.prefix_refl _

theorem stream_run {t : Terminal σ} (h : t.Standing) {n : Nat} (hstage : t.stage = .joined n)
    {us : List (Turn σ)} (hus : ∀ u ∈ us, u.IsGenuine) (hends : ∀ u ∈ us, u.ends = false) :
    t.client.stream n <+: (t.heards us).map Prod.fst ++ (t.run us).1.client.stream n := by
  induction us generalizing t with
  | nil => exact List.prefix_refl _
  | cons u rest ih =>
      obtain ⟨hu, hrest⟩ := List.forall_mem_cons.mp hus
      obtain ⟨hstays, hlater⟩ := List.forall_mem_cons.mp hends
      have hfirst := stream_turn h hstage hstays
      have hgrows := ih (h.turn hu) (stage_turn_of_stays hstage hstays) hrest hlater
      have htaken : (t.heards (u :: rest)).map Prod.fst =
          ((t.heard? u).map Prod.fst).toList ++ ((t.turn u).1.heards rest).map Prod.fst := by
        rw [heards_cons, List.map_append, Option.toList_map]
      rw [htaken, List.append_assoc]
      exact hfirst.trans (List.prefix_append_right_inj _ |>.mpr hgrows)

end Terminal

end Parley
