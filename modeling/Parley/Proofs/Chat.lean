import Parley.Chat
import Parley.Proofs.Alternation
import Parley.Proofs.Roster.History

/-!
# A chat log tells what arrived

A log that began empty takes in session events, each with the roster of its moment. What it shows
follows from the texts that were accepted (`ChatLog.accepted`): the backlog in reverse, for each of
its lines goes on top, and below it the live lines as they came (`ChatLog.entries_run`). A line is
written once, with the author of that moment (`ChatLog.IsLineOf`), and stays as it is.
-/

namespace Parley.ChatLog

/-! ## Histories -/

/-- What happens to a log. -/
inductive Act where
  /-- An event is taken in. The roster of that moment is the one that its own history has led to. -/
  | event (e : SessionEvent) (history : List Roster.Act)
  | clearMore

def act (log : ChatLog) : Act → ChatLog
  | .event e history => (log.apply e (Roster.empty.run history)).1
  | .clearMore => log.clearMore

def run (log : ChatLog) (acts : List Act) : ChatLog := acts.foldl act log

/-- A text that arrives while the roster is as given. -/
structure Arrival where
  message : Message
  text : TextMessage
  roster : Roster

namespace Arrival

def historical (a : Arrival) : Bool := a.message.historical

/-- Backlog is always shown; a live line only if someone holds the connection it came from. -/
def Accepted (a : Arrival) : Prop :=
  a.historical = true ∨ ∃ p ∈ a.roster.toList, a.message.sender ∈ p.cids

instance (a : Arrival) : Decidable a.Accepted := inferInstanceAs (Decidable (_ ∨ _))

def line (a : Arrival) : ChatEntry :=
  entryOf (a.roster.byConnection? a.message.sender) a.message a.text

end Arrival

def textArrival? (m : Message) (roster : Roster) : Option Arrival :=
  match m.event with
  | .text t => some ⟨m, t, roster⟩
  | _ => none

/-- The text that an act brings, if the log is to show it. -/
def Act.accepted? : Act → Option Arrival
  | .event (.message m) history =>
    (textArrival? m (Roster.empty.run history)).filter fun a => a.Accepted
  | _ => none

/-- The texts that the log is to show, in the order of their arrival. -/
def accepted (acts : List Act) : List Arrival := acts.filterMap Act.accepted?

/-- The line shows the text. Its author is the first who held the connection when the text arrived;
without one the line has no name. -/
structure IsLineOf (a : Arrival) (e : ChatEntry) : Prop where
  sender : e.sender = a.message.sender
  message : e.message = a.text.message
  style : e.style = a.text.style
  timestamp : e.timestamp = Stamp.parse? a.message.timestamp
  historical : e.historical = a.historical
  author :
    (∃ p, a.roster.IsFirstHolder a.message.sender p ∧
      e.scid = some p.scid ∧ e.name = p.name ∧ e.color = p.color ∧ e.role = p.role) ∨
    ((∀ p ∈ a.roster.toList, a.message.sender ∉ p.cids) ∧
      e.scid = none ∧ e.name = "" ∧ e.color = "" ∧ e.role = "")

theorem isLineOf_line {a : Arrival} (h : a.roster.Keyed) : IsLineOf a a.line := by
  refine ⟨rfl, rfl, rfl, rfl, rfl, ?_⟩
  unfold Arrival.line
  cases hfound : a.roster.byConnection? a.message.sender with
  | none => exact .inr ⟨Roster.byConnection?_eq_none_iff.mp hfound, rfl, rfl, rfl, rfl⟩
  | some p => exact .inl ⟨p, h.isFirstHolder hfound, rfl, rfl, rfl, rfl⟩

/-! ## One act -/

/-- A message adds the line of its text, if that is accepted. -/
theorem entry?_eq (m : Message) (roster : Roster) :
    entry? m roster = ((textArrival? m roster).filter fun a => a.Accepted).map Arrival.line := by
  unfold entry? textArrival?
  generalize m.event = event
  cases event with
  | text t =>
      simp only [Option.filter_some]
      cases hfound : roster.byConnection? m.sender with
      | some p =>
          have hheld : (⟨m, t, roster⟩ : Arrival).Accepted :=
            .inr ⟨p, List.mem_of_find?_eq_some hfound,
              Roster.hasConnection_iff.mp (List.find?_eq_some_iff_append.mp hfound).1⟩
          rw [if_pos (decide_eq_true hheld), Option.map_some, Arrival.line, hfound]
      | none =>
          have hunheld := Roster.byConnection?_eq_none_iff.mp hfound
          have hiff : (⟨m, t, roster⟩ : Arrival).Accepted ↔ m.historical = true :=
            or_iff_left fun ⟨p, hp, hcid⟩ => hunheld p hp hcid
          simp only [hiff, decide_eq_true_eq]
          split
          · rw [Option.map_some, Arrival.line, hfound]
          · rfl
  | _ => rfl

theorem entries_add (log : ChatLog) (e : ChatEntry) :
    (log.add e).entries = if e.historical then e :: log.entries else log.entries ++ [e] := rfl

theorem entries_act (log : ChatLog) (a : Act) :
    (log.act a).entries =
      ((a.accepted?.map Arrival.line).map fun e => (log.add e).entries).getD log.entries := by
  cases a with
  | clearMore => rfl
  | event e history =>
      cases e with
      | message m =>
          simp only [act, apply, Act.accepted?, ← entry?_eq]
          cases entry? m (Roster.empty.run history) <;> rfl
      | _ => rfl

theorem moreAvailable_act (log : ChatLog) (a : Act) :
    (log.act a).moreAvailable = true ↔
      (∃ history, a = .event .moreHistory history) ∨
      (log.moreAvailable = true ∧ ¬ a = .clearMore) := by
  cases a with
  | clearMore => simp [act, ChatLog.clearMore]
  | event e history =>
      cases e with
      | message m =>
          simp only [act, apply]
          cases entry? m (Roster.empty.run history) <;> simp [add]
      | _ => simp [act, apply]

/-- A message changes the log if and only if it adds a line to it, and it says so. -/
theorem apply_message (log : ChatLog) (m : Message) (roster : Roster) :
    ((log.apply (.message m) roster).2 = true ↔
      (log.apply (.message m) roster).1.entries.length = log.entries.length + 1) ∧
    ((log.apply (.message m) roster).2 = false → (log.apply (.message m) roster).1 = log) := by
  simp only [apply]
  cases entry? m roster with
  | none => simp
  | some e =>
      refine ⟨iff_of_true rfl ?_, nofun⟩
      rw [entries_add]
      split
      · rfl
      · exact List.length_append

/-! ## Runs -/

theorem run_append (log : ChatLog) (acts more : List Act) :
    log.run (acts ++ more) = (log.run acts).run more := List.foldl_append

/-- What is accepted goes around what was there. -/
theorem entries_run (log : ChatLog) (acts : List Act) :
    (log.run acts).entries =
      (((accepted acts).filter (·.historical)).map Arrival.line).reverse ++ log.entries ++
        ((accepted acts).filter (!·.historical)).map Arrival.line := by
  induction acts generalizing log with
  | nil => simp [run, accepted]
  | cons a rest ih =>
      change ((log.act a).run rest).entries = _
      rw [ih, entries_act, accepted, accepted, List.filterMap_cons]
      cases a.accepted? with
      | none => rfl
      | some x =>
          change _ ++ (log.add x.line).entries ++ _ = _
          rw [entries_add, show x.line.historical = x.historical from rfl]
          cases hx : x.historical with
          | true => simp [hx]
          | false => simp [hx]

theorem moreAvailable_run_iff (acts : List Act) :
    (run {} acts).moreAvailable = true ↔ ∃ before history after,
      acts = before ++ .event .moreHistory history :: after ∧ .clearMore ∉ after := by
  refine (isOn_foldl_iff (fun l : ChatLog => l.moreAvailable = true) moreAvailable_act {}
    acts).trans ⟨?_, ?_⟩
  · rintro (⟨before, a, after, hacts, ⟨history, rfl⟩, hafter⟩ | ⟨hstart, -⟩)
    · exact ⟨before, history, after, hacts, fun hmem => hafter _ hmem rfl⟩
    · cases hstart
  · rintro ⟨before, history, after, hacts, hafter⟩
    exact .inl ⟨before, _, after, hacts, ⟨history, rfl⟩, fun a ha hclear => hafter (hclear ▸ ha)⟩

theorem keyed_of_mem_accepted {acts : List Act} {a : Arrival} (h : a ∈ accepted acts) :
    a.roster.Keyed := by
  obtain ⟨act, -, hact⟩ := List.mem_filterMap.mp h
  match act, hact with
  | .event (.message m) history, hact =>
    obtain ⟨harrival, -⟩ := Option.filter_eq_some_iff.mp hact
    unfold textArrival? at harrival
    split at harrival
    · cases harrival
      exact (Roster.reflects_run history).keyed
    · cases harrival

/-- A log that began empty. It shows the accepted backlog in reverse order of arrival and then the
accepted live lines in the order of their arrival, each as a line with the author of its moment. So
no live line stands before one of the backlog, and pages of the backlog that come newest first are
read oldest first. What a log shows once it goes on showing, unchanged and in one piece. A message
is answered with whether it added a line. There is more to ask for if the server said so and nothing
was asked for since. -/
theorem entries_follow_arrivals (acts : List Act) :
    let log := run {} acts
    let backlog := (accepted acts).filter (·.historical)
    let live := (accepted acts).filter (!·.historical)
    (∀ a ∈ accepted acts, IsLineOf a a.line) ∧
    log.entries = (backlog.map Arrival.line).reverse ++ live.map Arrival.line ∧
    (log.entries.Pairwise fun e later => later.historical = true → e.historical = true) ∧
    (∀ pages : List (List Arrival), backlog = pages.flatten →
      log.entries.filter (·.historical) =
        (pages.reverse.map fun page => (page.map Arrival.line).reverse).flatten) ∧
    (∀ done rest, acts = done ++ rest → (run {} done).entries <:+: log.entries) ∧
    (∀ (earlier : ChatLog) (m : Message) (roster : Roster),
      let answer := earlier.apply (.message m) roster
      (answer.2 = true ↔ answer.1.entries.length = earlier.entries.length + 1) ∧
      (answer.2 = false → answer.1 = earlier)) ∧
    (log.moreAvailable = true ↔ ∃ before history after,
      acts = before ++ .event .moreHistory history :: after ∧ .clearMore ∉ after) := by
  intro log backlog live
  have hentries : log.entries = (backlog.map Arrival.line).reverse ++ live.map Arrival.line := by
    rw [entries_run]
    simp only [List.append_nil]
    rfl
  have hbacklog : ∀ e ∈ (backlog.map Arrival.line).reverse, e.historical = true := by
    intro e he
    obtain ⟨a, ha, rfl⟩ := List.mem_map.mp (List.mem_reverse.mp he)
    exact (List.mem_filter.mp ha).2
  have hlive : ∀ e ∈ live.map Arrival.line, e.historical = false := by
    intro e he
    obtain ⟨a, ha, rfl⟩ := List.mem_map.mp he
    exact Bool.not_eq_true' _ ▸ (List.mem_filter.mp ha).2
  refine ⟨fun a ha => isLineOf_line (keyed_of_mem_accepted ha), hentries, ?_,
    fun pages hpages => ?_, fun done rest hacts => ?_, apply_message,
    moreAvailable_run_iff acts⟩
  · rw [hentries]
    refine List.pairwise_append.mpr ⟨?_, ?_, fun e he _ _ _ => hbacklog e he⟩
    · exact List.pairwise_of_forall_mem_list fun e he _ _ _ => hbacklog e he
    · refine List.pairwise_of_forall_mem_list fun e _ later hlater htrue => ?_
      cases (hlive later hlater).symm.trans htrue
  · rw [hentries, List.filter_append, List.filter_eq_self.mpr hbacklog,
      List.filter_eq_nil_iff.mpr fun e he => by simp [hlive e he], List.append_nil, hpages,
      List.map_flatten, List.reverse_flatten, List.map_map, List.map_reverse]
    rfl
  · rw [show log = (run {} done).run rest by rw [← run_append, ← hacts], entries_run _ rest]
    exact ⟨_, _, rfl⟩

end Parley.ChatLog
