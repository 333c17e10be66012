import Parley.Proofs.Alternation
import Parley.Proofs.Client.Backlog
import Parley.Proofs.Client.Streams
import Parley.Proofs.Roster.History

/-!
# A session tells what happened to it

A session hears messages and is asked for more, and from these follows what it is
(`Session.Recalls`): its roster is what the rosters and the departures among the messages made of an
empty one, its page counts how often more was asked for since its own roster came in last, and there
is more to ask for if the server said so since. It reports each message once, a roster as it then
was (`Session.reports`). What it asks for with an act is told by the act and its page
(`Session.Asks`).
-/

namespace Parley

/-- The event that reports a message from a session whose roster is then as given. -/
def Message.report (roster : Roster) (m : Message) : SessionEvent :=
  match m.event with
  | .subscribe => .subscribed
  | .subscribers _ => .rosterUpdated roster
  | .departed socketId => .participantLeft (Session.scopedId socketId)
  | .hasMoreMessages => .moreHistory
  | _ => .message m

namespace Session

/-! ## Histories -/

namespace Act

/-- What an act does to the roster, if it does anything. -/
def rosterAct? : Act → Option Roster.Act
  | .hears _ palette m =>
    match m.event with
    | .subscribers records => some (.merge palette records.values)
    | .departed socketId => some (.departure (scopedId socketId))
    | _ => none
  | .asksMore | .closes => none

def IsOwnRoster : Act → Prop
  | .hears me _ m => m.IsOwnRoster me
  | .asksMore | .closes => False

def HearsOfMore : Act → Prop
  | .hears _ _ m => m.event = .hasMoreMessages
  | .asksMore | .closes => False

def isAsking : Act → Bool
  | .asksMore => true
  | .hears .. | .closes => false

end Act

/-- The roster that a history makes of an empty one. -/
def rosterAfter (acts : List Act) : Roster := Roster.empty.run (acts.filterMap Act.rosterAct?)

/-- What is reported of a history that goes on after a past one. -/
def reports (past : List Act) : List Act → List SessionEvent
  | [] => []
  | a :: rest =>
    let past := past ++ [a]
    match a with
    | .hears _ _ m => m.report (rosterAfter past) :: reports past rest
    | .asksMore | .closes => reports past rest

/-- What a session asks for with an act, after which its page is as given. -/
inductive Asks (pageSize page : UInt32) : Act → List Event → Prop
  | acknowledged {me : Option String} {palette : Palette} {m : Message} :
      m.event = .subscribe → Asks pageSize page (.hears me palette m) [.subscribers .empty]
  | ownRoster {me : Option String} {palette : Palette} {m : Message} :
      m.IsOwnRoster me → Asks pageSize page (.hears me palette m) [.loadMessages ⟨1, pageSize⟩]
  | other {me : Option String} {palette : Palette} {m : Message} :
      m.event ≠ .subscribe → ¬ m.IsOwnRoster me → Asks pageSize page (.hears me palette m) []
  | more : Asks pageSize page .asksMore [.loadMessages ⟨page, pageSize⟩]
  | closes : Asks pageSize page .closes []

/-- What is left of a history in a session. -/
structure Recalls (acts : List Act) (s : Session) : Prop where
  roster : s.roster = rosterAfter acts
  page_first : (∀ a ∈ acts, ¬ a.IsOwnRoster) → s.page = .ofNat (acts.countP Act.isAsking)
  page_anew : ∀ before a after, acts = before ++ a :: after → a.IsOwnRoster →
    (∀ b ∈ after, ¬ b.IsOwnRoster) → s.page = .ofNat (after.countP Act.isAsking + 1)
  more : s.moreAvailable = true ↔ ∃ before a after, acts = before ++ a :: after ∧ a.HearsOfMore ∧
    ∀ b ∈ after, ¬ b.IsOwnRoster ∧ b.isAsking = false
  stream : .closes ∉ acts → s.stream = reports [] acts

/-- A session after a history. -/
def after (s : Session) (acts : List Act) : Session := acts.foldl (fun s a => (s.act a).1) s

/-! ## One act -/

/-- What is heard goes to the roster and to the receivers, and what is asked for follows from it. -/
structure Hears (me : Option String) (palette : Palette) (m : Message) (s s' : Session)
    (asked : List Event) : Prop where
  roster : s'.roster = s.roster.run (Act.hears me palette m).rosterAct?.toList
  receivers : s'.receivers = s.receivers.map (Receiver.push (m.report s'.roster))
  more : s'.moreAvailable = true ↔
    m.event = .hasMoreMessages ∨ (s.moreAvailable = true ∧ ¬ m.IsOwnRoster me)
  topic : s'.topic = s.topic
  pageSize : s'.pageSize = s.pageSize
  asks : Asks s.pageSize s'.page (.hears me palette m) asked

theorem hears_hear (me : Option String) (palette : Palette) (m : Message) (s : Session) :
    Hears me palette m s (s.hear me palette m).1 (s.hear me palette m).2.2 := by
  obtain ⟨store, historical, timestamp, topic, sender, event⟩ := m
  have hother (h : ∀ records, event ≠ .subscribers records) :
      ¬ Message.IsOwnRoster me ⟨store, historical, timestamp, topic, sender, event⟩ :=
    fun hown => hown.1.elim h
  cases event with
  | subscribe =>
      exact ⟨rfl, rfl, by simp [hear, emit, hother (by simp)], rfl, rfl, .acknowledged rfl⟩
  | subscribers records =>
      by_cases hown : me = some sender
      · have hown' : Message.IsOwnRoster me
            ⟨store, historical, timestamp, topic, sender, .subscribers records⟩ :=
          ⟨⟨records, rfl⟩, hown⟩
        simp only [hear, hown, ↓reduceIte]
        refine ⟨rfl, rfl, by simp [← hown, hown'], rfl, rfl, hown ▸ .ownRoster hown'⟩
      · have hother : ¬ Message.IsOwnRoster me
            ⟨store, historical, timestamp, topic, sender, .subscribers records⟩ :=
          fun h => hown h.2
        simp only [hear, hown, ↓reduceIte]
        exact ⟨rfl, rfl, by simp [emit, hother], rfl, rfl, .other (by simp) hother⟩
  | hasMoreMessages =>
      have hnot := hother (by simp)
      exact ⟨rfl, rfl, by simp [hear, emit], rfl, rfl, .other (by simp) hnot⟩
  | _ =>
      have hnot := hother (by simp)
      exact ⟨rfl, rfl, by simp [hear, emit, hnot], rfl, rfl, .other (by simp) hnot⟩

section Act

variable (s : Session) {a : Act}

/-- A session that was closed keeps what it knows. -/
theorem act_closes_knows : (s.act .closes).1.roster = s.roster ∧
    (s.act .closes).1.page = s.page ∧ (s.act .closes).1.moreAvailable = s.moreAvailable ∧
    (s.act .closes).1.topic = s.topic ∧ (s.act .closes).1.pageSize = s.pageSize ∧
    (s.act .closes).2 = [] := by
  unfold act
  dsimp only
  split <;> exact ⟨rfl, rfl, rfl, rfl, rfl, rfl⟩

theorem roster_act (a : Act) : (s.act a).1.roster = s.roster.run a.rosterAct?.toList := by
  cases a with
  | hears me palette m => exact (s.hears_hear me palette m).roster
  | asksMore => rfl
  | closes => exact s.act_closes_knows.1

theorem page_act_of_own (h : a.IsOwnRoster) : (s.act a).1.page = 1 := by
  cases a with
  | hears me palette m =>
      rcases s.hear_requests me palette m with ⟨-, -, hpage⟩ | ⟨hother, -⟩
      · exact hpage
      · exact absurd h hother
  | asksMore | closes => cases h

theorem page_act_of_other (h : ¬ a.IsOwnRoster) :
    (s.act a).1.page = s.page + .ofNat ([a].countP Act.isAsking) := by
  cases a with
  | hears me palette m =>
      rcases s.hear_requests me palette m with ⟨hown, -⟩ | ⟨-, -, hpage⟩
      · exact absurd hown h
      · exact hpage.trans s.page.add_zero.symm
  | asksMore => rfl
  | closes => exact s.act_closes_knows.2.1.trans s.page.add_zero.symm

theorem moreAvailable_act (a : Act) :
    (s.act a).1.moreAvailable = true ↔
      a.HearsOfMore ∨ (s.moreAvailable = true ∧ ¬ (a.IsOwnRoster ∨ a.isAsking = true)) := by
  cases a with
  | hears me palette m =>
      refine (s.hears_hear me palette m).more.trans ?_
      simp [Act.HearsOfMore, Act.IsOwnRoster, Act.isAsking]
  | asksMore => simp [act, loadMore, Act.HearsOfMore, Act.isAsking]
  | closes =>
      rw [s.act_closes_knows.2.2.1]
      simp [Act.HearsOfMore, Act.IsOwnRoster, Act.isAsking]

theorem fixed_act (a : Act) :
    (s.act a).1.topic = s.topic ∧ (s.act a).1.pageSize = s.pageSize := by
  cases a with
  | hears me palette m =>
      exact ⟨(s.hears_hear me palette m).topic, (s.hears_hear me palette m).pageSize⟩
  | asksMore => exact ⟨rfl, rfl⟩
  | closes =>
      obtain ⟨-, -, -, htopic, hsize, -⟩ := s.act_closes_knows
      exact ⟨htopic, hsize⟩

theorem asks_act (a : Act) : Asks s.pageSize (s.act a).1.page a (s.act a).2 := by
  cases a with
  | hears me palette m => exact (s.hears_hear me palette m).asks
  | asksMore => exact .more
  | closes =>
      obtain ⟨-, -, -, -, -, hnone⟩ := s.act_closes_knows
      rw [hnone]
      exact .closes

end Act

/-! ## Histories of a session -/

theorem after_cons (s : Session) (a : Act) (acts : List Act) :
    s.after (a :: acts) = (s.act a).1.after acts := rfl

theorem after_append (s : Session) (acts more : List Act) :
    s.after (acts ++ more) = (s.after acts).after more := List.foldl_append

theorem Lives.eq_after {s s' : Session} {ds : List Deed} (h : Lives s ds s') :
    s' = s.after (ds.map Deed.act) := by
  induction h with
  | rest => rfl
  | act _ _ ih => exact ih

theorem Lives.requests_eq {s s' : Session} {done rest : List Deed} {d : Deed}
    (h : Lives s (done ++ d :: rest) s') :
    d.requests.map Prod.fst = ((s.after (done.map Deed.act)).act d.act).2 := by
  induction done generalizing s with
  | nil =>
      cases h with
      | act hd _ => exact hd
  | cons first done ih =>
      cases h with
      | act _ hrest => exact ih hrest

theorem rosterAfter_append (acts more : List Act) :
    rosterAfter (acts ++ more) = (rosterAfter acts).run (more.filterMap Act.rosterAct?) := by
  rw [rosterAfter, rosterAfter, List.filterMap_append, Roster.run_append]

theorem filterMap_singleton (a : Act) : [a].filterMap Act.rosterAct? = a.rosterAct?.toList := by
  rw [List.filterMap_cons]
  cases a.rosterAct? <;> rfl

theorem roster_after (s : Session) (acts : List Act) :
    (s.after acts).roster = s.roster.run (acts.filterMap Act.rosterAct?) := by
  induction acts generalizing s with
  | nil => rfl
  | cons a rest ih =>
      rw [after_cons, ih, roster_act, ← Roster.run_append, ← filterMap_singleton,
        ← List.filterMap_append, List.singleton_append]

theorem fixed_after (s : Session) (acts : List Act) :
    (s.after acts).topic = s.topic ∧ (s.after acts).pageSize = s.pageSize := by
  induction acts generalizing s with
  | nil => exact ⟨rfl, rfl⟩
  | cons a rest ih =>
      obtain ⟨htopic, hsize⟩ := s.fixed_act a
      obtain ⟨htopic', hsize'⟩ := ih (s.act a).1
      exact ⟨htopic'.trans htopic, hsize'.trans hsize⟩

/-- Without a roster of its own, a session counts on. -/
theorem page_after (s : Session) {acts : List Act} (h : ∀ a ∈ acts, ¬ a.IsOwnRoster) :
    (s.after acts).page = s.page + .ofNat (acts.countP Act.isAsking) := by
  induction acts generalizing s with
  | nil => exact s.page.add_zero.symm
  | cons a rest ih =>
      obtain ⟨ha, hrest⟩ := List.forall_mem_cons.mp h
      rw [after_cons, ih _ hrest, page_act_of_other s ha, UInt32.add_assoc, ← UInt32.ofNat_add,
        ← List.countP_append, List.singleton_append]

/-- As long as the session is open, its receiver gets a report of each message. -/
theorem receivers_after {s : Session} {es : List SessionEvent} {past acts : List Act}
    (hone : s.receivers = [⟨es, true, false⟩]) (hroster : s.roster = rosterAfter past)
    (hopen : .closes ∉ acts) :
    (s.after acts).receivers = [⟨es ++ reports past acts, true, false⟩] := by
  induction acts generalizing s es past with
  | nil => rw [reports, List.append_nil]; exact hone
  | cons a rest ih =>
      obtain ⟨ha, hrest⟩ := not_or.mp (mt List.mem_cons.mpr hopen)
      have hroster' : (s.act a).1.roster = rosterAfter (past ++ [a]) := by
        rw [roster_act, rosterAfter_append, filterMap_singleton, hroster]
      rw [after_cons]
      cases a with
      | hears me palette m =>
          have hpush : (s.act (.hears me palette m)).1.receivers =
              [⟨es ++ [m.report (s.act (.hears me palette m)).1.roster], true, false⟩] := by
            refine (s.hears_hear me palette m).receivers.trans ?_
            rw [hone]
            rfl
          rw [hroster'] at hpush
          rw [ih hpush hroster' hrest, reports, List.append_assoc]
          rfl
      | asksMore => exact ih hone hroster' hrest
      | closes => exact absurd rfl ha

theorem create_blank (topic : String) (pageSize : UInt32) (subscription : Subscription) :
    let s := (create topic pageSize subscription).1
    s.roster = .empty ∧ s.moreAvailable = false ∧ s.receivers = [⟨[], true, false⟩] ∧
      s.topic = topic ∧ s.pageSize = pageSize := by
  unfold create
  dsimp only
  split <;> exact ⟨rfl, rfl, rfl, rfl, rfl⟩

/-- A session that was opened recalls what happened to it since. -/
theorem recalls_after (topic : String) (pageSize : UInt32) (subscription : Subscription)
    (acts : List Act) :
    Recalls acts ((create topic pageSize subscription).1.after acts) := by
  obtain ⟨hroster, hmore, hreceivers, -⟩ := create_blank topic pageSize subscription
  have hpage := page_create topic pageSize subscription
  generalize (create topic pageSize subscription).1 = s at hroster hmore hreceivers hpage
  constructor
  · rw [roster_after, hroster]
    rfl
  · intro hnone
    rw [page_after s hnone, hpage, UInt32.zero_add]
  · rintro before a after rfl hown hafter
    rw [after_append, after_cons, page_after _ hafter, page_act_of_own _ hown, UInt32.ofNat_add,
      UInt32.add_comm]
    rfl
  · refine (isOn_foldl_iff (fun s : Session => s.moreAvailable = true) moreAvailable_act s
      acts).trans ?_
    simp only [hmore, Bool.false_eq_true, false_and, or_false, not_or, Bool.not_eq_true]
  · intro hopen
    have hstart : s.roster = rosterAfter [] := hroster
    rw [stream, receivers_after hreceivers hstart hopen]
    rfl

end Session

end Parley
