import Parley.Proofs.Alternation
import Parley.Proofs.Client.Moves

/-!
# What a client tells, and in which order

The diary of a client holds what it tells, between the beginnings and the ends of its supervisor.
Which entry may follow which is a matter of conduct, of which there are few kinds (`Conduct`): there
is no supervisor, one looks for a socket, one has just announced that it is back, its socket is
open, or it has given up. Outside of an open socket it also matters whether an outage was warned of,
which the reconnect policy remembers from one supervisor to the next. Every move of the supervisor
leads from the conduct of the client before it to that of the client after it
(`Client.conduct_move`), and so a whole diary does; the order of the events is read off the kinds
that lie on the way.
-/

namespace Parley

/-- An entry of the diary of a client. -/
inductive Entry where
  | started
  | told (e : ClientEvent)
  /-- The supervisor ended, because it was asked to or of itself. -/
  | ended (asked : Bool)
  deriving DecidableEq, Repr

namespace Entry

def event? : Entry → Option ClientEvent
  | told e => some e
  | _ => none

/-- Beginnings and ends of the supervisor. -/
def presence? : Entry → Option Bool
  | started => some true
  | ended _ => some false
  | told _ => none

/-- Beginnings and ends of connections. -/
def connection? : Entry → Option Bool
  | told (.connected _) => some true
  | told .disconnected => some false
  | _ => none

/-- Warnings of an outage, and announcements that it is over. -/
def warning? : Entry → Option Bool
  | told (.notice n) =>
    if n = .reconnecting then some true else if n = .reconnected then some false else none
  | _ => none

end Entry

namespace Client

variable {σ : Type}

/-- Whether the supervisor looks at the request to end in a turn, and finds it: it does not look
while it waits for a ticket. -/
def seesRequest (c : Client σ) : Turn σ → Bool
  | .input (.ticket _) => false
  | _ => c.shutdown

/-- The entries for a turn, after which the client and its effects are as given. -/
def entries (c : Client σ) (t : Turn σ) (s : Step σ) : List Entry :=
  (if c.phase = .idle ∧ s.1.phase ≠ .idle then [.started] else []) ++ (told s.2).map .told ++
    (if c.phase ≠ .idle ∧ s.1.phase = .idle then [.ended (c.seesRequest t)] else [])

theorem events_entries (c : Client σ) (t : Turn σ) (s : Step σ) :
    (c.entries t s).filterMap Entry.event? = told s.2 := by
  have hmap (es : List ClientEvent) : (es.map Entry.told).filterMap Entry.event? = es := by
    rw [List.filterMap_map]
    exact List.filterMap_some
  have hstarted (p : Prop) [Decidable p] :
      (if p then [Entry.started] else []).filterMap Entry.event? = [] := by split <;> rfl
  have hended (p : Prop) [Decidable p] (asked : Bool) :
      (if p then [Entry.ended asked] else []).filterMap Entry.event? = [] := by split <;> rfl
  rw [entries, List.filterMap_append, List.filterMap_append, hmap, hstarted, hended]
  simp

theorem entries_of_same {c : Client σ} {s : Step σ} (t : Turn σ) (h : s.1.phase = c.phase) :
    c.entries t s = (told s.2).map .told := by
  unfold entries
  rw [h]
  simp

theorem entries_of_started {c : Client σ} {s : Step σ} (t : Turn σ) (h : c.phase = .idle)
    (h' : s.1.phase ≠ .idle) : c.entries t s = .started :: (told s.2).map .told := by
  simp [entries, h, h']

theorem entries_of_present {c : Client σ} {s : Step σ} (t : Turn σ) (h : c.phase ≠ .idle)
    (h' : s.1.phase ≠ .idle) : c.entries t s = (told s.2).map .told := by
  simp [entries, h, h']

theorem entries_of_ended {c : Client σ} {s : Step σ} (t : Turn σ) (h : c.phase ≠ .idle)
    (h' : s.1.phase = .idle) :
    c.entries t s = (told s.2).map .told ++ [.ended (c.seesRequest t)] := by
  simp [entries, h, h']

variable [MarkerStore σ]

def diary (c : Client σ) : List (Turn σ) → List Entry
  | [] => []
  | t :: rest => c.entries t (c.turn t) ++ (c.turn t).1.diary rest

/-- The diary holds what is told, in its order. -/
theorem events_diary (c : Client σ) (ts : List (Turn σ)) :
    (c.diary ts).filterMap Entry.event? = told (c.run ts).2 := by
  induction ts generalizing c with
  | nil => rfl
  | cons t rest ih => rw [diary, List.filterMap_append, events_entries, ih, run_cons, told_append]

end Client

/-! ## Conduct -/

inductive Conduct where
  /-- There is no supervisor. -/
  | resting (warned : Bool)
  /-- The supervisor looks for a socket. -/
  | seeking (warned : Bool)
  /-- It has announced that it is back. -/
  | returning
  | online
  /-- It has given up. -/
  | lost (warned : Bool)

namespace Conduct

def isOnline : Conduct → Bool
  | online => true
  | _ => false

def isPresent : Conduct → Bool
  | resting _ => false
  | _ => true

/-- Whether an outage was warned of that is not over. -/
def isWarned : Conduct → Bool
  | resting w | seeking w | lost w => w
  | returning | online => false

/-- Which entry may be made in which conduct, and the conduct afterwards. Whether a supervisor may
end without having told that it has given up is left open. -/
inductive Leads (mayQuit : Prop) : Conduct → Entry → Conduct → Prop
  | start (w : Bool) : Leads mayQuit (resting w) .started (seeking w)
  | connect (id : String) : Leads mayQuit (seeking false) (.told (.connected id)) online
  | announce : Leads mayQuit (seeking true) (.told (.notice .reconnected)) returning
  | reconnect (id : String) : Leads mayQuit returning (.told (.connected id)) online
  | refresh : Leads mayQuit online (.told .profileRefresh) online
  | disconnect : Leads mayQuit online (.told .disconnected) (seeking false)
  | warn : Leads mayQuit (seeking false) (.told (.notice .reconnecting)) (seeking true)
  | giveUp (w : Bool) : Leads mayQuit (seeking w) (.told (.notice .connectionLost)) (lost w)
  | finish (w : Bool) : Leads mayQuit (lost w) (.ended false) (resting w)
  | quit (w asked : Bool) : mayQuit → Leads mayQuit (seeking w) (.ended asked) (resting w)

/-- Entries that lead from one conduct to another. -/
inductive Run (mayQuit : Prop) : Conduct → List Entry → Conduct → Prop
  | nil (s : Conduct) : Run mayQuit s [] s
  | cons {s t u : Conduct} {e : Entry} {l : List Entry} :
      Leads mayQuit s e t → Run mayQuit t l u → Run mayQuit s (e :: l) u

variable {mayQuit : Prop} {s t u : Conduct} {e : Entry} {l m : List Entry}

theorem Run.single (h : Leads mayQuit s e t) : Run mayQuit s [e] t := .cons h (.nil t)

theorem Run.append (h : Run mayQuit s l t) (h' : Run mayQuit t m u) : Run mayQuit s (l ++ m) u := by
  induction h with
  | nil s => exact h'
  | cons hl _ ih => exact .cons hl (ih h')

theorem Run.of_append (h : Run mayQuit s (l ++ m) u) :
    ∃ t, Run mayQuit s l t ∧ Run mayQuit t m u := by
  induction l generalizing s with
  | nil => exact ⟨s, .nil s, h⟩
  | cons e rest ih =>
      cases h with
      | cons hl hrest =>
          obtain ⟨t, hl', hm⟩ := ih hrest
          exact ⟨t, .cons hl hl', hm⟩

/-! ### What lies on the way -/

/-- Entries of two kinds alternate if the conduct knows which of them is next. -/
theorem Run.alternates {kind? : Entry → Option Bool} {knows : Conduct → Bool}
    (hkind : ∀ {s e t}, Leads mayQuit s e t →
      kind? e = none ∧ knows t = knows s ∨ kind? e = some (!knows s) ∧ knows t = !knows s)
    (h : Run mayQuit s l t) : Alternates (!knows s) (l.filterMap kind?) := by
  induction h with
  | nil s => exact .nil _
  | cons hl _ ih =>
      rcases hkind hl with ⟨hnone, hknows⟩ | ⟨hsome, hknows⟩
      · rw [List.filterMap_cons_none hnone, ← hknows]
        exact ih
      · rw [List.filterMap_cons_some hsome]
        rw [hknows] at ih
        exact ⟨rfl, ih⟩

theorem Run.presence (h : Run mayQuit s l t) :
    Alternates (!s.isPresent) (l.filterMap Entry.presence?) :=
  h.alternates fun hl => by cases hl <;> simp [Entry.presence?, isPresent]

theorem Run.connections (h : Run mayQuit s l t) :
    Alternates (!s.isOnline) (l.filterMap Entry.connection?) :=
  h.alternates fun hl => by cases hl <;> simp [Entry.connection?, isOnline]

theorem Run.warnings (h : Run mayQuit s l t) :
    Alternates (!s.isWarned) (l.filterMap Entry.warning?) :=
  h.alternates fun hl => by cases hl <;> simp [Entry.warning?, isWarned]

/-- An announcement is followed by the connection that it announces. -/
theorem Run.connected_of_announced (h : Run mayQuit s l t) (ht : t ≠ returning)
    {before after : List Entry} (hl : l = before ++ .told (.notice .reconnected) :: after) :
    ∃ id rest, after = .told (.connected id) :: rest := by
  subst hl
  obtain ⟨u, -, hafter⟩ := h.of_append
  cases hafter with
  | cons hannounce hrest =>
      cases hannounce with
      | announce =>
          cases hrest with
          | nil => exact absurd rfl ht
          | cons hnext _ =>
              cases hnext with
              | reconnect id => exact ⟨id, _, rfl⟩

/-- While a socket is open it stays open. -/
theorem Run.online_of_not_mem (h : Run mayQuit online l t)
    (hl : Entry.told .disconnected ∉ l) : t = online := by
  induction l with
  | nil => cases h with | nil => rfl
  | cons e rest ih =>
      rw [List.mem_cons, not_or] at hl
      cases h with
      | cons hleads hrest =>
          cases hleads with
          | refresh => exact ih hrest hl.2
          | disconnect => exact absurd rfl hl.1

/-- A warning after a connection comes after its end. -/
theorem Run.disconnected_of_warned (h : Run mayQuit s l t) {before between after : List Entry}
    {id : String}
    (hl : l = before ++ .told (.connected id) :: between ++
      .told (.notice .reconnecting) :: after) :
    .told .disconnected ∈ between := by
  subst hl
  obtain ⟨v, hconnected, hwarned⟩ := h.of_append
  obtain ⟨u, -, hbetween⟩ := hconnected.of_append
  refine Decidable.by_contra fun hnot => ?_
  have honline : v = online := by
    cases hbetween with
    | cons hconnect hrest =>
        cases hconnect with
        | connect | reconnect => exact hrest.online_of_not_mem hnot
  subst honline
  cases hwarned with
  | cons hwarn _ => cases hwarn

/-- A notice that stays is the last word of the supervisor, which ends of itself. -/
theorem Run.ended_of_persistent (h : Run mayQuit s l t) (ht : ∀ w, t ≠ lost w)
    {before after : List Entry} {n : Notice} (hl : l = before ++ .told (.notice n) :: after)
    (hn : n.persistent = true) :
    n = .connectionLost ∧ ∃ rest, after = .ended false :: rest := by
  subst hl
  obtain ⟨u, -, hafter⟩ := h.of_append
  cases hafter with
  | cons htold hrest =>
      cases htold with
      | announce => cases hn
      | warn => cases hn
      | giveUp w =>
          refine ⟨rfl, ?_⟩
          cases hrest with
          | nil => exact absurd rfl (ht w)
          | cons hnext _ =>
              cases hnext with
              | finish => exact ⟨_, rfl⟩

/-- Where a supervisor may not quit, it ends with the notice that it has given up. -/
theorem Run.lost_of_ended (h : Run mayQuit s l t) (hquit : ¬ mayQuit) (hs : ∀ w, s ≠ lost w)
    {before after : List Entry} {asked : Bool} (hl : l = before ++ .ended asked :: after) :
    asked = false ∧ ∃ rest, before = rest ++ [.told (.notice .connectionLost)] := by
  subst hl
  obtain ⟨u, hbefore, hafter⟩ := h.of_append
  obtain ⟨w, rfl, rfl⟩ : ∃ w, u = lost w ∧ asked = false := by
    cases hafter with
    | cons hended _ =>
        cases hended with
        | finish w => exact ⟨w, rfl, rfl⟩
        | quit w asked hmay => exact absurd hmay hquit
  refine ⟨rfl, ?_⟩
  rcases List.eq_nil_or_concat before with rfl | ⟨rest, e, rfl⟩
  · cases hbefore
    exact absurd rfl (hs w)
  · rw [List.concat_eq_append] at hbefore ⊢
    obtain ⟨v, -, hlast⟩ := hbefore.of_append
    cases hlast with
    | cons hlost hnil =>
        cases hnil
        cases hlost with
        | giveUp => exact ⟨rest, rfl⟩

end Conduct

namespace Client

variable {σ : Type}

/-! ## The conduct of a client -/

def conduct (c : Client σ) : Conduct :=
  match c.phase with
  | .idle => .resting c.policy.noticeShown
  | .asking | .opening _ | .waiting => .seeking c.policy.noticeShown
  | .running _ => .online

/-- While a socket is open, no outage is going on. -/
def Reassured (c : Client σ) : Prop := c.phase.isRunning = true → c.policy.noticeShown = false

theorem conduct_ne_returning (c : Client σ) : c.conduct ≠ .returning := by
  unfold conduct
  split <;> nofun

theorem conduct_ne_lost (c : Client σ) (w : Bool) : c.conduct ≠ .lost w := by
  unfold conduct
  split <;> nofun

theorem Undisturbed.conduct {c c' : Client σ} (h : Undisturbed c c') : c'.conduct = c.conduct := by
  rw [Client.conduct, Client.conduct, h.phase, h.policy]

theorem conduct_of_running {c : Client σ} {t : Ticket} (h : c.phase = .running t) :
    c.conduct = .online := by
  rw [conduct, h]

theorem conduct_of_opening {c : Client σ} {t : Ticket} (h : c.phase = .opening t) :
    c.conduct = .seeking c.policy.noticeShown := by
  rw [conduct, h]

theorem conduct_of_waiting {c : Client σ} (h : c.phase = .waiting) :
    c.conduct = .seeking c.policy.noticeShown := by
  rw [conduct, h]

theorem Reassured.of_running {c : Client σ} {t : Ticket} (hc : c.Reassured)
    (h : c.phase = .running t) : c.policy.noticeShown = false := hc (by rw [h]; rfl)

theorem Ends.phase_ne_idle {c d : Client σ} {failed : Bool} {i : Input} {es : List ClientEffect}
    (h : Ends c failed i d es) : c.phase ≠ .idle := by
  cases h with
  | refused hphase | lost hphase => rw [hphase]; nofun

theorem Ends.seesRequest {c d : Client σ} {failed : Bool} {i : Input} {es : List ClientEffect}
    (h : Ends c failed i d es) : c.seesRequest (.input i) = d.shutdown := by
  cases h <;> rfl

/-- What is told when a socket ends leads to a supervisor that looks for another one. -/
theorem conduct_ends {mayQuit : Prop} {c d : Client σ} {failed : Bool} {i : Input}
    {es : List ClientEffect} (h : Ends c failed i d es) (hc : c.Reassured) :
    Conduct.Run mayQuit c.conduct ((told es).map .told) (.seeking d.policy.noticeShown) := by
  cases h with
  | refused hphase =>
      rw [conduct_of_opening hphase]
      exact .nil _
  | lost hphase =>
      rw [conduct_of_running hphase, hc.of_running hphase]
      exact .single .disconnect

variable [MarkerStore σ]

theorem Reassured.move {c : Client σ} {t : Turn σ} {s : Step σ} (h : Move c t s)
    (hc : c.Reassured) : s.1.Reassured := by
  unfold Reassured at *
  cases h with
  | rest same =>
      rw [same.phase, same.policy]
      exact hc
  | opened _ _ same =>
      rw [same.policy]
      exact fun _ => rfl
  | ticked | written | focused => exact hc
  | leave =>
      rw [logout_phase, logout_policy]
      exact hc
  | _ => nofun

/-- A move leads from the conduct before it to the conduct after it. A supervisor that quits was
asked to, or finds no marker although a socket was open. -/
theorem conduct_move {mayQuit : Prop} {c : Client σ} {t : Turn σ} {s : Step σ} (h : Move c t s)
    (hc : c.Reassured)
    (hquit : c.shutdown = true ∨
      c.phase.isRunning = true ∧ MarkerStore.load c.markers = .absent → mayQuit) :
    Conduct.Run mayQuit c.conduct (c.entries t s) s.1.conduct := by
  have hsame := entries_of_same (c := c) (s := s) t
  have hstarted := entries_of_started (c := c) (s := s) t
  have hpresent := entries_of_present (c := c) (s := s) t
  have hended := entries_of_ended (c := c) (s := s) t
  cases h with
  | rest same quiet =>
      rw [hsame same.phase, same.conduct]
      rcases quiet.told with hnone | ⟨hrunning, hrefresh⟩
      · rw [hnone]
        exact .nil _
      · cases hphase : c.phase with
        | running ticket =>
            rw [hrefresh, conduct_of_running hphase]
            exact .single .refresh
        | _ => rw [hphase] at hrunning; cases hrunning
  | ticked | written | focused =>
      rw [hsame rfl]
      exact .nil _
  | leave =>
      rw [hsame c.logout_phase, conduct, conduct, logout_phase, logout_policy]
      exact .nil _
  | «begin» hphase =>
      rw [hstarted hphase nofun, conduct, hphase]
      exact .single (.start _)
  | noTicket e hphase =>
      rw [hended (by rw [hphase]; nofun) rfl, conduct, hphase]
      exact .cons (.giveUp _) (.single (.finish _))
  | ticket ticket hphase =>
      rw [hpresent (by rw [hphase]; nofun) nofun, conduct, hphase]
      exact .nil _
  | opened hphase _ same =>
      rw [hpresent (by rw [hphase]; nofun) (by rw [same.phase]; nofun),
        conduct_of_opening hphase, same.conduct]
      cases c.policy.noticeShown with
      | false => exact .single (.connect _)
      | true => exact .cons .announce (.single (.reconnect _))
  | endOnRequest hends hs =>
      rw [hended hends.phase_ne_idle rfl]
      refine (conduct_ends hends hc).append (.single (.quit _ _ (hquit (.inl ?_))))
      cases hends <;> exact hs
  | endForGood hends hs hm =>
      rw [hended hends.phase_ne_idle rfl, hends.seesRequest, hs, told_append,
        List.map_append, List.append_assoc]
      refine (conduct_ends hends hc).append ?_
      cases hends with
      | refused hphase => exact .cons (.giveUp _) (.single (.finish _))
      | lost hphase => exact .single (.quit _ _ (hquit (.inr ⟨by rw [hphase]; rfl, hm⟩)))
  | endAtOnce hends hs hm =>
      rw [hpresent hends.phase_ne_idle nofun, told_append, List.map_append]
      exact (conduct_ends hends hc).append (.nil _)
  | endForNow hends hs hm =>
      rw [hpresent hends.phase_ne_idle nofun, List.append_assoc, told_append,
        List.map_append]
      refine (conduct_ends hends hc).append ?_
      rename_i d _
      cases d.policy.noticeShown with
      | false => exact .single .warn
      | true => exact .nil _
  | elapsed hphase =>
      rw [hpresent (by rw [hphase]; nofun) nofun, conduct_of_waiting hphase]
      exact .nil _
  | stop hs hphase =>
      rcases hphase with hphase | ⟨ticket, hphase⟩
      · rw [hended (by rw [hphase]; nofun) rfl, conduct_of_waiting hphase]
        exact .single (.quit _ _ (hquit (.inl hs)))
      · rw [hended (by rw [hphase]; nofun) rfl, conduct_of_opening hphase]
        exact .single (.quit _ _ (hquit (.inl hs)))
  | stopOpen hs hphase =>
      rw [hended (by rw [hphase]; nofun) rfl, conduct_of_running hphase]
      have hresting : c.finish.conduct = .resting false := by
        rw [← hc.of_running hphase]
        rfl
      rw [hresting]
      exact .cons .disconnect (.single (.quit _ _ (hquit (.inl hs))))

/-- So a diary leads from the conduct at its beginning to the conduct at its end. -/
theorem conduct_diary (ts : List (Turn σ)) {c : Client σ} (hc : c.Reassured) :
    Conduct.Run True c.conduct (c.diary ts) (c.run ts).1.conduct := by
  induction ts generalizing c with
  | nil => exact .nil _
  | cons t rest ih =>
      have hmove := move_turn c t
      exact (conduct_move hmove hc fun _ => trivial).append (ih (hc.move hmove))

/-! ## The order of what is told -/

/-- Whatever happens to a client, and whoever else writes the marker: the ends of connections follow
their beginnings, one each; so does the announcement that the connection is back follow the warning
that it is lost, and the new connection follows at once. Nothing is warned of while a socket is
open. Supervisors follow one another, and a notice that stays is the last word of one that ends of
itself. -/
theorem told_in_order (config : ClientConfig) (markers : σ) (ts : List (Turn σ)) :
    let c := create config markers
    let diary := c.diary ts
    diary.filterMap Entry.event? = told (c.run ts).2 ∧
    Alternates true (diary.filterMap Entry.connection?) ∧
    Alternates true (diary.filterMap Entry.warning?) ∧
    (∀ before after, diary = before ++ .told (.notice .reconnected) :: after →
      ∃ id rest, after = .told (.connected id) :: rest) ∧
    (∀ before id between after, diary = before ++ .told (.connected id) :: between ++
        .told (.notice .reconnecting) :: after → .told .disconnected ∈ between) ∧
    Alternates true (diary.filterMap Entry.presence?) ∧
    (∀ before n after, diary = before ++ .told (.notice n) :: after → n.persistent = true →
      n = .connectionLost ∧ ∃ rest, after = .ended false :: rest) := by
  intro c diary
  have hc : c.Reassured := nofun
  have hrun : Conduct.Run True (.resting false) diary (c.run ts).1.conduct := conduct_diary ts hc
  refine ⟨events_diary c ts, hrun.connections, hrun.warnings, fun before after hdiary => ?_,
    fun before id between after hdiary => hrun.disconnected_of_warned hdiary, hrun.presence,
    fun before n after hdiary hn => ?_⟩
  · exact hrun.connected_of_announced (conduct_ne_returning _) hdiary
  · exact hrun.ended_of_persistent (conduct_ne_lost _) hdiary hn

end Client

end Parley
