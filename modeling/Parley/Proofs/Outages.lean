import Parley.Marker.Disk
import Parley.Proofs.Alternation

/-!
# What is told of outages, and what is decided in them

Reconnect policies that share a marker are called in any order. The notices of a policy are the
changes of its flag (`MarkerCall.notices_eq`), whatever the marker is and whoever writes it: it
warns when the flag goes up and tells of the reconnection when it goes down. What is decided hangs
on the marker alone. While nobody but the policies writes it, there are two states of it that last:
an absent marker stays absent until a connection opens, and an active one stays active until the
focus is lost (`MarkerCall.stays_of_absent`, `MarkerCall.waits_of_active`).
-/

namespace Parley

namespace MarkerAnswer

def notice? : MarkerAnswer → Option Notice
  | .decision d => d.notice
  | .notice n => n
  | _ => none

def action? : MarkerAnswer → Option ReconnectAction
  | .decision d => some d.action
  | _ => none

end MarkerAnswer

/-- What is told when a flag that says whether an outage was warned of goes up, or down. -/
def Notice.ofOutage (warned : Bool) : Notice := if warned then .reconnecting else .reconnected

@[simp] theorem Policies.set_self (ps : Policies) (n : Nat) (p : ReconnectPolicy) :
    ps.set n p n = p := if_pos rfl

theorem Policies.set_of_ne (ps : Policies) {n m : Nat} (h : n ≠ m) (p : ReconnectPolicy) :
    ps.set m p n = ps n := if_neg h

namespace MarkerCall

variable {σ : Type} [MarkerStore σ]

/-- The policy that is called, if it is one. -/
def policy? : MarkerCall → Option Nat
  | .close n | .opened n | .noticeShown n => some n
  | _ => none

/-- Calls of one store, each with its answer. -/
def trace (ps : Policies) (s : σ) (calls : List MarkerCall) : List (MarkerCall × MarkerAnswer) :=
  calls.zip (run ps s calls).1

/-- The notices of a policy in a trace. -/
def notices (n : Nat) (t : List (MarkerCall × MarkerAnswer)) : List Notice :=
  t.filterMap fun e => if e.1.policy? = some n then e.2.notice? else none

theorem trace_cons (ps : Policies) (s : σ) (c : MarkerCall) (rest : List MarkerCall) :
    trace ps s (c :: rest) =
      (c, (c.perform ps s).1) :: trace (c.perform ps s).2.1 (c.perform ps s).2.2 rest := rfl

theorem policies_run_cons (ps : Policies) (s : σ) (c : MarkerCall) (rest : List MarkerCall) :
    (run ps s (c :: rest)).2.1 = (run (c.perform ps s).2.1 (c.perform ps s).2.2 rest).2.1 := rfl

theorem length_run (ps : Policies) (s : σ) (calls : List MarkerCall) :
    (run ps s calls).1.length = calls.length := by
  induction calls generalizing ps s with
  | nil => rfl
  | cons c rest ih => exact congrArg (· + 1) (ih _ _)

theorem map_fst_trace (ps : Policies) (s : σ) (calls : List MarkerCall) :
    (trace ps s calls).map Prod.fst = calls :=
  List.map_fst_zip (Nat.le_of_eq (length_run ps s calls).symm)

/-! ## Notices -/

/-- The flag of a policy after each call. -/
def flags (n : Nat) (ps : Policies) (s : σ) : List MarkerCall → List Bool
  | [] => []
  | c :: rest =>
    ((c.perform ps s).2.1 n).noticeShown :: flags n (c.perform ps s).2.1 (c.perform ps s).2.2 rest

/-- A policy that is not called stays as it is. -/
theorem policy_perform_of_ne {c : MarkerCall} {n : Nat} (h : c.policy? ≠ some n) (ps : Policies)
    (s : σ) : (c.perform ps s).2.1 n = ps n := by
  cases c with
  | close m | opened m => exact ps.set_of_ne (fun hm => h (congrArg some hm.symm)) _
  | load | store | focus | noticeShown => rfl

/-- The notice in an answer tells how the flag has changed, if it has. -/
theorem notice?_perform {c : MarkerCall} {n : Nat} (h : c.policy? = some n) (ps : Policies)
    (s : σ) :
    (c.perform ps s).1.notice?.toList =
      (changes (ps n).noticeShown [((c.perform ps s).2.1 n).noticeShown]).map Notice.ofOutage := by
  cases c with
  | load | store | focus => cases h
  | noticeShown m =>
      cases h
      exact (congrArg (List.map Notice.ofOutage) (changes_self_cons _ [])).symm
  | opened m =>
      cases h
      simp only [perform, ReconnectPolicy.onOpen, MarkerAnswer.notice?, Policies.set_self]
      cases (ps n).noticeShown <;> rfl
  | close m =>
      cases h
      simp only [perform, ReconnectPolicy.onClose, MarkerAnswer.notice?, Policies.set_self]
      cases MarkerStore.load s with
      | absent | blurred =>
          exact (congrArg (List.map Notice.ofOutage) (changes_self_cons _ [])).symm
      | active => cases (ps n).noticeShown <;> rfl

/-- The notices of a policy are the changes of its flag. -/
theorem notices_eq (n : Nat) (ps : Policies) (s : σ) (calls : List MarkerCall) :
    notices n (trace ps s calls) =
      (changes (ps n).noticeShown (flags n ps s calls)).map Notice.ofOutage := by
  induction calls generalizing ps s with
  | nil => rfl
  | cons c rest ih =>
      have hrest := ih (c.perform ps s).2.1 (c.perform ps s).2.2
      rw [trace_cons, flags, changes_cons, List.map_append, ← hrest, notices, List.filterMap_cons]
      by_cases hn : c.policy? = some n
      · rw [if_pos hn, ← notice?_perform hn ps s]
        cases (c.perform ps s).1.notice? <;> rfl
      · rw [if_neg hn, policy_perform_of_ne hn ps s, changes_self_cons]
        rfl

theorem getLast?_flags (n : Nat) (ps : Policies) (s : σ) (calls : List MarkerCall) :
    (flags n ps s calls).getLast?.getD (ps n).noticeShown =
      ((run ps s calls).2.1 n).noticeShown := by
  induction calls generalizing ps s with
  | nil => rfl
  | cons c rest ih => rw [flags, List.getLast?_cons, Option.getD_some, ih, policies_run_cons]

theorem ofOutage_eq_reconnecting_iff {b : Bool} :
    Notice.ofOutage b = .reconnecting ↔ b = true := by
  cases b <;> simp [Notice.ofOutage]

/-- A policy that has not warned yet warns first, and then tells one thing and the other in turn. -/
theorem notices_in_turn {n : Nat} {ps : Policies} (hn : (ps n).noticeShown = false) (s : σ)
    (calls : List MarkerCall) :
    let told := notices n (trace ps s calls)
    (∀ x ∈ told, x = .reconnecting ∨ x = .reconnected) ∧
      Alternates true (told.map (· = .reconnecting)) ∧
      (((run ps s calls).2.1 n).noticeShown = true ↔ told.getLast? = some .reconnecting) := by
  intro told
  have htold : told = (changes false (flags n ps s calls)).map Notice.ofOutage := by
    rw [← hn]
    exact notices_eq n ps s calls
  have hlast := getLast?_changes false (flags n ps s calls)
  rw [← hn, getLast?_flags n ps s calls, hn] at hlast
  rw [htold]
  refine ⟨fun x hx => ?_, ?_, ?_⟩
  · obtain ⟨b, -, rfl⟩ := List.mem_map.mp hx
    cases b
    · exact .inr rfl
    · exact .inl rfl
  · rw [List.map_map]
    have hkinds : (fun x => decide (x = Notice.reconnecting)) ∘ Notice.ofOutage = id := by
      funext b
      simp [ofOutage_eq_reconnecting_iff]
    rw [hkinds, List.map_id]
    exact alternates_changes false _
  · rw [List.getLast?_map, ← hlast]
    cases (changes false (flags n ps s calls)).getLast? with
    | none => decide
    | some b => simp [ofOutage_eq_reconnecting_iff]

/-! ## Decisions -/

theorem delay_perform (c : MarkerCall) (ps : Policies) (s : σ) (n : Nat) :
    ((c.perform ps s).2.1 n).delay = (ps n).delay := by
  by_cases hn : c.policy? = some n
  · cases c with
    | load | store | focus | noticeShown => rfl
    | opened m =>
        cases hn
        simp only [perform, ReconnectPolicy.onOpen, Policies.set_self]
    | close m =>
        cases hn
        simp only [perform, ReconnectPolicy.onClose, Policies.set_self]
        cases MarkerStore.load s <;> rfl
  · rw [policy_perform_of_ne hn]

theorem exists_cons_of_trace {ps : Policies} {s : σ} {calls : List MarkerCall}
    {e : MarkerCall × MarkerAnswer} {after : List (MarkerCall × MarkerAnswer)}
    (h : trace ps s calls = e :: after) :
    ∃ c rest, calls = c :: rest ∧ e = (c, (c.perform ps s).1) ∧
      trace (c.perform ps s).2.1 (c.perform ps s).2.2 rest = after := by
  cases calls with
  | nil => cases h
  | cons c rest =>
      rw [trace_cons, List.cons_eq_cons] at h
      exact ⟨c, rest, rfl, h.1.symm, h.2⟩

/-- What stands at a place of a trace was called in some state, and the rest of the trace went on
from there. -/
theorem exists_place {ps : Policies} {s : σ} {calls : List MarkerCall}
    {before after : List (MarkerCall × MarkerAnswer)} {e : MarkerCall × MarkerAnswer}
    (h : trace ps s calls = before ++ e :: after) :
    ∃ (qs : Policies) (t : σ) (rest : List MarkerCall), e.2 = (e.1.perform qs t).1 ∧
      (∀ n, (qs n).delay = (ps n).delay) ∧
      trace (e.1.perform qs t).2.1 (e.1.perform qs t).2.2 rest = after := by
  induction before generalizing ps s calls with
  | nil =>
      obtain ⟨c, rest, rfl, rfl, hrest⟩ := exists_cons_of_trace h
      exact ⟨ps, s, rest, rfl, fun _ => rfl, hrest⟩
  | cons b before ih =>
      obtain ⟨c, rest, rfl, rfl, hrest⟩ := exists_cons_of_trace h
      obtain ⟨qs, t, calls, he, hdelay, hafter⟩ := ih hrest
      exact ⟨qs, t, calls, he, fun n => (hdelay n).trans (delay_perform c ps s n), hafter⟩

/-- Only a close is decided on. -/
theorem exists_close {ps : Policies} {s : σ} {calls : List MarkerCall}
    {e : MarkerCall × MarkerAnswer} (he : e ∈ trace ps s calls) {action : ReconnectAction}
    (h : e.2.action? = some action) : ∃ n, e.1 = .close n := by
  obtain ⟨before, after, htrace⟩ := List.append_of_mem he
  obtain ⟨qs, t, rest, hanswer, -⟩ := exists_place htrace
  rw [hanswer] at h
  cases hc : e.1 with
  | close n => exact ⟨n, rfl⟩
  | load | store | opened | focus | noticeShown =>
      rw [hc] at h
      cases h

/-- An absent marker is left absent by all but a connection that opens, and nothing is decided then
but to stay. -/
theorem perform_of_absent {c : MarkerCall} {s : σ} (hs : MarkerStore.load s = .absent)
    (hopened : ∀ n, c ≠ .opened n) (hstore : ∀ m, c ≠ .store m) (ps : Policies) :
    MarkerStore.load (c.perform ps s).2.2 = .absent ∧
      ∀ n, c = .close n → (c.perform ps s).1.action? = some .stay := by
  cases c with
  | load | noticeShown => exact ⟨hs, nofun⟩
  | store m => exact absurd rfl (hstore m)
  | opened n => exact absurd rfl (hopened n)
  | close n => simp [perform, ReconnectPolicy.onClose, hs, MarkerAnswer.action?]
  | focus focused isOpen => cases focused <;> simp [perform, ReconnectPolicy.onFocus, hs]

/-- Without a marker every connection that ends stays closed, until one opens. -/
theorem stays_of_absent {ps : Policies} {s : σ} {calls : List MarkerCall}
    (hs : MarkerStore.load s = .absent) {before after : List (MarkerCall × MarkerAnswer)} {n : Nat}
    {a : MarkerAnswer} (h : trace ps s calls = before ++ (.close n, a) :: after)
    (hopened : ∀ n, .opened n ∉ before.map Prod.fst)
    (hstore : ∀ m, .store m ∉ before.map Prod.fst) : a.action? = some .stay := by
  induction before generalizing ps s calls with
  | nil =>
      obtain ⟨c, rest, rfl, hc, -⟩ := exists_cons_of_trace h
      obtain ⟨rfl, rfl⟩ := Prod.mk.inj hc
      exact (perform_of_absent (c := .close n) hs nofun nofun ps).2 n rfl
  | cons b before ih =>
      obtain ⟨c, rest, rfl, rfl, hrest⟩ := exists_cons_of_trace h
      simp only [List.map_cons, List.mem_cons, not_or] at hopened hstore
      have hload := (perform_of_absent hs (fun n => Ne.symm (hopened n).1)
        (fun m => Ne.symm (hstore m).1) ps).1
      exact ih hload hrest (fun n => (hopened n).2) fun m => (hstore m).2

variable [LawfulMarkerStore σ]

/-- An active marker is left active by all but a loss of the focus, and nothing is decided then but
to wait. -/
theorem perform_of_active {c : MarkerCall} {s : σ} (hs : MarkerStore.load s = .active)
    (hfocus : ∀ isOpen, c ≠ .focus false isOpen) (hstore : ∀ m, c ≠ .store m) (ps : Policies) :
    MarkerStore.load (c.perform ps s).2.2 = .active ∧
      ∀ n, c = .close n → (c.perform ps s).1.action? = some (.after (ps n).delay) := by
  cases c with
  | load | noticeShown => exact ⟨hs, nofun⟩
  | store m => exact absurd rfl (hstore m)
  | opened n => exact ⟨LawfulMarkerStore.load_store _ _, nofun⟩
  | close n =>
      rw [perform, ReconnectPolicy.onClose, hs]
      refine ⟨hs, ?_⟩
      rintro _ ⟨⟩
      rfl
  | focus focused isOpen =>
      cases focused with
      | false => exact absurd rfl (hfocus isOpen)
      | true => simp [perform, ReconnectPolicy.onFocus, hs]

/-- A decision not to wait leaves an absent marker. -/
theorem load_of_action {c : MarkerCall} {ps : Policies} {s : σ}
    (h : (c.perform ps s).1.action? = some .stay ∨ (c.perform ps s).1.action? = some .immediate) :
    MarkerStore.load (c.perform ps s).2.2 = .absent := by
  cases c with
  | load | store | opened | focus | noticeShown => simp [perform, MarkerAnswer.action?] at h
  | close n =>
      simp only [perform, ReconnectPolicy.onClose, MarkerAnswer.action?] at h ⊢
      cases hs : MarkerStore.load s with
      | absent => exact hs
      | blurred => exact LawfulMarkerStore.load_store _ _
      | active => simp [hs] at h

/-- With an active marker every policy waits for its delay, until the focus is lost. -/
theorem waits_of_active {ps : Policies} {s : σ} {calls : List MarkerCall}
    (hs : MarkerStore.load s = .active) {before after : List (MarkerCall × MarkerAnswer)} {n : Nat}
    {a : MarkerAnswer} (h : trace ps s calls = before ++ (.close n, a) :: after)
    (hfocus : ∀ isOpen, .focus false isOpen ∉ before.map Prod.fst)
    (hstore : ∀ m, .store m ∉ before.map Prod.fst) :
    a.action? = some (.after (ps n).delay) := by
  induction before generalizing ps s calls with
  | nil =>
      obtain ⟨c, rest, rfl, hc, -⟩ := exists_cons_of_trace h
      obtain ⟨rfl, rfl⟩ := Prod.mk.inj hc
      exact (perform_of_active (c := .close n) hs nofun nofun ps).2 n rfl
  | cons b before ih =>
      obtain ⟨c, rest, rfl, rfl, hrest⟩ := exists_cons_of_trace h
      simp only [List.map_cons, List.mem_cons, not_or] at hfocus hstore
      have hload := (perform_of_active hs (fun isOpen => Ne.symm (hfocus isOpen).1)
        (fun m => Ne.symm (hstore m).1) ps).1
      rw [ih hload hrest (fun isOpen => (hfocus isOpen).2) fun m => (hstore m).2, delay_perform]

omit [LawfulMarkerStore σ] in
/-- Calls of policies that were never called before and of the marker they share. Whatever the
marker is and whoever writes it, the notices of each policy are warnings and reconnections in turn,
a warning first, and its flag is up exactly if the last one was a warning. Let the store return what
was stored last, and nobody write the marker but the policies. Then a connection opens between two
decisions to reconnect at once; after a decision to stay, it is decided to stay at every close until
a connection opens; and after a connection opened, it is decided to wait at every close until the
focus is lost. -/
theorem notices_alternate_and_decisions_last (delays : Nat → Nat) (s : σ)
    (calls : List MarkerCall) :
    let ps : Policies := fun n => { delay := delays n }
    let t := trace ps s calls
    (∀ n,
      let told := notices n t
      (∀ x ∈ told, x = .reconnecting ∨ x = .reconnected) ∧
      Alternates true (told.map (· = .reconnecting)) ∧
      (((run ps s calls).2.1 n).noticeShown = true ↔ told.getLast? = some .reconnecting)) ∧
    (LawfulMarkerStore σ → (∀ m, .store m ∉ calls) →
      ∀ before c a between c' a' after, t = before ++ (c, a) :: (between ++ (c', a') :: after) →
        let called := between.map Prod.fst
        (a.action? = some .immediate → a'.action? = some .immediate → ∃ n, .opened n ∈ called) ∧
        (a.action? = some .stay → (∀ n, .opened n ∉ called) →
          ∀ n, c' = .close n → a'.action? = some .stay) ∧
        (∀ m, c = .opened m → (∀ isOpen, .focus false isOpen ∉ called) →
          ∀ n, c' = .close n → a'.action? = some (.after (delays n)))) := by
  intro ps t
  refine ⟨fun n => notices_in_turn rfl s calls,
    fun hlawful hstore before c a between c' a' after ht => ?_⟩
  intro called
  obtain ⟨qs, q, rest, ha, hdelay, hrest⟩ := exists_place ht
  have hquiet : ∀ m, .store m ∉ called := by
    intro m hm
    refine hstore m ?_
    rw [← map_fst_trace ps s calls]
    change .store m ∈ t.map Prod.fst
    rw [ht]
    simp only [List.map_append, List.map_cons, List.mem_append, List.mem_cons]
    exact .inr (.inr (.inl hm))
  refine ⟨fun hfirst hsecond => ?_, fun hstay hopened n hc => ?_, fun m hc hfocus n hc' => ?_⟩
  · by_cases hopened : ∃ n, .opened n ∈ called
    · exact hopened
    · have hmem : (c', a') ∈ t := by simp [ht]
      obtain ⟨n, rfl⟩ := exists_close hmem hsecond
      have hstay := stays_of_absent (load_of_action (.inr (ha ▸ hfirst))) hrest
        (fun n hn => hopened ⟨n, hn⟩) hquiet
      rw [hstay] at hsecond
      cases hsecond
  · subst hc
    exact stays_of_absent (load_of_action (.inl (ha ▸ hstay))) hrest hopened hquiet
  · subst hc hc'
    have hload : MarkerStore.load ((MarkerCall.opened m).perform qs q).2.2 = .active :=
      LawfulMarkerStore.load_store _ _
    rw [waits_of_active hload hrest hfocus hquiet, delay_perform, hdelay]

/-- The connection is lost in the background, and again before and after it could be opened. -/
theorem notices_alternate_and_decisions_last_blurred :
    let ps : Policies := fun _ => { delay := 2000 }
    let calls : List MarkerCall :=
      [.close 0, .close 0, .focus true true, .opened 0, .close 0, .close 0, .opened 0,
        .focus false true, .close 0]
    let t := trace ps Marker.blurred calls
    t.map (·.2.action?) =
        [some .immediate, some .stay, none, none, some (.after 2000), some (.after 2000), none,
          none, some .immediate] ∧
      notices 0 t = [.reconnecting, .reconnected] ∧
      Alternates true ((notices 0 t).map (· = .reconnecting)) ∧
      ∃ n, .opened n ∈ ((t.drop 1).take 7).map Prod.fst := by
  intro ps calls t
  obtain ⟨htold, hdecided⟩ :=
    notices_alternate_and_decisions_last (fun _ => 2000) Marker.blurred calls
  have hopened := (hdecided inferInstance (by simp [calls]) [] (.close 0)
    (.decision ⟨.immediate, none⟩) ((t.drop 1).take 7) (.close 0) (.decision ⟨.immediate, none⟩) []
    (by decide)).1
  exact ⟨by decide, by decide, (htold 0).2.1, hopened rfl rfl⟩

end MarkerCall

end Parley
