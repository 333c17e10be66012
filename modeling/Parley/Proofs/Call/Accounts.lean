import Parley.Proofs.Call.Reports
import Parley.Proofs.Call.Turns
import Parley.Proofs.Call.Withdrawals

/-!
# Candidates under way

Between the connection of a link and the sink its candidates are under way: some wait as reports
that the agent has not taken, some in the queue of the link. In each turn a link takes up what its
connection finds meanwhile, hands candidates out from the front, and nothing overtakes anything
(`Connection.Passage`). A turn can mix this up for no link, whatever the others and earlier links to
the same participant do (`Agent.Turned`); this holds of every turn (`Agent.Orderly.turn`).
-/

namespace Parley

/-! ## A stretch of the way -/

namespace Connection

variable {κ : Type} [Connection κ]

/-- A connection goes on in its course while its candidates go on in theirs: of those under way
`before` and those found meanwhile, in this order, some are `sent` and the rest is under way `after`.
Only `blocks` of what leaves is not sent. -/
def Passage (p : κ) (before : List Candidate) (q : κ) (after sent : List Candidate)
    (blocks : List (List Candidate)) : Prop :=
  ∃ events taken, Course p q events ∧ before ++ gatheredIn events = taken ++ after ∧
    Without blocks taken sent

namespace Passage

variable {p q r : κ} {before middle after sent sent' : List Candidate}
  {blocks blocks' : List (List Candidate)}

theorem refl (p : κ) (before : List Candidate) : Passage p before p before [] [] :=
  ⟨[], [], .nothing, List.append_nil _, .nothing⟩

theorem trans (h : Passage p before q middle sent blocks)
    (h' : Passage q middle r after sent' blocks') :
    Passage p before r after (sent ++ sent') (blocks ++ blocks') := by
  obtain ⟨events, taken, hcourse, hway, hwithout⟩ := h
  obtain ⟨events', taken', hcourse', hway', hwithout'⟩ := h'
  refine ⟨events ++ events', taken ++ taken', hcourse.trans hcourse', ?_, hwithout.append hwithout'⟩
  rw [gatheredIn_append, ← List.append_assoc, hway, List.append_assoc, hway', List.append_assoc]

/-- What was sent and what is under way is what was under way before and what was found since. -/
theorem accounts [Gathers κ] (h : Passage p before q after sent blocks) :
    ∃ since, found q = found p ++ since ∧ Without blocks (before ++ since) (sent ++ after) := by
  obtain ⟨events, taken, hcourse, hway, hwithout⟩ := h
  refine ⟨gatheredIn events, found_of_course hcourse, ?_⟩
  rw [hway]
  exact hwithout.keep after

end Passage

end Connection

open Connection (Passage)

/-! ## One turn -/

namespace Agent

variable {κ : Type}

/-- The candidates of a link whose reports the agent has not taken. -/
def untaken (r : String) (n : Nat) (a : Agent κ) : List Candidate :=
  gatheredIn (Call.eventsFrom r n a.signals)

/-- The candidates of a link that are neither sent nor withdrawn. -/
def underWay (r : String) (l : Link κ) (a : Agent κ) : List Candidate :=
  l.queue ++ a.untaken r l.serial

variable [Connection κ]

/-- The candidates that a turn withdraws on the link with a number. -/
def Turn.withdrawn (s : Setting κ) (r : String) (n : Nat) (a : Agent κ) :
    Turn κ → List (List Candidate)
  | .session e => Call.blocksOf ((a.call.withdraws s r e).filter (·.serial = n))
  | _ => []

omit [Connection κ] in
/-- The call is proper, an ended call has no links, an agent that takes no turns has ended its call,
and every report is of a link that was made. -/
structure Orderly (a : Agent κ) : Prop where
  proper : a.call.Proper
  ended : a.call.ended → a.call.links = .empty
  stopped : a.running = false → a.call.ended
  past : ∀ x ∈ a.signals, x.serial ≤ a.call.serial

/-- What a turn does to the links and their candidates. `blocks` are the candidates that are
withdrawn on the links with their numbers. -/
structure Turned (s : Setting κ) (a : Agent κ) (t : Agent κ × List CallEffect)
    (blocks : String → Nat → List (List Candidate)) : Prop where
  orderly : t.1.Orderly
  grows : a.call.serial ≤ t.1.call.serial
  opens : ∀ r n, .opened r n ∈ t.2 → n ≤ t.1.call.serial
  carries : ∀ r k, t.1.call.links.find? r = some k → ∃ l, Call.Origin s r a.call l ∧
    k.serial = l.serial ∧ Passage l.peer (a.underWay r l) k.peer (t.1.underWay r k)
      (Call.candidatesTo r t.2) (blocks r l.serial)
  marks : ∀ r k, a.call.links.find? r = none → t.1.call.links.find? r = some k →
    .opened r k.serial ∈ t.2 ∧ Call.sentSince r k.serial t.2 = Call.candidatesTo r t.2

/-- Nothing is withdrawn. -/
abbrev noneWithdrawn : String → Nat → List (List Candidate) := fun _ _ => []

variable {s : Setting κ} {a : Agent κ}

omit [Connection κ] in
theorem Orderly.empty : ({} : Agent κ).Orderly := ⟨.empty, fun _ => rfl, nofun, nofun⟩

omit [Connection κ] in
theorem Orderly.of_link (h : a.Orderly) {r : String} {l : Link κ}
    (hl : a.call.links.find? r = some l) : ¬ a.call.ended ∧ a.running = true := by
  have hlive : ¬ a.call.ended := by
    intro hend
    rw [h.ended hend] at hl
    cases hl
  exact ⟨hlive, by simpa using fun hstop => hlive (h.stopped hstop)⟩

omit [Connection κ] in
/-- No report of a link that is yet to be made waits. -/
theorem Orderly.untaken_eq_nil (h : a.Orderly) {n : Nat} (hn : a.call.serial < n) (r : String) :
    a.untaken r n = [] := by
  have hnone : Call.eventsFrom r n a.signals = [] := by
    refine Call.eventsFrom_eq_nil fun x hx _ => ?_
    have hle := h.past x hx
    omega
  rw [untaken, hnone]
  rfl

namespace Turned

variable {t : Agent κ × List CallEffect} {blocks : String → Nat → List (List Candidate)}

/-- A turn after which no links are left. -/
theorem of_no_links (horderly : t.1.Orderly) (hgrows : a.call.serial ≤ t.1.call.serial)
    (hlinks : t.1.call.links = .empty) (h : ∀ e ∈ t.2, Call.Idle e) : Turned s a t blocks where
  orderly := horderly
  grows := hgrows
  opens r n hn := absurd hn (Call.not_opened_of_idle h r n)
  carries r k hk := by
    rw [hlinks] at hk
    cases hk
  marks r k _ hk := by
    rw [hlinks] at hk
    cases hk

/-- A turn in which every link stays as it is or carries on, and none is made. -/
theorem of_stands (horderly : t.1.Orderly) (hgrows : a.call.serial ≤ t.1.call.serial)
    (hopens : ∀ r n, .opened r n ∉ t.2)
    (h : ∀ r k, t.1.call.links.find? r = some k → ∃ l, a.call.links.find? r = some l ∧
      k.serial = l.serial ∧ Passage l.peer (a.underWay r l) k.peer (t.1.underWay r k)
        (Call.candidatesTo r t.2) []) : Turned s a t noneWithdrawn where
  orderly := horderly
  grows := hgrows
  opens r n hn := absurd hn (hopens r n)
  carries r k hk := by
    obtain ⟨l, hl, hserial, hpassage⟩ := h r k hk
    exact ⟨l, .stands hl, hserial, hpassage⟩
  marks r k hnone hk := by
    obtain ⟨l, hl, -⟩ := h r k hk
    rw [hnone] at hl
    cases hl

/-- A turn that neither the call nor the reports that wait notice. -/
theorem aside {b : Agent κ} (hb : b.Orderly) (hcall : b.call = a.call)
    (hsignals : b.signals = a.signals) : Turned s a (b, []) noneWithdrawn := by
  refine .of_stands hb (Nat.le_of_eq (by rw [hcall])) (fun _ _ => List.not_mem_nil) fun r k hk => ?_
  have hk : a.call.links.find? r = some k := by rwa [hcall] at hk
  have hway : b.underWay r k = a.underWay r k := by rw [underWay, untaken, hsignals]; rfl
  refine ⟨k, hk, rfl, ?_⟩
  rw [hway]
  exact .refl _ _

end Turned

/-- What a step does to the links is what the agent's turn does to them. -/
theorem Orderly.perform (h : a.Orderly) {i : Call.Input} (hi : i ≠ .teardown)
    {blocks : String → List (List Candidate)} {blocks' : String → Nat → List (List Candidate)}
    (hstep : Call.Keeps s a.call (a.call.step s i) blocks)
    (hblocks : ∀ r l, Call.Origin s r a.call l → blocks r = blocks' r l.serial) :
    Turned s a (a.perform s i) blocks' := by
  by_cases hr : a.running = true
  · rw [perform_of_running s i hr]
    refine ⟨⟨hstep.proper, fun hend => ?_, fun hstop => ?_, fun x hx => ?_⟩, hstep.grows,
      hstep.opens, fun r k hk => ?_, hstep.marks⟩
    · dsimp only at hend ⊢
      rw [Call.step_ended s a.call hi] at hend
      rw [Call.step_of_ended s i hend]
      exact h.ended hend
    · rw [hr] at hstop
      cases hstop
    · rcases List.mem_append.mp hx with hold | hnew
      · exact Nat.le_trans (h.past x hold) hstep.grows
      · exact hstep.past x hnew
    · obtain ⟨l, horigin, hcarries⟩ := hstep.carries r k hk
      obtain ⟨taken, hqueue, hwithout⟩ := hcarries.queue
      refine ⟨l, horigin, hcarries.serial, _, taken, hcarries.course, ?_,
        hblocks r l horigin ▸ hwithout⟩
      simp only [underWay, untaken, Call.eventsFrom_append, gatheredIn_append, hcarries.serial,
        hqueue, List.append_assoc]
  · have hstop : a.running = false := by simpa using hr
    rw [perform_of_not_running s i hstop]
    exact .of_no_links h (Nat.le_refl _) (h.ended (h.stopped hstop)) (List.forall_mem_nil _)

theorem Orderly.perform_quiet (h : a.Orderly) {i : Call.Input} (hi : i ≠ .teardown)
    (hstep : Call.Keeps s a.call (a.call.step s i) Call.noBlocks) :
    Turned s a (a.perform s i) noneWithdrawn :=
  h.perform hi hstep fun _ _ _ => rfl

theorem Orderly.perform_teardown (h : a.Orderly) :
    (a.perform s .teardown).1.Orderly ∧
      a.call.serial ≤ (a.perform s .teardown).1.call.serial ∧
      (a.perform s .teardown).1.call.links = .empty ∧
      ∀ e ∈ (a.perform s .teardown).2, Call.Idle e := by
  have hended := ended_perform_teardown s h.stopped
  by_cases hr : a.running = true
  · have hidle := Call.idle_teardown a.call
    have hstep : a.call.step s .teardown = a.call.teardown := rfl
    have hlinks : a.call.teardown.1.links = .empty := by
      by_cases hend : a.call.ended
      · rw [Call.teardown, if_pos hend]
        exact h.ended hend
      · rw [Call.teardown, if_neg hend]
        exact Call.setControl_links .start _
    rw [perform_of_running s _ hr, hstep, Call.reports_of_idle hidle, List.append_nil]
    refine ⟨⟨h.proper.teardown, fun _ => hlinks, fun hstop => ?_, fun x hx => ?_⟩,
      Nat.le_of_eq (Call.serial_teardown a.call).symm, hlinks, hidle⟩
    · rw [hr] at hstop
      cases hstop
    · rw [Call.serial_teardown]
      exact h.past x hx
  · have hstop : a.running = false := by simpa using hr
    rw [perform_of_not_running s _ hstop] at hended ⊢
    exact ⟨h, Nat.le_refl _, h.ended hended, List.forall_mem_nil _⟩

theorem Orderly.finish (h : a.Orderly) {blocks : String → Nat → List (List Candidate)} :
    Turned s a (a.finish s) blocks := by
  obtain ⟨horderly, hgrows, hlinks, hidle⟩ := h.perform_teardown (s := s)
  have hended := ended_perform_teardown s h.stopped
  exact .of_no_links ⟨horderly.proper, horderly.ended, fun _ => hended, nofun⟩ hgrows hlinks hidle

/-! ## Reports -/

section

variable {b : Agent κ} {x : PeerSignal} (hsignals : a.signals = x :: b.signals)

include hsignals

omit [Connection κ] in
/-- A report that is taken leaves what is under way on a link alone if it brings the link nothing. -/
theorem underWay_of_passed {r : String} {l : Link κ}
    (h : x.remote = r → l.serial = x.serial → gatheredIn [x.event] = []) :
    a.underWay r l = b.underWay r l := by
  simp only [underWay, untaken, hsignals, Call.eventsFrom_cons, gatheredIn_append]
  split
  · rename_i hx
    rw [h hx.1 hx.2.symm, List.nil_append]
  · rfl

omit [Connection κ] in
theorem underWay_of_heard {l : Link κ} (hserial : l.serial = x.serial) :
    a.underWay x.remote l = l.queue ++ gatheredIn [x.event] ++ b.untaken x.remote l.serial := by
  simp only [underWay, untaken, hsignals, Call.eventsFrom_cons, gatheredIn_append, hserial,
    and_self, if_true, List.append_assoc]

/-- A report that is taken is accounted for on its own link, and nothing changes on the others. -/
theorem Orderly.turned_of_taken (h : a.Orderly) {t : Call.Step κ} (hcall : b.call = t.1)
    (hrunning : b.running = true) (hended : ¬ t.1.ended) (ht : Call.Taken a.call x t) :
    Turned s a (b, t.2) noneWithdrawn := by
  have horderly : b.call.Proper → b.call.serial = a.call.serial → b.Orderly := by
    intro hproper hserial
    refine ⟨hproper, fun hend => ?_, fun hstop => ?_, fun y hy => ?_⟩
    · rw [hcall] at hend
      exact absurd hend hended
    · rw [hrunning] at hstop
      cases hstop
    · rw [hserial]
      exact h.past y (by simp [hsignals, hy])
  cases ht with
  | passed hnone =>
      refine .of_stands (horderly (hcall ▸ h.proper) (by rw [hcall])) (Nat.le_of_eq (by rw [hcall]))
        (fun _ _ => List.not_mem_nil) fun r k hk => ?_
      have hk : a.call.links.find? r = some k := by rwa [hcall] at hk
      refine ⟨k, hk, rfl, ?_⟩
      rw [underWay_of_passed hsignals fun hr hserial => hnone k (hr ▸ hk) hserial]
      exact .refl _ _
  | removed =>
      have hserial : b.call.serial = a.call.serial := by rw [hcall, Call.serial_remove]
      have hidle := Call.idle_remove x.remote a.call
      refine .of_stands (horderly (hcall ▸ h.proper.remove _) hserial) (Nat.le_of_eq hserial.symm)
        (Call.not_opened_of_idle hidle) fun r k hk => ?_
      obtain ⟨hr, hk⟩ := Call.find?_of_remove (hcall ▸ hk)
      refine ⟨k, hk, rfl, ?_⟩
      rw [underWay_of_passed hsignals fun hr' => absurd hr'.symm hr, Call.candidatesTo_of_idle hidle]
      exact .refl _ _
  | @joined l k effects hl hserial hk hquiet hreports hopened =>
      refine .of_stands (horderly ?_ (by rw [hcall]; rfl)) (Nat.le_of_eq (by rw [hcall]; rfl))
        hopened fun r k' hk' => ?_
      · rw [hcall]
        exact h.proper.put hl hk.remote hk.serial hk.live
      · have hk' : (a.call.put x.remote k).links.find? r = some k' := by rwa [hcall] at hk'
        by_cases hr : r = x.remote
        · subst hr
          rw [Call.find?_put_self, Option.some.injEq] at hk'
          subst hk'
          obtain ⟨taken, hqueue, hwithout⟩ := hk.queue
          have hsame : k.serial = l.serial := hk.serial
          refine ⟨l, hl, hsame, [], taken, hk.course, ?_, hwithout⟩
          rw [underWay_of_heard hsignals hserial, underWay, hsame, gatheredIn_nil, List.append_nil,
            ← List.append_assoc, ← hqueue]
        · rw [Call.find?_put_of_ne hr] at hk'
          refine ⟨k', hk', rfl, ?_⟩
          rw [underWay_of_passed hsignals fun hr' => absurd hr'.symm hr, hquiet r hr]
          exact .refl _ _

end

theorem perform_signal_of_ended (s : Setting κ) (x : PeerSignal) (hend : a.call.ended) :
    ∃ b, a.perform s (.signal x) = (b, []) ∧ b.call = a.call := by
  unfold Agent.perform
  split
  · exact ⟨a, rfl, rfl⟩
  · have hstep : a.call.step s (.signal x) = (a.call, []) := if_pos hend
    rw [hstep]
    exact ⟨_, rfl, rfl⟩

theorem Orderly.takeSignal (h : a.Orderly) : Turned s a (a.takeSignal s) noneWithdrawn := by
  unfold Agent.takeSignal
  cases hsignals : a.signals with
  | nil => exact .aside h rfl rfl
  | cons x rest =>
      dsimp only
      let a' : Agent κ := { a with signals := rest }
      have hrest : a'.Orderly :=
        ⟨h.proper, h.ended, h.stopped, fun y hy =>
          h.past y (hsignals ▸ List.mem_cons_of_mem x hy)⟩
      by_cases hend : a.call.ended
      · have hstep : a'.call.step s (.signal x) = (a'.call, []) := if_pos hend
        have hturned : Turned s a' (a'.perform s (.signal x)) noneWithdrawn :=
          hrest.perform_quiet (i := .signal x) nofun (hstep ▸ Call.Keeps.nothing h.proper)
        obtain ⟨b, hb, hcall⟩ := a'.perform_signal_of_ended s x hend
        change Turned s a (a'.perform s (.signal x)) noneWithdrawn
        rw [hb] at hturned ⊢
        refine .of_no_links hturned.orderly hturned.grows ?_ (List.forall_mem_nil _)
        exact (congrArg Call.links hcall).trans (h.ended hend)
      · have hrunning : a'.running = true := by
          simpa using fun hstop => hend (hrest.stopped hstop)
        have htaken := Call.taken_onSignal h.proper hend x
        have hlive : ¬ (a.call.onSignal x).1.ended := by
          have hstep : (a.call.onSignal x).1.ended = a.call.ended :=
            Call.step_ended s a.call (i := .signal x) nofun
          rwa [hstep]
        change Turned s a (a'.perform s (.signal x)) noneWithdrawn
        rw [perform_of_running s _ hrunning]
        refine h.turned_of_taken ?_ rfl hrunning hlive htaken
        change a.signals = x :: (rest ++ reports (a.call.onSignal x).2)
        rw [htaken.reports_eq_nil, List.append_nil, hsignals]

/-! ## The network -/

/-- What the connection of one link reports is accounted for on that link. -/
theorem Orderly.disturb (h : a.Orderly) (remote : String) (serial : Nat)
    (n : Connection.Network κ) : Turned s a (a.disturb remote serial n, []) noneWithdrawn := by
  unfold Agent.disturb
  split
  · exact .aside h rfl rfl
  · rename_i l hl
    have hproper := h.proper.updatePeer remote serial fun p => (Connection.network p n).1
    have hnumber : serial ≤ a.call.serial := by
      have hserial : l.serial = serial := by simpa using List.find?_some hl
      rw [← hserial]
      exact h.proper.le_of_made (List.mem_of_find?_eq_some hl)
    refine .of_stands ⟨hproper, fun hend => ?_, h.stopped, ?_⟩
      (Nat.le_refl _) (fun _ _ => List.not_mem_nil) fun r k' hk' => ?_
    · have hlinks := h.ended hend
      simp only [Call.updatePeer, hlinks]
      rfl
    · intro x hx
      dsimp only at hx
      split at hx
      · rcases List.mem_append.mp hx with hold | hnew
        · exact h.past x hold
        · obtain ⟨e, -, rfl⟩ := List.mem_map.mp hnew
          exact hnumber
      · exact h.past x hx
    · simp only [Call.updatePeer, Table.find?_map] at hk'
      obtain ⟨k, hk, hupdate⟩ := Option.map_eq_some_iff.mp hk'
      have hrunning := (h.of_link hk).2
      have hremote := h.proper.remote r k hk
      simp only [hrunning, if_true]
      split at hupdate
      · rename_i hit
        subst hupdate
        obtain ⟨rfl, rfl⟩ := hit
        -- The reports are of the link that stands and not of a closed one with its number.
        rw [hremote] at hl
        obtain rfl := h.proper.find?_made hk hl
        refine ⟨l, hk, rfl, (Connection.network l.peer n).2, [], .network .nothing n, ?_, .nothing⟩
        simp only [underWay, untaken, Call.eventsFrom_append, Call.eventsFrom_tagged,
          gatheredIn_append, hremote, and_self, if_true, List.append_assoc, List.nil_append]
      · rename_i hmiss
        subst hupdate
        refine ⟨k, hk, rfl, ?_⟩
        have hnone : ¬ (remote = r ∧ serial = k.serial) := by
          rintro ⟨hr, hserial⟩
          exact hmiss ⟨hremote.trans hr.symm, hserial.symm⟩
        simp only [underWay, untaken, Call.eventsFrom_append, Call.eventsFrom_tagged, hnone,
          if_false, List.append_nil]
        exact .refl _ _

/-! ## All turns -/

theorem Orderly.takeAnswer (h : a.Orderly) : Turned s a (a.takeAnswer s) noneWithdrawn := by
  unfold Agent.takeAnswer
  split
  · exact .aside h rfl rfl
  · rename_i epoch result answers _
    have hrest : ({ a with answers } : Agent κ).Orderly := ⟨h.proper, h.ended, h.stopped, h.past⟩
    have hturned := hrest.perform_quiet (i := .media epoch result) nofun
      (Call.keeps_onMedia (s := s) h.proper epoch result)
    exact ⟨hturned.orderly, hturned.grows, hturned.opens, hturned.carries, hturned.marks⟩

theorem Orderly.answer (h : a.Orderly) (q : Acquisition)
    (result : Except MediaError MediaStream) :
    Turned s a (a.answer q result, []) noneWithdrawn := by
  unfold Agent.answer
  split
  · exact .aside ⟨h.proper, h.ended, h.stopped, h.past⟩ rfl rfl
  · exact .aside h rfl rfl

/-- Only a link that stands has candidates that can be withdrawn. -/
theorem blocksOf_withdraws {r : String} {l : Link κ} (e : SessionEvent)
    (h : Call.Origin s r a.call l) :
    Call.blocksOf (a.call.withdraws s r e) = (Turn.session e).withdrawn s r l.serial a := by
  rw [Turn.withdrawn]
  cases hw : a.call.withdraws s r e with
  | none => rfl
  | some k =>
      have hk := Call.find?_of_withdraws hw
      cases h with
      | stands hl =>
          rw [hl, Option.some.injEq] at hk
          rw [hk, Option.filter_some_pos (by simp)]
      | made hnone _ _ =>
          rw [hnone] at hk
          cases hk

theorem Orderly.turn (h : a.Orderly) (s : Setting κ) (t : Turn κ) :
    Turned s a (a.turn s t) fun r n => t.withdrawn s r n a := by
  cases t with
  | session e =>
      exact h.perform (i := .session e) nofun (Call.keeps_onSession h.proper h.ended e)
        fun _ _ => blocksOf_withdraws e
  | sessionEnded =>
      obtain ⟨horderly, hgrows, hlinks, hidle⟩ := h.perform_teardown (s := s)
      exact .of_no_links horderly hgrows hlinks hidle
  | start video =>
      exact h.perform_quiet (i := .start video) nofun (Call.keeps_startMedia h.proper video)
  | leave => exact h.perform_quiet (i := .leave) nofun (Call.keeps_leave h.proper)
  | teardown => exact h.finish
  | dropped => exact h.finish
  | signal => exact h.takeSignal
  | media => exact h.takeAnswer
  | answered q result => exact h.answer q result
  | network remote serial n => exact h.disturb remote serial n

theorem Orderly.run (h : a.Orderly) (history : List (Setting κ × Turn κ)) :
    (a.run history).1.Orderly := by
  induction history generalizing a with
  | nil => exact h
  | cons st rest ih => exact ih (h.turn st.1 st.2).orderly

end Agent

end Parley
