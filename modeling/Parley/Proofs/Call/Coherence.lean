import Parley.Proofs.Call.LocalMedia

/-!
# Agents and the devices

The requests that are out are those that the devices have not answered and those whose answers the
agent has not taken. Along every history they agree with the booth (`Agent.Coherent`), so that a
stream arrives in the current epoch only while the control is pending and never takes the place of
another one.
-/

namespace Parley

namespace Agent

variable {κ : Type} [Connection κ]

def outstanding (a : Agent κ) : List Nat := a.requests.map (·.epoch) ++ a.answers.map (·.1)

/-- The booth agrees with what is out, and an agent that is over has torn its call down and takes
no answers. -/
structure Coherent (a : Agent κ) : Prop where
  agrees : a.call.booth.Agrees a.outstanding
  ended : a.running = false → a.call.ended ∧ a.answers = []

theorem requested_epochs (due : Nat) (effects : List CallEffect) :
    (requested due effects).map (·.epoch) = Call.asked effects := by
  induction effects with
  | nil => rfl
  | cons e rest ih =>
      cases e with
      | acquire video epoch => exact congrArg (epoch :: ·) ih
      | send _ => exact ih
      | tell _ => exact ih
      | report _ => exact ih
      | opened _ _ => exact ih
      | release _ => exact ih

omit [Connection κ] in
theorem coherent_empty : ({} : Agent κ).Coherent :=
  ⟨⟨by simp [outstanding], by simp [outstanding], by simp, by simp⟩, nofun⟩

/-- What an agent that still takes turns performs, its booth performs. -/
theorem booth_perform (s : Setting κ) (i : Call.Input) {a : Agent κ} (h : a.running = true) :
    ((a.perform s i).1.call.booth, Call.released (a.perform s i).2) =
      ((a.call.booth.step i).1, (a.call.booth.step i).2.1) := by
  have hstep := Call.booth_step s a.call i
  unfold perform
  rw [if_neg (by simp [h]), ← hstep]

theorem perm_outstanding_perform (s : Setting κ) (i : Call.Input) {a : Agent κ}
    (h : a.running = true) :
    (a.perform s i).1.outstanding.Perm (a.outstanding ++ (a.call.booth.step i).2.2) := by
  have hstep := Call.booth_step s a.call i
  unfold perform
  rw [if_neg (by simp [h]), ← hstep]
  simp only [outstanding, List.map_append, requested_epochs, List.append_assoc]
  exact List.Perm.append_left _ List.perm_append_comm

theorem running_perform (s : Setting κ) (i : Call.Input) (a : Agent κ) :
    (a.perform s i).1.running = a.running := by
  unfold perform
  split <;> rfl

theorem perform_of_running (s : Setting κ) (i : Call.Input) {a : Agent κ} (h : a.running = true) :
    a.perform s i =
      ({ a with
        call := (a.call.step s i).1
        signals := a.signals ++ reports (a.call.step s i).2
        requests := a.requests ++ requested s.due (a.call.step s i).2 }, (a.call.step s i).2) := by
  unfold perform
  rw [if_neg (by simp [h])]

theorem perform_of_not_running (s : Setting κ) (i : Call.Input) {a : Agent κ}
    (h : a.running = false) : a.perform s i = (a, []) := by
  unfold perform
  rw [h]
  rfl

theorem ended_perform_teardown (s : Setting κ) {a : Agent κ}
    (h : a.running = false → a.call.ended) : (a.perform s .teardown).1.call.ended := by
  by_cases hr : a.running = true
  · have hbooth : (a.perform s .teardown).1.call.booth = a.call.booth.teardown.1 :=
      congrArg Prod.fst (booth_perform s .teardown hr)
    rw [← Call.booth_ended, hbooth]
    exact a.call.booth.teardown_ended
  · have hr : a.running = false := by simpa using hr
    rw [perform_of_not_running s _ hr]
    exact h hr

/-- A step keeps an agent coherent if the booth after it agrees with what was out before and what
it asks for. -/
theorem coherent_perform (s : Setting κ) (i : Call.Input) {a : Agent κ} (h : a.running = true)
    (hb : (a.call.booth.step i).1.Agrees (a.outstanding ++ (a.call.booth.step i).2.2)) :
    (a.perform s i).1.Coherent where
  agrees := by
    have hbooth : (a.perform s i).1.call.booth = (a.call.booth.step i).1 :=
      congrArg Prod.fst (booth_perform s i h)
    rw [hbooth]
    exact hb.perm (perm_outstanding_perform s i h).symm
  ended hr := by
    rw [running_perform, h] at hr
    cases hr

namespace Coherent

variable {a : Agent κ}

theorem perform (h : a.Coherent) (s : Setting κ) {i : Call.Input} (hi : ∀ e r, i ≠ .media e r) :
    (a.perform s i).1.Coherent := by
  by_cases hr : a.running = true
  · refine coherent_perform s i hr ?_
    cases i with
    | session e => exact h.agrees.perm (by simp [Booth.step])
    | start video => exact h.agrees.start
    | leave => exact (h.agrees.leave).perm (by simp [Booth.step])
    | teardown => exact (h.agrees.teardown).perm (by simp [Booth.step])
    | signal signal => exact h.agrees.perm (by simp [Booth.step])
    | media e r => exact absurd rfl (hi e r)
  · rw [perform_of_not_running s i (by simpa using hr)]
    exact h

theorem takeSignal (h : a.Coherent) (s : Setting κ) : (a.takeSignal s).1.Coherent := by
  unfold Agent.takeSignal
  split
  · exact h
  · rename_i signal signals _
    have hrest : ({ a with signals } : Agent κ).Coherent := ⟨h.agrees, h.ended⟩
    exact hrest.perform s nofun

omit [Connection κ] in
/-- Only an agent that still takes turns has answers that wait. -/
theorem of_answer (h : a.Coherent) {e : Nat} {result : Except MediaError MediaStream}
    {answers : List (Nat × Except MediaError MediaStream)}
    (hanswers : a.answers = (e, result) :: answers) :
    a.running = true ∧
      a.call.booth.Agrees (e :: ({ a with answers } : Agent κ).outstanding) := by
  refine ⟨Decidable.byContradiction fun hr => ?_, h.agrees.perm ?_⟩
  · have hnil := (h.ended (by simpa using hr)).2
    rw [hanswers] at hnil
    cases hnil
  · simp only [outstanding, hanswers, List.map_cons]
    exact List.perm_middle

theorem takeAnswer (h : a.Coherent) (s : Setting κ) : (a.takeAnswer s).1.Coherent := by
  unfold Agent.takeAnswer
  split
  · exact h
  · rename_i e result answers hanswers
    obtain ⟨hr, hagrees⟩ := h.of_answer hanswers
    exact coherent_perform s _ hr ((hagrees.media result).perm (by simp [Booth.step]))

/-- Once the call is torn down, the answers that wait can be dropped. -/
theorem finish (h : a.Coherent) (s : Setting κ) : (a.finish s).1.Coherent := by
  have hdown : (a.perform s .teardown).1.Coherent := h.perform s nofun
  have hended := ended_perform_teardown s fun hr => (h.ended hr).1
  refine ⟨hdown.agrees.lose hended ?_, fun _ => ⟨hended, rfl⟩⟩
  simp [Agent.finish, outstanding]

omit [Connection κ] in
theorem answer (h : a.Coherent) (q : Acquisition) (result : Except MediaError MediaStream) :
    (a.answer q result).Coherent := by
  unfold Agent.answer
  split
  · rename_i hq
    have hrequests : (a.requests.map (·.epoch)).Perm
        (q.epoch :: (a.requests.erase q).map (·.epoch)) :=
      (List.perm_cons_erase hq).map (·.epoch)
    by_cases hr : a.running = true
    · rw [if_pos hr]
      refine ⟨h.agrees.perm ((hrequests.append_right _).trans ?_), fun hr' => ?_⟩
      · have hmove := @List.perm_append_comm _ [q.epoch]
          ((a.requests.erase q).map (·.epoch) ++ a.answers.map (·.1))
        simpa [outstanding] using hmove
      · rw [hr] at hr'
        cases hr'
    · have hr : a.running = false := by simpa using hr
      rw [if_neg (by simp [hr])]
      refine ⟨h.agrees.lose (h.ended hr).1 ?_, h.ended⟩
      exact ((List.erase_sublist ..).map _).append_right _
  · exact h

theorem disturb (h : a.Coherent) (remote : String) (serial : Nat) (n : Connection.Network κ) :
    (a.disturb remote serial n).Coherent := by
  unfold Agent.disturb
  split
  · exact h
  · exact ⟨h.agrees, h.ended⟩

theorem turn (h : a.Coherent) (s : Setting κ) (t : Turn κ) : (a.turn s t).1.Coherent := by
  cases t with
  | session e => exact h.perform s nofun
  | sessionEnded => exact h.perform s nofun
  | start video => exact h.perform s nofun
  | leave => exact h.perform s nofun
  | teardown => exact h.finish s
  | dropped => exact h.finish s
  | signal => exact h.takeSignal s
  | media => exact h.takeAnswer s
  | answered q result => exact h.answer q result
  | network remote serial n => exact h.disturb remote serial n

theorem run (h : a.Coherent) (history : List (Setting κ × Turn κ)) :
    (a.run history).1.Coherent := by
  induction history generalizing a with
  | nil => exact h
  | cons st rest ih => exact ih (h.turn st.1 st.2)

end Coherent

end Agent

end Parley
