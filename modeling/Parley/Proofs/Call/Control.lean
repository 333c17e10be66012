import Parley.Proofs.Call.Tracks

/-!
# The control says what is out

The control for media, the published stream, the epoch and the requests to the devices change on
different occasions: a start, an answer of the devices, a failure, a leave while the devices are
still busy, another start after that. They stay in step all the same, because the agent's requests
agree with its booth whatever it lived through (`Agent.Coherent`). Read off that agreement: from the
control alone one knows whether a stream is published and how many requests of the current epoch
are out; requests of earlier epochs are too late for good, since epochs only grow; and a stream is
published only in the one place that nothing else can take at the same time.
-/

namespace Parley

namespace Booth

namespace Agrees

variable {b : Booth} {out : List Nat}

theorem pending_iff (h : b.Agrees out) :
    b.control = .pending ↔ b.held = none ∧ out.count b.epoch = 1 := by
  have hcount := h.pending
  constructor
  · intro hc
    rw [if_pos hc] at hcount
    exact ⟨h.held_eq_none (by simp [hc]), hcount⟩
  · rintro ⟨-, hone⟩
    by_cases hc : b.control = .pending
    · exact hc
    · rw [if_neg hc] at hcount
      omega

theorem start_iff (h : b.Agrees out) :
    b.control = .start ↔ b.held = none ∧ b.epoch ∉ out := by
  have hcount := h.pending
  constructor
  · intro hc
    rw [if_neg (by simp [hc])] at hcount
    exact ⟨h.held_eq_none (by simp [hc]), List.count_eq_zero.mp hcount⟩
  · rintro ⟨hheld, hnot⟩
    rw [List.count_eq_zero.mpr hnot] at hcount
    cases hc : b.control with
    | start => rfl
    | pending => simp [hc] at hcount
    | stop =>
        have hsome := h.holds.mpr hc
        rw [hheld] at hsome
        cases hsome

theorem lt_of_ne (h : b.Agrees out) {e : Nat} (he : e ∈ out) (hne : e ≠ b.epoch) :
    e < b.epoch := by
  have hle := h.past e he
  omega

end Agrees

theorem epoch_le_step (b : Booth) (i : Call.Input) : b.epoch ≤ (b.step i).1.epoch := by
  cases i with
  | session e => exact Nat.le_refl _
  | signal signal => exact Nat.le_refl _
  | start video =>
      change b.epoch ≤ b.start.1.epoch
      unfold start
      split <;> exact Nat.le_refl _
  | leave =>
      change b.epoch ≤ b.leave.1.epoch
      unfold leave
      split
      · exact Nat.le_refl _
      · exact Nat.le_succ _
  | teardown =>
      change b.epoch ≤ b.teardown.1.epoch
      unfold teardown
      split
      · exact Nat.le_refl _
      · exact Nat.le_succ _
  | media e result =>
      change b.epoch ≤ (b.media e result).1.epoch
      unfold media
      split
      · exact Nat.le_refl _
      · cases result <;> exact Nat.le_refl _

/-- An answer that comes too late is given back. -/
theorem media_of_ne {b : Booth} {e : Nat} (h : e ≠ b.epoch)
    (result : Except MediaError MediaStream) : b.media e result = (b, brought result, []) :=
  if_pos (.inr h)

/-- Only an answer in the current epoch publishes anything. -/
theorem held_step {b : Booth} {i : Call.Input} {stream : MediaStream}
    (h : (b.step i).1.held = some stream) :
    b.held = some stream ∨ i = .media b.epoch (.ok stream) := by
  cases i with
  | session e => exact .inl h
  | signal signal => exact .inl h
  | start video =>
      change b.start.1.held = some stream at h
      unfold start at h
      split at h <;> exact .inl h
  | leave =>
      change b.leave.1.held = some stream at h
      unfold leave at h
      split at h
      · exact .inl h
      · cases h
  | teardown =>
      change b.teardown.1.held = some stream at h
      unfold teardown at h
      split at h
      · exact .inl h
      · cases h
  | media e result =>
      change (b.media e result).1.held = some stream at h
      unfold media at h
      split at h
      · exact .inl h
      · rename_i hnow
        rw [not_or, ne_eq, Decidable.not_not] at hnow
        cases result with
        | error _ => exact .inl h
        | ok s =>
            have hs : s = stream := Option.some.inj h
            exact .inr (by rw [hnow.2, hs])

end Booth

namespace Agent

variable {κ : Type} [Connection κ]

/-- What a turn gives to the call, if it gives it anything. -/
def input? (a : Agent κ) (t : Turn κ) : Option Call.Input :=
  if a.running = false then none
  else
    match t with
    | .session e => some (.session e)
    | .sessionEnded | .teardown | .dropped => some .teardown
    | .start video => some (.start video)
    | .leave => some .leave
    | .signal => a.signals.head?.map .signal
    | .media => a.answers.head?.map fun answer => .media answer.1 answer.2
    | .answered _ _ | .network _ _ _ => none

/-- In a turn the booth takes the step for what the call is given. -/
def boothAfter (a : Agent κ) (t : Turn κ) : Booth :=
  match a.input? t with
  | some i => (a.call.booth.step i).1
  | none => a.call.booth

/-- What waits does not matter to a step, only what it is given. -/
theorem booth_given (s : Setting κ) (i : Call.Input) {a b : Agent κ} {t : Turn κ}
    (hcall : b.call = a.call) (hrunning : b.running = a.running)
    (hi : a.input? t = if a.running = false then none else some i) :
    (b.perform s i).1.call.booth = a.boothAfter t := by
  unfold boothAfter
  by_cases hr : a.running = false
  · rw [perform_of_not_running s i (hrunning.trans hr), hcall, hi, if_pos hr]
  · have hbooth := congrArg Prod.fst (booth_perform s i (hrunning.trans (by simpa using hr)))
    rw [hi, if_neg hr, ← hcall]
    exact hbooth

theorem booth_turn (s : Setting κ) (t : Turn κ) (a : Agent κ) :
    (a.turn s t).1.call.booth = a.boothAfter t := by
  cases t with
  | session e => exact booth_given s _ rfl rfl rfl
  | sessionEnded => exact booth_given s .teardown rfl rfl rfl
  | start video => exact booth_given s _ rfl rfl rfl
  | leave => exact booth_given s .leave rfl rfl rfl
  | teardown => exact booth_given s .teardown rfl rfl rfl
  | dropped => exact booth_given s .teardown rfl rfl rfl
  | signal =>
      change (a.takeSignal s).1.call.booth = _
      unfold takeSignal
      cases hsignals : a.signals with
      | nil => simp [boothAfter, input?, hsignals]
      | cons signal signals => exact booth_given s _ rfl rfl (by simp [input?, hsignals])
  | media =>
      change (a.takeAnswer s).1.call.booth = _
      unfold takeAnswer
      cases hanswers : a.answers with
      | nil => simp [boothAfter, input?, hanswers]
      | cons answer answers => exact booth_given s _ rfl rfl (by simp [input?, hanswers])
  | answered q result =>
      change (a.answer q result).call.booth = _
      unfold answer
      split <;> simp [boothAfter, input?]
  | network remote serial n =>
      change (a.disturb remote serial n).call.booth = _
      unfold disturb
      split
      · simp [boothAfter, input?]
      · simp [boothAfter, input?, Call.updatePeer, Call.booth]

theorem epoch_le_turn (s : Setting κ) (t : Turn κ) (a : Agent κ) :
    a.call.epoch ≤ (a.turn s t).1.call.epoch := by
  rw [← Call.booth_epoch, ← Call.booth_epoch, booth_turn]
  unfold boothAfter
  split
  · exact a.call.booth.epoch_le_step _
  · exact Nat.le_refl _

theorem epoch_le_run (history : List (Setting κ × Turn κ)) (a : Agent κ) :
    a.call.epoch ≤ (a.run history).1.call.epoch := by
  induction history generalizing a with
  | nil => exact Nat.le_refl _
  | cons st rest ih => exact Nat.le_trans (epoch_le_turn st.1 st.2 a) (ih _)

/-- Only in one kind of turn is the call given an answer of the devices. -/
theorem answer_of_input {a : Agent κ} {t : Turn κ} {e : Nat}
    {result : Except MediaError MediaStream} (h : a.input? t = some (.media e result)) :
    t = .media ∧ ∃ answers, a.answers = (e, result) :: answers := by
  unfold input? at h
  split at h
  · cases h
  · cases t with
    | signal => simp at h
    | media =>
        obtain ⟨⟨e', result'⟩, hanswer, heq⟩ := Option.map_eq_some_iff.mp h
        cases heq
        exact ⟨rfl, List.head?_eq_some_iff.mp hanswer⟩
    | _ => cases h

namespace Coherent

variable {a : Agent κ}

/-- An answer of an earlier epoch changes nothing, and its tracks are stopped. -/
theorem takeAnswer_of_ne (h : a.Coherent) {e : Nat} {result : Except MediaError MediaStream}
    {answers : List (Nat × Except MediaError MediaStream)}
    (hanswers : a.answers = (e, result) :: answers) (hne : e ≠ a.call.epoch) (s : Setting κ) :
    (a.takeAnswer s).1.call.booth = a.call.booth ∧
      Call.released (a.takeAnswer s).2 = brought result := by
  obtain ⟨hr, -⟩ := h.of_answer hanswers
  have hrest : ({ a with answers } : Agent κ).running = true := hr
  have hbooth := booth_perform s (.media e result) hrest
  have hstep : ({ a with answers } : Agent κ).call.booth.step (.media e result) =
      (a.call.booth, brought result, []) := Booth.media_of_ne hne result
  rw [hstep, Prod.mk.injEq] at hbooth
  unfold Agent.takeAnswer
  rw [hanswers]
  exact hbooth

/-- A stream that is published after a turn was published before, or it is the answer that the turn
took, and nothing was published before. -/
theorem held_turn (h : a.Coherent) (s : Setting κ) {t : Turn κ} {stream : MediaStream}
    (hheld : (a.turn s t).1.call.held = some stream) :
    a.call.held = some stream ∨ (a.call.held = none ∧ t = .media ∧
      ∃ answers, a.answers = (a.call.epoch, .ok stream) :: answers) := by
  rw [← Call.booth_held, booth_turn] at hheld
  unfold boothAfter at hheld
  split at hheld
  · rename_i i hi
    rcases Booth.held_step hheld with hbefore | rfl
    · exact .inl hbefore
    · obtain ⟨rfl, answers, hanswers⟩ := answer_of_input hi
      obtain ⟨-, hagrees⟩ := h.of_answer hanswers
      obtain ⟨-, -, hnone, -⟩ := hagrees.answered rfl
      exact .inr ⟨hnone, rfl, answers, hanswers⟩
  · exact .inl hheld

end Coherent

/-- While media are asked for or published, nobody can ask for more. -/
theorem start_ignored (s : Setting κ) (video : Bool) {a : Agent κ} (h : a.call.control ≠ .start) :
    a.turn s (.start video) = (a, []) := by
  have hstep : a.call.step s (.start video) = (a.call, []) := if_pos (.inr (.inl h))
  change a.perform s (.start video) = (a, [])
  unfold perform
  split
  · rfl
  · rw [hstep]
    simp [reports, requested]

/-- Whatever an agent lived through, its control offers to stop exactly while a stream is published;
it is pending exactly while none is and one request of the current epoch is out, unanswered or with
an answer that was not taken; and it offers to start exactly while none is and no such request is
out. All other requests that are out are of earlier epochs, and whenever the answer to one of them
is taken, what is published stays as it is and the answer's tracks are stopped. A start while the
control does not offer it changes nothing and asks for nothing; and a stream is published only when
the answer of the current epoch is taken while none is published, so that none is ever replaced. -/
theorem control_tells_what_is_out (history : List (Setting κ × Turn κ)) :
    let a := (run {} history).1
    (a.call.control = .stop ↔ a.call.held.isSome) ∧
    (a.call.control = .pending ↔ a.call.held = none ∧ a.outstanding.count a.call.epoch = 1) ∧
    (a.call.control = .start ↔ a.call.held = none ∧ a.call.epoch ∉ a.outstanding) ∧
    (∀ e ∈ a.outstanding, e ≠ a.call.epoch → e < a.call.epoch ∧
      ∀ (later : List (Setting κ × Turn κ)) (s : Setting κ) result answers,
        (a.run later).1.answers = (e, result) :: answers →
        ((a.run later).1.turn s .media).1.call.held = (a.run later).1.call.held ∧
        Call.released ((a.run later).1.turn s .media).2 = brought result) ∧
    (∀ s video, a.call.control ≠ .start → a.turn s (.start video) = (a, [])) ∧
    (∀ s t stream, (a.turn s t).1.call.held = some stream →
      a.call.held = some stream ∨ (a.call.held = none ∧ t = .media ∧
        ∃ answers, a.answers = (a.call.epoch, .ok stream) :: answers)) := by
  intro a
  have hcoherent : a.Coherent := coherent_empty.run history
  refine ⟨hcoherent.agrees.holds.symm, hcoherent.agrees.pending_iff, hcoherent.agrees.start_iff,
    fun e he hne => ?_, fun s video hc => start_ignored s video hc,
    fun s t stream hheld => hcoherent.held_turn s hheld⟩
  have hlt : e < a.call.epoch := hcoherent.agrees.lt_of_ne he hne
  refine ⟨hlt, fun later s result answers hanswers => ?_⟩
  have hle := epoch_le_run later a
  obtain ⟨hbooth, hreleased⟩ :=
    (hcoherent.run later).takeAnswer_of_ne hanswers (by omega) s
  exact ⟨congrArg Booth.held hbooth, hreleased⟩

/-- Someone leaves before the devices answered and starts again. Both requests are out then, and
the answer to the first one is not published however long it takes. -/
theorem control_tells_what_is_out_restarted :
    let s : Setting := { me := some "me", connect := fun _ => none }
    let history : List (Setting × Turn) := [(s, .start false), (s, .leave), (s, .start true)]
    let a := (run {} history).1
    a.call.control = .pending ∧ a.call.epoch = 1 ∧ a.outstanding = [0, 1] ∧
      ∀ (later : List (Setting × Turn)) (s : Setting) result answers,
        (a.run later).1.answers = (0, result) :: answers →
        ((a.run later).1.turn s .media).1.call.held = (a.run later).1.call.held ∧
        Call.released ((a.run later).1.turn s .media).2 = brought result := by
  intro s history a
  obtain ⟨-, -, -, hothers, -⟩ := control_tells_what_is_out history
  have hout : 0 ∈ a.outstanding := by decide
  have hne : 0 ≠ a.call.epoch := by decide
  exact ⟨by decide, by decide, by decide, (hothers 0 hout hne).2⟩

end Agent

end Parley
