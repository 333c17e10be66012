import Parley.Proofs.Call.Control
import Parley.Proofs.Call.Turns

/-!
# What a turn gives to the call

An agent's turn gives its call one input or none. If it gives one, the call takes the step for it
and the effects of the turn are those of the step. If it gives none, nothing is done outside, and
the call stays as it is unless the network acts on one of its connections.
-/

namespace Parley.Agent

variable {κ : Type} [Connection κ]

/-- Whether a turn tears the call down. -/
def Turn.endsCall : Turn κ → Bool
  | .sessionEnded | .teardown | .dropped => true
  | _ => false

theorem perform_eq (s : Setting κ) (i : Call.Input) (a : Agent κ) (h : a.running = true) :
    ((a.perform s i).1.call, (a.perform s i).2) = a.call.step s i := by
  rw [perform_of_running s i h]

/-- A turn gives the call an input. What an agent takes of its own waited first in its line. -/
inductive Gives (a : Agent κ) : Turn κ → Call.Input → Prop where
  | session (e : SessionEvent) : Gives a (.session e) (.session e)
  | start (video : Bool) : Gives a (.start video) (.start video)
  | leave : Gives a .leave .leave
  | ends {t : Turn κ} (h : t.endsCall = true) : Gives a t .teardown
  | signal {x : PeerSignal} {rest : List PeerSignal} (h : a.signals = x :: rest) :
      Gives a .signal (.signal x)
  | media {epoch : Nat} {result : Except MediaError MediaStream}
      {rest : List (Nat × Except MediaError MediaStream)} (h : a.answers = (epoch, result) :: rest) :
      Gives a .media (.media epoch result)

theorem gives_of_input {a : Agent κ} {t : Turn κ} {i : Call.Input} (h : a.input? t = some i) :
    a.running = true ∧ a.Gives t i := by
  unfold input? at h
  split at h
  · cases h
  · rename_i hrunning
    refine ⟨by simpa using hrunning, ?_⟩
    cases t with
    | session e => cases h; exact .session e
    | start video => cases h; exact .start video
    | leave => cases h; exact .leave
    | sessionEnded | teardown | dropped => cases h; exact .ends rfl
    | signal =>
        obtain ⟨x, hx, rfl⟩ := Option.map_eq_some_iff.mp h
        obtain ⟨rest, hrest⟩ := List.head?_eq_some_iff.mp hx
        exact .signal hrest
    | media =>
        obtain ⟨⟨epoch, result⟩, hanswer, rfl⟩ := Option.map_eq_some_iff.mp h
        obtain ⟨rest, hrest⟩ := List.head?_eq_some_iff.mp hanswer
        exact .media hrest
    | answered | network => cases h

theorem turn_of_input (s : Setting κ) {a : Agent κ} {t : Turn κ} {i : Call.Input}
    (h : a.input? t = some i) : ((a.turn s t).1.call, (a.turn s t).2) = a.call.step s i := by
  obtain ⟨hrunning, hgives⟩ := gives_of_input h
  cases hgives with
  | session | start | leave => exact perform_eq s _ a hrunning
  | ends ht =>
      cases t with
      | sessionEnded | teardown | dropped => exact perform_eq s .teardown a hrunning
      | _ => cases ht
  | @signal x rest hsignals =>
      change ((a.takeSignal s).1.call, (a.takeSignal s).2) = _
      rw [takeSignal, hsignals]
      exact perform_eq s (.signal x) { a with signals := rest } hrunning
  | @media epoch result rest hanswers =>
      change ((a.takeAnswer s).1.call, (a.takeAnswer s).2) = _
      rw [takeAnswer, hanswers]
      exact perform_eq s (.media epoch result) { a with answers := rest } hrunning

/-- The call after the network acted on one of its connections, or as it was. -/
def disturbed (a : Agent κ) : Turn κ → Call κ
  | .network remote serial n => (a.disturb remote serial n).call
  | _ => a.call

theorem perform_idle (s : Setting κ) (i : Call.Input) {a : Agent κ} (h : a.running = false) :
    (a.perform s i).2 = [] ∧ (a.perform s i).1.call = a.call := by
  rw [perform_of_not_running s i h]
  exact ⟨rfl, rfl⟩

omit [Connection κ] in
theorem call_answer (q : Acquisition) (result : Except MediaError MediaStream) (a : Agent κ) :
    (a.answer q result).call = a.call := by
  unfold answer
  split <;> rfl

theorem turn_of_no_input (s : Setting κ) {a : Agent κ} {t : Turn κ} (h : a.input? t = none) :
    (a.turn s t).2 = [] ∧ (a.turn s t).1.call = a.disturbed t := by
  cases hrunning : a.running with
  | false =>
      cases t with
      | session | start | leave | sessionEnded => exact perform_idle s _ hrunning
      | teardown | dropped =>
          obtain ⟨heffects, hcall⟩ := perform_idle s .teardown hrunning
          exact ⟨heffects, hcall⟩
      | signal =>
          change (a.takeSignal s).2 = [] ∧ (a.takeSignal s).1.call = a.call
          unfold takeSignal
          split
          · exact ⟨rfl, rfl⟩
          · exact perform_idle s _ hrunning
      | media =>
          change (a.takeAnswer s).2 = [] ∧ (a.takeAnswer s).1.call = a.call
          unfold takeAnswer
          split
          · exact ⟨rfl, rfl⟩
          · exact perform_idle s _ hrunning
      | answered q result => exact ⟨rfl, a.call_answer q result⟩
      | network remote serial n => exact ⟨rfl, rfl⟩
  | true =>
      unfold input? at h
      rw [if_neg (by simp [hrunning])] at h
      cases t with
      | session | start | leave | sessionEnded | teardown | dropped => cases h
      | signal =>
          have hnone : a.signals = [] := by simpa using h
          change (a.takeSignal s).2 = [] ∧ (a.takeSignal s).1.call = a.call
          rw [takeSignal, hnone]
          exact ⟨rfl, rfl⟩
      | media =>
          have hnone : a.answers = [] := by simpa using h
          change (a.takeAnswer s).2 = [] ∧ (a.takeAnswer s).1.call = a.call
          rw [takeAnswer, hnone]
          exact ⟨rfl, rfl⟩
      | answered q result => exact ⟨rfl, a.call_answer q result⟩
      | network remote serial n => exact ⟨rfl, rfl⟩

theorem disturbed_cases (a : Agent κ) (t : Turn κ) :
    a.disturbed t = a.call ∨ ∃ remote serial n, t = .network remote serial n ∧
      a.disturbed t = a.call.updatePeer remote serial fun p => (Connection.network p n).1 := by
  cases t with
  | network remote serial n =>
      cases hl : (a.call.made remote).find? (·.serial = serial) with
      | none => exact .inl (by simp only [disturbed, disturb, hl])
      | some l => exact .inr ⟨remote, serial, n, rfl, by simp only [disturbed, disturb, hl]⟩
  | _ => exact .inl rfl

/-- A turn has the call take a step, leaves it as it is, or lets the network act on a connection. -/
theorem turn_cases {R : Call.Step κ → Prop} (s : Setting κ) (a : Agent κ) (t : Turn κ)
    (step : ∀ i, a.input? t = some i → R (a.call.step s i)) (nothing : R (a.call, []))
    (network : ∀ remote serial n, t = .network remote serial n →
      R (a.call.updatePeer remote serial fun p => (Connection.network p n).1, [])) :
    R ((a.turn s t).1.call, (a.turn s t).2) := by
  cases hi : a.input? t with
  | some i =>
      rw [turn_of_input s hi]
      exact step i hi
  | none =>
      obtain ⟨heffects, hcall⟩ := turn_of_no_input s hi
      rw [heffects, hcall]
      obtain heq | ⟨remote, serial, n, ht, heq⟩ := a.disturbed_cases t
      · rw [heq]
        exact nothing
      · rw [heq]
        exact network remote serial n ht

section

variable {R : Call κ → Call.Step κ → Prop} (nothing : ∀ c, R c (c, []))
  (andThen : ∀ {c t} {f : Call κ → Call.Step κ}, R c t → R t.1 (f t.1) → R c (t.andThen f))
  (step : ∀ s c i, R c (c.step s i))
  (network : ∀ c remote serial (n : Connection.Network κ),
    R c (c.updatePeer remote serial fun p => (Connection.network p n).1, []))

include nothing step network

/-- What steps do and acts of the network do, a turn does. -/
theorem turn_of_steps (a : Agent κ) (s : Setting κ) (t : Turn κ) :
    R a.call ((a.turn s t).1.call, (a.turn s t).2) :=
  turn_cases s a t (fun i _ => step s a.call i) (nothing a.call) fun remote serial n _ =>
    network a.call remote serial n

include andThen

/-- What can go on, a run does if every turn does. -/
theorem run_of_steps (a : Agent κ) (history : List (Setting κ × Turn κ)) :
    R a.call ((a.run history).1.call, (a.run history).2) := by
  induction history generalizing a with
  | nil => exact nothing a.call
  | cons st rest ih =>
      have hturn := turn_of_steps nothing step network a st.1 st.2
      exact andThen
        (f := fun _ => (((a.turn st.1 st.2).1.run rest).1.call, ((a.turn st.1 st.2).1.run rest).2))
        hturn (ih (a.turn st.1 st.2).1)

end

/-- An agent takes turns until it is told to end. -/
theorem running_turn (s : Setting κ) (a : Agent κ) (t : Turn κ) :
    (a.turn s t).1.running = match t with
      | .teardown | .dropped => false
      | _ => a.running := by
  cases t with
  | session e => exact running_perform s _ a
  | start video => exact running_perform s _ a
  | leave => exact running_perform s _ a
  | sessionEnded => exact running_perform s _ a
  | teardown | dropped => rfl
  | signal =>
      change (a.takeSignal s).1.running = a.running
      unfold takeSignal
      split
      · rfl
      · exact running_perform s _ _
  | media =>
      change (a.takeAnswer s).1.running = a.running
      unfold takeAnswer
      split
      · rfl
      · exact running_perform s _ _
  | answered q result =>
      change (a.answer q result).running = a.running
      unfold answer
      split <;> rfl
  | network remote serial n =>
      change (a.disturb remote serial n).running = a.running
      unfold disturb
      split <;> rfl

end Parley.Agent
