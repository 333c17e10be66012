import Parley.Proofs.Terminal.Handling

/-!
# Runs of a terminal

A terminal stays on its topic until a turn ends that (`Terminal.stage_turn_of_joined`), and does not
come back. So what is only found while it is there is found in the turns until then
(`Terminal.collect_stay`).
-/

namespace Parley.Terminal

variable {σ : Type}

/-- The turns until the terminal is left. -/
def stay (us : List (Turn σ)) : List (Turn σ) := us.takeWhile (!·.ends)

theorem stay_cons_of_ends {u : Turn σ} (h : u.ends = true) (us : List (Turn σ)) :
    stay (u :: us) = [] := List.takeWhile_cons_of_neg (by simp [h])

theorem stay_cons {u : Turn σ} (h : u.ends = false) (us : List (Turn σ)) :
    stay (u :: us) = u :: stay us := List.takeWhile_cons_of_pos (by simp [h])

theorem ends_of_mem_stay {us : List (Turn σ)} {u : Turn σ} (h : u ∈ stay us) :
    u.ends = false := by
  have hkept := List.all_eq_true.mp List.all_takeWhile u h
  rwa [Bool.not_eq_true'] at hkept

theorem mem_of_mem_stay {us : List (Turn σ)} {u : Turn σ} (h : u ∈ stay us) : u ∈ us :=
  (List.takeWhile_prefix _).subset h

variable [MarkerStore σ]

theorem run_cons (t : Terminal σ) (u : Turn σ) (us : List (Turn σ)) :
    t.run (u :: us) =
      (((t.turn u).1.run us).1, (t.turn u).2.1 ++ ((t.turn u).1.run us).2.1,
        (t.turn u).2.2 ++ ((t.turn u).1.run us).2.2) := rfl

theorem run_append (t : Terminal σ) (us more : List (Turn σ)) :
    (t.run (us ++ more)).1 = ((t.run us).1.run more).1 := by
  induction us generalizing t with
  | nil => rfl
  | cons u rest ih => exact ih _

/-! ## Stages -/

theorem options_turn (t : Terminal σ) (u : Turn σ) : (t.turn u).1.options = t.options := by
  have hturn := t.handles_turn u
  generalize t.turn u = course at hturn ⊢
  cases hturn <;> rfl

theorem options_run (t : Terminal σ) (us : List (Turn σ)) :
    (t.run us).1.options = t.options := by
  induction us generalizing t with
  | nil => rfl
  | cons u rest ih => exact (ih _).trans (t.options_turn u)

theorem stage_turn_of_joined {t : Terminal σ} {n : Nat} (hstage : t.stage = .joined n)
    (u : Turn σ) : (t.turn u).1.stage = if u.ends then .leaving else .joined n := by
  have hturn := t.handles_turn u
  generalize t.turn u = course at hturn ⊢
  have hcommand {line : String} (h : Text.trim line ≠ "/quit") :
      (Turn.input (.line line) : Turn σ).ends = false := by
    rw [Turn.ends_line, decide_eq_false h]
  have htyped {line text : String} (h : text? line = some text) :
      Text.trim line ≠ "/quit" := by
    obtain ⟨rfl, hnot⟩ := text?_eq_some_iff.mp h
    exact fun heq => hnot (by simp [heq, commands])
  cases hturn with
  | world told hworld => rw [Turn.ends_of_world hworld]; exact hstage
  | joins _ h | fails _ _ h => cases hstage.symm.trans h
  | told | rests | hears => exact hstage
  | ignores h => exact absurd hstage (h n)
  | blank _ h | who _ h | asksMore _ h | noMore _ h =>
      rw [hcommand (by rw [h]; decide)]
      exact hstage
  | sends _ h | cannotSend _ h =>
      rw [hcommand (htyped h)]
      exact hstage
  | leaves _ h => rw [h]; rfl

theorem stage_turn_of_stays {t : Terminal σ} {n : Nat} (hstage : t.stage = .joined n)
    {u : Turn σ} (hends : u.ends = false) : (t.turn u).1.stage = .joined n := by
  rw [stage_turn_of_joined hstage, hends]
  rfl

theorem stage_turn_of_ends {t : Terminal σ} {n : Nat} (hstage : t.stage = .joined n)
    {u : Turn σ} (hends : u.ends = true) : (t.turn u).1.stage = .leaving := by
  rw [stage_turn_of_joined hstage, hends]
  rfl

theorem stage_turn_of_leaving {t : Terminal σ} (hstage : t.stage = .leaving) (u : Turn σ) :
    (t.turn u).1.stage = .leaving := by
  have hturn := t.handles_turn u
  generalize t.turn u = course at hturn ⊢
  cases hturn with
  | leaves => rfl
  | joins _ h | fails _ _ h => cases hstage.symm.trans h
  | _ => exact hstage

theorem stage_run {t : Terminal σ} {n : Nat} (hstage : t.stage = .joined n) {us : List (Turn σ)}
    (hends : ∀ u ∈ us, u.ends = false) : (t.run us).1.stage = .joined n := by
  induction us generalizing t with
  | nil => exact hstage
  | cons u rest ih =>
      obtain ⟨hstays, hlater⟩ := List.forall_mem_cons.mp hends
      exact ih (stage_turn_of_stays hstage hstays) hlater

/-! ## What is found -/

section Collect

variable {α : Type} {f : Terminal σ → Turn σ → Option α}

theorem collect_cons (t : Terminal σ) (u : Turn σ) (us : List (Turn σ)) :
    t.collect f (u :: us) = (f t u).toList ++ (t.turn u).1.collect f us := by
  rw [collect, moments, List.filterMap_cons]
  cases f t u <;> rfl

theorem collect_append (t : Terminal σ) (us more : List (Turn σ)) :
    t.collect f (us ++ more) = t.collect f us ++ (t.run us).1.collect f more := by
  induction us generalizing t with
  | nil => rfl
  | cons u rest ih =>
      rw [List.cons_append, collect_cons, collect_cons, ih, List.append_assoc]
      rfl

/-- What is only found on a topic. -/
def OnTopic (f : Terminal σ → Turn σ → Option α) : Prop :=
  ∀ t u, (∀ n, t.stage ≠ .joined n) ∨ u.ends = true → f t u = none

theorem collect_of_leaving (hf : OnTopic f) {t : Terminal σ} (hstage : t.stage = .leaving)
    (us : List (Turn σ)) : t.collect f us = [] := by
  induction us generalizing t with
  | nil => rfl
  | cons u rest ih =>
      rw [collect_cons, hf t u (.inl (by simp [hstage])), ih (stage_turn_of_leaving hstage u)]
      rfl

theorem collect_stay (hf : OnTopic f) {t : Terminal σ} {n : Nat} (hstage : t.stage = .joined n)
    (us : List (Turn σ)) : t.collect f (stay us) = t.collect f us := by
  induction us generalizing t with
  | nil => rfl
  | cons u rest ih =>
      cases hends : u.ends with
      | true =>
          rw [stay_cons_of_ends hends, collect_cons, hf t u (.inr hends),
            collect_of_leaving hf (stage_turn_of_ends hstage hends)]
          rfl
      | false =>
          rw [stay_cons hends, collect_cons, collect_cons, ih (stage_turn_of_stays hstage hends)]

end Collect

end Parley.Terminal
