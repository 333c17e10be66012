/-!
# Turn and turn about

Two kinds of event take turns in a trace if each is followed by the other one. A trace is given by
the kinds of its events, `true` and `false`, and by the kind that may come first. A switch is
something that events turn on and off; how it stands is told by the last event that touched it.
-/

namespace Parley

/-- The kinds strictly alternate, beginning with the given one. -/
def Alternates : Bool → List Bool → Prop
  | _, [] => True
  | first, b :: rest => b = first ∧ Alternates (!first) rest

namespace Alternates

variable {first b : Bool} {l : List Bool}

theorem nil (first : Bool) : Alternates first [] := trivial

end Alternates

/-! ## Changes -/

/-- The values that differ from the one before them; the first of all is compared with a given one.
-/
def changes (last : Bool) : List Bool → List Bool
  | [] => []
  | b :: rest => if b = last then changes last rest else b :: changes b rest

variable {last b : Bool} {l : List Bool}

@[simp] theorem changes_self_cons (b : Bool) (l : List Bool) : changes b (b :: l) = changes b l :=
  if_pos rfl

theorem changes_cons (last b : Bool) (l : List Bool) :
    changes last (b :: l) = changes last [b] ++ changes b l := by
  by_cases hb : b = last
  · subst hb
    simp [changes]
  · simp [changes, hb]

theorem alternates_changes (last : Bool) (l : List Bool) :
    Alternates (!last) (changes last l) := by
  induction l generalizing last with
  | nil => exact .nil _
  | cons b rest ih =>
      rw [changes]
      split
      · exact ih last
      · rename_i hb
        obtain rfl : b = !last := Bool.eq_not.mpr hb
        exact ⟨rfl, ih (!last)⟩

/-- The last change is to the last value. -/
theorem getLast?_changes (last : Bool) (l : List Bool) :
    (changes last l).getLast?.getD last = l.getLast?.getD last := by
  induction l generalizing last with
  | nil => rfl
  | cons b rest ih =>
      rw [changes, List.getLast?_cons, Option.getD_some]
      split
      · rename_i hb
        rw [ih, hb]
      · rw [List.getLast?_cons, Option.getD_some, ih]

theorem changes_eq_nil_iff : changes last l = [] ↔ ∀ b ∈ l, b = last := by
  induction l with
  | nil => simp [changes]
  | cons b rest ih =>
      rw [changes, List.forall_mem_cons, ← ih]
      split
      · rename_i hb
        simp [hb]
      · rename_i hb
        simp [hb]

/-! ## Switches -/

section Switch

variable {σ : Type u} {α : Type v} {step : σ → α → σ} {on off : α → Prop}

theorem exists_split_cons {P : α → List α → Prop} {a : α} {rest : List α} :
    (∃ before x after, a :: rest = before ++ x :: after ∧ P x after) ↔
      P a rest ∨ ∃ before x after, rest = before ++ x :: after ∧ P x after := by
  constructor
  · rintro ⟨before, x, after, hsplit, hx⟩
    rcases List.cons_eq_append_iff.mp hsplit with ⟨-, hfirst⟩ | ⟨before', -, hrest⟩
    · cases hfirst
      exact .inl hx
    · exact .inr ⟨before', x, after, hrest, hx⟩
  · rintro (h | ⟨before, x, after, rfl, hx⟩)
    · exact ⟨[], a, rest, rfl, h⟩
    · exact ⟨a :: before, x, after, rfl, hx⟩

/-- A switch is on if it was turned on and not turned off since, or was on from the start and never
turned off. -/
theorem isOn_foldl_iff (isOn : σ → Prop)
    (h : ∀ s a, isOn (step s a) ↔ on a ∨ (isOn s ∧ ¬ off a)) (s : σ) (acts : List α) :
    isOn (acts.foldl step s) ↔
      (∃ before a after, acts = before ++ a :: after ∧ on a ∧ ∀ b ∈ after, ¬ off b) ∨
      (isOn s ∧ ∀ b ∈ acts, ¬ off b) := by
  induction acts generalizing s with
  | nil => simp
  | cons a rest ih =>
      rw [List.foldl_cons, ih, h, exists_split_cons, List.forall_mem_cons, or_and_right, and_assoc]
      exact or_left_comm.trans or_assoc.symm

end Switch

end Parley
