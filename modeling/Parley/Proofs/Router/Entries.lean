import Parley.Router.Basic

/-!
# The entries of a router

What a subscription and its release do to the listeners of each topic. No topic has an empty entry
(`Router.Tidy`), so the topics of the table are those that have listeners, and the release that
takes the last listener of a topic away is the one after which there is none.
-/

namespace Parley.Router

variable {α : Type u}

/-- No topic has an empty entry. -/
def Tidy (r : Router α) : Prop := ∀ topic, r.topics.find? topic ≠ some []

theorem Tidy.empty : ({} : Router α).Tidy := nofun

theorem Tidy.find?_eq_none_iff {r : Router α} (h : r.Tidy) (topic : String) :
    r.topics.find? topic = none ↔ r.entries topic = [] := by
  have htopic := h topic
  unfold entries
  cases hfind : r.topics.find? topic with
  | none => simp
  | some l =>
      rw [hfind] at htopic
      simpa using fun hl => htopic (congrArg some hl)

/-- The topics of the table are those that have listeners. -/
theorem Tidy.mem_keys_iff {r : Router α} (h : r.Tidy) (topic : String) :
    topic ∈ r.topics.keys ↔ r.entries topic ≠ [] := by
  rw [ne_eq, ← h.find?_eq_none_iff, ← ne_eq, Option.ne_none_iff_exists', Table.keys, List.mem_map]
  constructor
  · rintro ⟨e, he, rfl⟩
    exact ⟨e.2, Table.find?_eq_some_iff.mpr he⟩
  · rintro ⟨l, hl⟩
    exact ⟨(topic, l), Table.find?_eq_some_iff.mp hl, rfl⟩

/-! ## Subscribing -/

@[simp] theorem subscribe_next (r : Router α) (topic : String) (l : α) :
    (r.subscribe topic l).2.next = r.next + 1 := rfl

theorem entries_subscribe (r : Router α) (topic topic' : String) (l : α) :
    (r.subscribe topic l).2.entries topic' =
      if topic' = topic then r.entries topic ++ [(r.next, l)] else r.entries topic' := by
  rw [entries, subscribe]
  dsimp only
  rw [Table.find?_insert]
  split <;> rfl

theorem Tidy.subscribe {r : Router α} (h : r.Tidy) (topic : String) (l : α) :
    (r.subscribe topic l).2.Tidy := by
  intro topic'
  rw [Router.subscribe]
  dsimp only
  rw [Table.find?_insert]
  split
  · simp
  · exact h topic'

/-! ## Releasing -/

@[simp] theorem release_next (r : Router α) (s : Subscription) :
    (r.release s).2.next = r.next := by
  unfold release
  split
  · rfl
  · dsimp only
    split <;> rfl

theorem entries_release (r : Router α) (s : Subscription) (topic : String) :
    (r.release s).2.entries topic =
      if topic = s.topic then (r.entries topic).filter (·.1 ≠ s.id) else r.entries topic := by
  unfold release
  split
  · rename_i hnone
    split
    · rename_i htopic
      rw [htopic, entries, hnone]
      rfl
    · rfl
  · rename_i l hl
    have hentries : r.entries s.topic = l := by rw [entries, hl]; rfl
    dsimp only
    split
    · rename_i hempty
      split
      · rename_i htopic
        rw [htopic, hentries, List.isEmpty_iff.mp hempty, entries, Table.find?_erase_self]
        rfl
      · rename_i htopic
        rw [entries, Table.find?_erase_of_ne _ htopic, entries]
    · split
      · rename_i htopic
        rw [htopic, hentries, entries, Table.find?_insert_self]
        rfl
      · rename_i htopic
        rw [entries, Table.find?_insert_of_ne _ _ htopic, entries]

theorem Tidy.release {r : Router α} (h : r.Tidy) (s : Subscription) : (r.release s).2.Tidy := by
  intro topic
  unfold Router.release
  split
  · exact h topic
  · dsimp only
    split
    · by_cases htopic : topic = s.topic
      · rw [htopic, Table.find?_erase_self]
        nofun
      · rw [Table.find?_erase_of_ne _ htopic]
        exact h topic
    · rename_i hfull
      rw [Table.find?_insert]
      split
      · exact fun hempty => hfull (by rw [Option.some.inj hempty]; rfl)
      · exact h topic

/-- A release is the last one of its topic if the topic had listeners and has none any more. -/
theorem release_eq_true_iff {r : Router α} (h : r.Tidy) (s : Subscription) :
    (r.release s).1 = true ↔ r.entries s.topic ≠ [] ∧ (r.release s).2.entries s.topic = [] := by
  rw [entries_release, if_pos rfl]
  unfold release
  split
  · rename_i hnone
    simp [(h.find?_eq_none_iff _).mp hnone]
  · rename_i l hl
    have hentries : r.entries s.topic = l := by rw [entries, hl]; rfl
    have hl' : l ≠ [] := fun hempty => h s.topic (hempty ▸ hl)
    rw [hentries]
    dsimp only
    split
    · rename_i hempty
      exact ⟨fun _ => ⟨hl', List.isEmpty_iff.mp hempty⟩, fun _ => rfl⟩
    · rename_i hfull
      exact ⟨nofun, fun hlast => absurd (List.isEmpty_iff.mpr hlast.2) hfull⟩

/-- A subscription without a listener in the table has nothing to release. -/
theorem Tidy.release_of_forall_ne {r : Router α} (h : r.Tidy) {s : Subscription}
    (hs : ∀ e ∈ r.entries s.topic, e.1 ≠ s.id) : r.release s = (false, r) := by
  unfold Router.release
  split
  · rfl
  · rename_i l hl
    have hentries : r.entries s.topic = l := by rw [entries, hl]; rfl
    have hall : l.filter (·.1 ≠ s.id) = l :=
      List.filter_eq_self.mpr fun e he => decide_eq_true (hs e (hentries ▸ he))
    have hfull : l.isEmpty = false := by
      cases l with
      | nil => exact absurd hl (h s.topic)
      | cons e rest => rfl
    dsimp only
    rw [hall, hfull, Table.insert_of_find? hl]
    rfl

end Parley.Router
