import Parley.Client.Basic
import Parley.Proofs.Router.Entries

/-!
# Sessions and their listeners

The register of a client says for each of its sessions on which topic it is, and by which
subscription as long as it is live. If listeners are only made by sessions, the router holds the
live sessions of the register and nothing else (`Roll`): each under the number of its subscription,
which no other one has. So a topic has listeners exactly if some session on it is live.
-/

namespace Parley

/-- The sessions of a client by number: the topic of each, and its subscription while it is live. -/
abbrev Register := List (String × Option Subscription)

/-- The router holds the live sessions of the register and nothing else. -/
structure Roll (r : Router Listener) (reg : Register) : Prop where
  tidy : r.Tidy
  topic : ∀ {i : Nat} {topic : String} {u : Subscription}, reg[i]? = some (topic, some u) →
    u.topic = topic
  below : ∀ {i : Nat} {topic : String} {u : Subscription}, reg[i]? = some (topic, some u) →
    u.id < r.next
  apart : ∀ {i j : Nat} {topic topic' : String} {u v : Subscription},
    reg[i]? = some (topic, some u) → reg[j]? = some (topic', some v) → u.id = v.id → i = j
  entries : ∀ (topic : String) (id : Nat) (l : Listener), (id, l) ∈ r.entries topic ↔
    ∃ (i : Nat) (u : Subscription), reg[i]? = some (topic, some u) ∧ u.id = id ∧ l = .session i

namespace Roll

variable {r : Router Listener} {reg : Register} {topic : String}

theorem empty : Roll {} [] where
  tidy := .empty
  topic h := by simp at h
  below h := by simp at h
  apart h := by simp at h
  entries topic id l := by simp [Router.entries]

theorem entries_ne_nil_iff (h : Roll r reg) (topic : String) :
    r.entries topic ≠ [] ↔ ∃ (i : Nat) (u : Subscription), reg[i]? = some (topic, some u) := by
  constructor
  · intro hne
    obtain ⟨⟨id, l⟩, hmem⟩ := List.exists_mem_of_ne_nil _ hne
    obtain ⟨i, u, hreg, -, -⟩ := (h.entries topic id l).mp hmem
    exact ⟨i, u, hreg⟩
  · rintro ⟨i, u, hreg⟩
    exact List.ne_nil_of_mem ((h.entries topic u.id (.session i)).mpr ⟨i, u, hreg, rfl, rfl⟩)

/-- The places of a register with a further live session at its end. -/
theorem getElem?_enter {topic' : String} {u v : Subscription} {i : Nat} :
    (reg ++ [(topic', some v)])[i]? = some (topic, some u) ↔
      reg[i]? = some (topic, some u) ∨ i = reg.length ∧ topic' = topic ∧ v = u := by
  rcases Nat.lt_trichotomy i reg.length with hlt | rfl | hgt
  · rw [List.getElem?_append_left hlt]
    simp [Nat.ne_of_lt hlt]
  · simp
  · have hout : (reg ++ [(topic', some v)])[i]? = none := by
      rw [List.getElem?_eq_none_iff, List.length_append, List.length_singleton]
      omega
    rw [hout, List.getElem?_eq_none (Nat.le_of_lt hgt)]
    simp [Nat.ne_of_gt hgt]

/-- A session enters. -/
theorem enter (h : Roll r reg) (topic : String) :
    Roll (r.subscribe topic (.session reg.length)).2
      (reg ++ [(topic, some (r.subscribe topic (.session reg.length)).1)]) where
  tidy := h.tidy.subscribe _ _
  topic hu := by
    rcases getElem?_enter.mp hu with hold | ⟨-, rfl, rfl⟩
    · exact h.topic hold
    · rfl
  below hu := by
    rw [Router.subscribe_next]
    rcases getElem?_enter.mp hu with hold | ⟨-, -, rfl⟩
    · exact Nat.lt_succ_of_lt (h.below hold)
    · exact Nat.lt_succ_self _
  apart hu hv hid := by
    have hnew : (r.subscribe topic (.session reg.length)).1.id = r.next := rfl
    rcases getElem?_enter.mp hu with hold | ⟨rfl, -, rfl⟩ <;>
      rcases getElem?_enter.mp hv with hold' | ⟨rfl, -, rfl⟩
    · exact h.apart hold hold' hid
    · have := h.below hold
      omega
    · have := h.below hold'
      omega
    · rfl
  entries topic' id l := by
    rw [Router.entries_subscribe]
    simp only [getElem?_enter]
    split
    · rename_i htopic
      subst htopic
      rw [List.mem_append, h.entries, List.mem_singleton, Prod.mk.injEq]
      constructor
      · rintro (⟨i, u, hreg, hid, hl⟩ | ⟨rfl, rfl⟩)
        · exact ⟨i, u, .inl hreg, hid, hl⟩
        · exact ⟨_, _, .inr ⟨rfl, rfl, rfl⟩, rfl, rfl⟩
      · rintro ⟨i, u, hreg | ⟨rfl, -, rfl⟩, hid, hl⟩
        · exact .inl ⟨i, u, hreg, hid, hl⟩
        · exact .inr ⟨hid.symm, hl⟩
    · rename_i htopic
      rw [h.entries]
      constructor
      · rintro ⟨i, u, hreg, hid, hl⟩
        exact ⟨i, u, .inl hreg, hid, hl⟩
      · rintro ⟨i, u, hreg | ⟨-, htopic', -⟩, hid, hl⟩
        · exact ⟨i, u, hreg, hid, hl⟩
        · exact absurd htopic'.symm htopic

/-- The live sessions of a register after one of its sessions is live no more. -/
theorem getElem?_leave {topic' : String} {u : Subscription} {i j : Nat} :
    (reg.set i (topic', none))[j]? = some (topic, some u) ↔
      reg[j]? = some (topic, some u) ∧ j ≠ i := by
  by_cases hj : i = j
  · subst hj
    by_cases hlt : i < reg.length
    · rw [List.getElem?_set_self hlt]
      simp
    · rw [List.getElem?_eq_none (by rw [List.length_set]; omega)]
      simp
  · rw [List.getElem?_set_ne hj]
    simp [Ne.symm hj]

/-- A session leaves. -/
theorem leave (h : Roll r reg) {i : Nat} {u : Subscription} (hu : reg[i]? = some (topic, some u)) :
    Roll (r.release u).2 (reg.set i (topic, none)) where
  tidy := h.tidy.release u
  topic hv := h.topic (getElem?_leave.mp hv).1
  below hv := by
    rw [Router.release_next]
    exact h.below (getElem?_leave.mp hv).1
  apart hv hw hid := h.apart (getElem?_leave.mp hv).1 (getElem?_leave.mp hw).1 hid
  entries topic' id l := by
    rw [Router.entries_release, h.topic hu]
    simp only [getElem?_leave]
    split
    · rename_i htopic
      subst htopic
      rw [List.mem_filter, h.entries]
      constructor
      · rintro ⟨⟨j, v, hv, rfl, rfl⟩, hne⟩
        refine ⟨j, v, ⟨hv, ?_⟩, rfl, rfl⟩
        rintro rfl
        cases hu.symm.trans hv
        simp at hne
      · rintro ⟨j, v, ⟨hv, hj⟩, rfl, rfl⟩
        refine ⟨⟨j, v, hv, rfl, rfl⟩, ?_⟩
        have hne : v.id ≠ u.id := fun hid => hj (h.apart hv hu hid)
        simpa using hne
    · rename_i htopic
      rw [h.entries]
      constructor
      · rintro ⟨j, v, hv, hid, hl⟩
        refine ⟨j, v, ⟨hv, ?_⟩, hid, hl⟩
        rintro rfl
        cases hu.symm.trans hv
        exact htopic rfl
      · rintro ⟨j, v, ⟨hv, -⟩, hid, hl⟩
        exact ⟨j, v, hv, hid, hl⟩

/-- A session that leaves is the last one of its topic if nobody is left there. -/
theorem last_iff (h : Roll r reg) {i : Nat} {u : Subscription}
    (hu : reg[i]? = some (topic, some u)) :
    (r.release u).1 = true ↔ (r.release u).2.entries topic = [] := by
  have hbefore : r.entries topic ≠ [] := (h.entries_ne_nil_iff topic).mpr ⟨i, u, hu⟩
  rw [Router.release_eq_true_iff h.tidy, h.topic hu, and_iff_right hbefore]

end Roll

end Parley
