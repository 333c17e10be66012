import Parley.Call.Agent

/-!
# The numbers of links

The links of a call are told apart by their numbers. Several links to one participant can be made,
one after the other, and what the earlier ones still report has to be kept from the one that stands.
In a proper call every number was given out by the call, and no closed link has the number of the
link that stands in its place.
-/

namespace Parley.Call

variable {κ : Type}

/-- Links stand at their participants' ids, are not closed and have numbers that were given out, and
a closed link has not the number of the link that stands in its place. -/
structure Proper (c : Call κ) : Prop where
  remote : ∀ r l, c.links.find? r = some l → l.remote = r
  live : ∀ r l, c.links.find? r = some l → l.phase ≠ .closed
  numbered : ∀ r l, c.links.find? r = some l → l.serial ≤ c.serial
  retired : ∀ k ∈ c.retired, k.serial ≤ c.serial
  apart : ∀ k ∈ c.retired, ∀ l, c.links.find? k.remote = some l → k.serial ≠ l.serial

theorem find?_put_of_ne {r r' : String} (h : r' ≠ r) (c : Call κ) (k : Link κ) :
    (c.put r k).links.find? r' = c.links.find? r' := Table.find?_insert_of_ne _ _ h

/-- Links that stand after one is removed stood before, to other participants. -/
theorem find?_of_remove [Connection κ] {c : Call κ} {r r' : String} {k : Link κ}
    (hk : (c.remove r).1.links.find? r' = some k) : r' ≠ r ∧ c.links.find? r' = some k := by
  unfold remove at hk
  split at hk
  · rename_i hnone
    refine ⟨?_, hk⟩
    rintro rfl
    rw [hnone] at hk
    cases hk
  · have hr : r' ≠ r := by
      rintro rfl
      rw [Table.find?_erase_self] at hk
      cases hk
    rw [Table.find?_erase_of_ne _ hr] at hk
    exact ⟨hr, hk⟩

theorem find?_of_updatePeer {c : Call κ} {remote r : String} {serial : Nat} {f : κ → κ} {k : Link κ}
    (hk : (c.updatePeer remote serial f).links.find? r = some k) :
    ∃ l, c.links.find? r = some l ∧
      (if l.remote = remote ∧ l.serial = serial then { l with peer := f l.peer } else l) = k := by
  rw [updatePeer, Table.find?_map] at hk
  exact Option.map_eq_some_iff.mp hk

theorem serial_remove [Connection κ] (r : String) (c : Call κ) :
    (c.remove r).1.serial = c.serial := by
  unfold remove; split <;> rfl

theorem serial_setControl (control : Control) (c : Call κ) :
    (c.setControl control).1.serial = c.serial := by
  unfold setControl; split <;> rfl

theorem serial_teardown [Connection κ] (c : Call κ) : c.teardown.1.serial = c.serial := by
  unfold teardown
  split
  · rfl
  · exact serial_setControl .start _

namespace Proper

variable {c c' : Call κ}

theorem of_no_links (hlinks : c.links = .empty) (hretired : ∀ k ∈ c.retired, k.serial ≤ c.serial) :
    c.Proper := by
  have hnone : ∀ r l, c.links.find? r ≠ some l := by
    intro r l hl
    rw [hlinks, Table.find?_empty] at hl
    cases hl
  exact ⟨fun r l hl => absurd hl (hnone r l), fun r l hl => absurd hl (hnone r l),
    fun r l hl => absurd hl (hnone r l), hretired, fun k _ l hl => absurd hl (hnone _ l)⟩

theorem empty : ({} : Call κ).Proper := of_no_links rfl nofun

/-- Links may change if they stay the same links. -/
theorem follow (h : c.Proper) (hserial : c.serial ≤ c'.serial)
    (hlinks : ∀ r k, c'.links.find? r = some k → ∃ l, c.links.find? r = some l ∧
      k.remote = l.remote ∧ k.serial = l.serial ∧ (l.phase ≠ .closed → k.phase ≠ .closed))
    (hretired : ∀ k ∈ c'.retired, ∃ j ∈ c.retired, k.remote = j.remote ∧ k.serial = j.serial) :
    c'.Proper where
  remote r k hk := by
    obtain ⟨l, hl, hremote, -⟩ := hlinks r k hk
    exact hremote.trans (h.remote r l hl)
  live r k hk := by
    obtain ⟨l, hl, -, -, hlive⟩ := hlinks r k hk
    exact hlive (h.live r l hl)
  numbered r k hk := by
    obtain ⟨l, hl, -, hnumber, -⟩ := hlinks r k hk
    rw [hnumber]
    exact Nat.le_trans (h.numbered r l hl) hserial
  retired k hk := by
    obtain ⟨j, hj, -, hnumber⟩ := hretired k hk
    rw [hnumber]
    exact Nat.le_trans (h.retired j hj) hserial
  apart k hk k' hk' := by
    obtain ⟨j, hj, hremote, hnumber⟩ := hretired k hk
    rw [hremote] at hk'
    obtain ⟨l, hl, -, hnumber', -⟩ := hlinks _ k' hk'
    rw [hnumber, hnumber']
    exact h.apart j hj l hl

theorem congr (h : c.Proper) (hlinks : c'.links = c.links) (hretired : c'.retired = c.retired)
    (hserial : c.serial ≤ c'.serial) : c'.Proper := by
  refine h.follow hserial (fun r k hk => ?_) fun k hk => ?_
  · exact ⟨k, hlinks ▸ hk, rfl, rfl, id⟩
  · exact ⟨k, hretired ▸ hk, rfl, rfl⟩

theorem put (h : c.Proper) {r : String} {l k : Link κ} (hl : c.links.find? r = some l)
    (hremote : k.remote = l.remote) (hserial : k.serial = l.serial)
    (hlive : l.phase ≠ .closed → k.phase ≠ .closed) : (c.put r k).Proper := by
  refine h.follow (Nat.le_refl _) (fun r' k' hk' => ?_) fun k hk => ⟨k, hk, rfl, rfl⟩
  by_cases hr : r' = r
  · rw [hr, find?_put_self, Option.some.injEq] at hk'
    subst hk'
    exact ⟨l, hr ▸ hl, hremote, hserial, hlive⟩
  · rw [find?_put_of_ne hr] at hk'
    exact ⟨k', hk', rfl, rfl, id⟩

theorem map (h : c.Proper) {f : Link κ → Link κ} (hlinks : c'.links = c.links.map fun _ l => f l)
    (hf : ∀ l : Link κ, (f l).remote = l.remote ∧ (f l).serial = l.serial ∧
      (l.phase ≠ .closed → (f l).phase ≠ .closed))
    (hretired : ∀ k ∈ c'.retired, ∃ j ∈ c.retired, k.remote = j.remote ∧ k.serial = j.serial)
    (hserial : c'.serial = c.serial) : c'.Proper := by
  refine h.follow (Nat.le_of_eq hserial.symm) (fun r k hk => ?_) hretired
  rw [hlinks, Table.find?_map] at hk
  obtain ⟨l, hl, rfl⟩ := Option.map_eq_some_iff.mp hk
  exact ⟨l, hl, hf l⟩

theorem updatePeer (h : c.Proper) (remote : String) (serial : Nat) (f : κ → κ) :
    (c.updatePeer remote serial f).Proper := by
  let update (l : Link κ) : Link κ :=
    if l.remote = remote ∧ l.serial = serial then { l with peer := f l.peer } else l
  refine h.map (f := update) rfl (fun l => ?_) (fun k hk => ?_) rfl
  · unfold update
    split
    · exact ⟨rfl, rfl, id⟩
    · exact ⟨rfl, rfl, id⟩
  · obtain ⟨j, hj, rfl⟩ := List.mem_map.mp hk
    refine ⟨j, hj, ?_⟩
    split <;> exact ⟨rfl, rfl⟩

/-- The link that stands is found by its number among all links that were made. -/
theorem find?_made (h : c.Proper) {r : String} {l k : Link κ} (hl : c.links.find? r = some l)
    (hk : (c.made r).find? (·.serial = l.serial) = some k) : k = l := by
  have hserial : k.serial = l.serial := by simpa using List.find?_some hk
  rcases List.mem_append.mp (List.mem_of_find?_eq_some hk) with hold | hstands
  · obtain ⟨hretired, hremote⟩ := List.mem_filter.mp hold
    have hremote : k.remote = r := by simpa using hremote
    exact absurd hserial (h.apart k hretired l (hremote ▸ hl))
  · rw [hl] at hstands
    exact List.mem_singleton.mp hstands

theorem le_of_made (h : c.Proper) {r : String} {k : Link κ} (hk : k ∈ c.made r) :
    k.serial ≤ c.serial := by
  rcases List.mem_append.mp hk with hold | hstands
  · exact h.retired k (List.mem_filter.mp hold).1
  · exact h.numbered r k (by simpa using hstands)

/-- A new link gets the next number. -/
theorem make (h : c.Proper) {r : String} {k : Link κ} (hremote : k.remote = r)
    (hserial : k.serial = c.serial + 1) (hlive : k.phase ≠ .closed) :
    ({ c with serial := c.serial + 1, links := c.links.insert r k } : Call κ).Proper := by
  have hfind : ∀ {r' : String} {k' : Link κ}, (c.links.insert r k).find? r' = some k' →
      (r' = r ∧ k' = k) ∨ c.links.find? r' = some k' := by
    intro r' k' hk'
    rw [Table.find?_insert] at hk'
    split at hk'
    · exact .inl ⟨‹_›, (Option.some.inj hk').symm⟩
    · exact .inr hk'
  refine ⟨fun r' k' hk' => ?_, fun r' k' hk' => ?_, fun r' k' hk' => ?_,
    fun j hj => Nat.le_succ_of_le (h.retired j hj), fun j hj k' hk' => ?_⟩
  · rcases hfind hk' with ⟨rfl, rfl⟩ | hold
    · exact hremote
    · exact h.remote _ _ hold
  · rcases hfind hk' with ⟨rfl, rfl⟩ | hold
    · exact hlive
    · exact h.live _ _ hold
  · rcases hfind hk' with ⟨rfl, rfl⟩ | hold
    · exact Nat.le_of_eq hserial
    · exact Nat.le_succ_of_le (h.numbered _ _ hold)
  · rcases hfind hk' with ⟨-, rfl⟩ | hold
    · have hle := h.retired j hj
      omega
    · exact h.apart j hj k' hold

theorem setControl (h : c.Proper) (control : Control) : (c.setControl control).1.Proper := by
  unfold Call.setControl
  split
  · exact h
  · exact h.congr rfl rfl (Nat.le_refl _)

variable [Connection κ]

theorem remove (h : c.Proper) (r : String) : (c.remove r).1.Proper := by
  have hfind : ∀ r' k, (c.remove r).1.links.find? r' = some k →
      r' ≠ r ∧ c.links.find? r' = some k := fun _ _ => find?_of_remove
  cases hl : c.links.find? r with
  | none =>
      rw [Call.remove, hl]
      exact h
  | some l =>
      rw [Call.remove, hl] at hfind ⊢
      refine ⟨fun r' k hk => h.remote r' k (hfind r' k hk).2,
        fun r' k hk => h.live r' k (hfind r' k hk).2,
        fun r' k hk => h.numbered r' k (hfind r' k hk).2, fun j hj => ?_, fun j hj k hk => ?_⟩
      · rcases List.mem_append.mp hj with hj | hj
        · exact h.retired j hj
        · rw [List.mem_singleton.mp hj]
          exact h.numbered r l hl
      · obtain ⟨hr, hk⟩ := hfind _ k hk
        rcases List.mem_append.mp hj with hj | hj
        · exact h.apart j hj k hk
        · rw [List.mem_singleton.mp hj] at hr
          exact absurd (h.remote r l hl) hr

theorem teardown (h : c.Proper) : c.teardown.1.Proper := by
  unfold Call.teardown
  split
  · exact h
  · refine setControl (of_no_links rfl fun j hj => ?_) .start
    rcases List.mem_append.mp hj with hj | hj
    · exact h.retired j hj
    · obtain ⟨l, hl, rfl⟩ := List.mem_map.mp hj
      obtain ⟨⟨r, l⟩, hmem, rfl⟩ := List.mem_map.mp hl
      exact h.numbered r l (Table.find?_eq_some_iff.mpr hmem)

end Proper

end Parley.Call
