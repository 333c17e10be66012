import Parley.Table

/-!
# Listings of tables

What storing and erasing do to the listing of a table: an entry is put at its place, over the one
that was there, or taken out, and all other entries stay where they are.
-/

namespace Parley.Table

variable {α : Type u} {β : Type v}

theorem exists_place (k : String) (v : α) {l : List (String × α)}
    (h : l.Pairwise fun a b => a.1 < b.1) :
    ∃ before after, place k v l = before ++ (k, v) :: after ∧
      l = before ++ ((lookup k l).toList.map (k, ·) ++ after) := by
  induction l with
  | nil => exact ⟨[], [], rfl, rfl⟩
  | cons e rest ih =>
      obtain ⟨k', v'⟩ := e
      obtain ⟨hrest, hordered⟩ := List.pairwise_cons.mp h
      rw [place]
      split
      · rename_i hlt
        have hnone : lookup k ((k', v') :: rest) = none :=
          lookup_eq_none_of_forall_lt (List.forall_mem_cons.mpr
            ⟨hlt, fun e he => String.lt_trans hlt (hrest e he)⟩)
        exact ⟨[], (k', v') :: rest, rfl, by rw [hnone]; rfl⟩
      · split
        · rename_i heq
          subst heq
          exact ⟨[], rest, rfl, by rw [lookup, if_pos rfl]; rfl⟩
        · rename_i hne
          obtain ⟨before, after, hplace, hlist⟩ := ih hordered
          refine ⟨(k', v') :: before, after, by rw [hplace]; rfl, ?_⟩
          rw [lookup, if_neg hne, List.cons_append, ← hlist]

/-- An entry is put at its place. -/
theorem exists_toList_insert (t : Table α) (k : String) (v : α) :
    ∃ before after, (t.insert k v).toList = before ++ (k, v) :: after ∧
      t.toList = before ++ ((t.find? k).toList.map (k, ·) ++ after) :=
  exists_place k v t.ordered

/-- Where no function sees the difference of an entry and the one that was there, none sees one of
the listings. -/
theorem map_toList_insert {t : Table α} {k : String} {v v' : α} (h : t.find? k = some v')
    {f : String × α → β} (hf : f (k, v) = f (k, v')) :
    (t.insert k v).toList.map f = t.toList.map f := by
  obtain ⟨before, after, hinsert, hlist⟩ := t.exists_toList_insert k v
  rw [hinsert, hlist, h]
  simp [hf]

theorem perm_toList_insert {t : Table α} {k : String} (h : t.find? k = none) (v : α) :
    (t.insert k v).toList.Perm ((k, v) :: t.toList) := by
  obtain ⟨before, after, hinsert, hlist⟩ := t.exists_toList_insert k v
  rw [hinsert, hlist, h]
  exact List.perm_middle

theorem perm_toList_erase {t : Table α} {k : String} {v : α} (h : t.find? k = some v) :
    t.toList.Perm ((k, v) :: (t.erase k).toList) := by
  obtain ⟨before, after, hsplit⟩ := List.append_of_mem (find?_eq_some_iff.mp h)
  have hordered : (before ++ (k, v) :: after).Pairwise fun a b => a.1 < b.1 := hsplit ▸ t.ordered
  obtain ⟨-, hafter, hbefore⟩ := List.pairwise_append.mp hordered
  have hne : ∀ e ∈ before ++ after, e.1 ≠ k := by
    rintro e he rfl
    rcases List.mem_append.mp he with he | he
    · exact String.lt_irrefl _ (hbefore e he (e.1, v) List.mem_cons_self)
    · exact String.lt_irrefl _ ((List.pairwise_cons.mp hafter).1 e he)
  have herase : (t.erase k).toList = before ++ after := by
    have hkeep : (before ++ after).filter (·.1 ≠ k) = before ++ after :=
      List.filter_eq_self.mpr fun e he => by simpa using hne e he
    rw [List.filter_append] at hkeep
    change t.toList.filter (·.1 ≠ k) = _
    rw [hsplit, List.filter_append, List.filter_cons_of_neg (by simp), hkeep]
  rw [hsplit, herase]
  exact List.perm_middle

/-- Tables that store values for the same keys list the same keys. -/
theorem keys_eq_of_isSome {t : Table α} {u : Table β}
    (h : ∀ k, (t.find? k).isSome = (u.find? k).isSome) : t.keys = u.keys := by
  have hunit : (t.map fun _ _ => ()) = u.map fun _ _ => () := by
    refine ext_find? fun k => ?_
    rw [find?_map, find?_map]
    have hk := h k
    cases ht : t.find? k <;> cases hu : u.find? k <;> simp_all
  have hkeys := congrArg keys hunit
  simpa [keys, map, Function.comp_def] using hkeys

theorem values_map (t : Table α) (f : α → β) : (t.map fun _ v => f v).values = t.values.map f := by
  simp [values, map, Function.comp_def]

end Parley.Table
