import Parley.Proofs.Listings
import Parley.Roster

/-!
# What merging does to a roster

One record sets the entry of its scoped id and leaves all others as they are. An entry that was
there grows (`Participant.Grows`): it keeps whatever it has, gets the connections that it did not
have at the end of its own, and may come or go. Rosters grow entry by entry, so that no entry is
ever lost.
-/

namespace Parley

namespace Table

variable {α : Type u}

theorem size_insert (t : Table α) (k : String) (v : α) :
    (t.insert k v).size = if (t.find? k).isSome then t.size else t.size + 1 := by
  obtain ⟨before, after, hinsert, hlist⟩ := t.exists_toList_insert k v
  change (t.insert k v).toList.length = if _ then t.toList.length else t.toList.length + 1
  rw [hinsert, hlist]
  cases t.find? k with
  | none => simp [Nat.add_assoc]
  | some v' => simp

end Table

/-! ## Entries -/

/-- A later state of an entry: nothing of it has changed but that it may be online or not, and that
connections which it did not have were added after the others. -/
structure Participant.Grows (p q : Participant) : Prop where
  scid : q.scid = p.scid
  name : q.name = p.name
  role : q.role = p.role
  color : q.color = p.color
  present : q.present = p.present
  cids : ∃ added, q.cids = p.cids ++ added ∧ added.Nodup ∧ ∀ c ∈ added, c ∉ p.cids

namespace Participant.Grows

variable {p q s : Participant}

theorem refl (p : Participant) : p.Grows p := ⟨rfl, rfl, rfl, rfl, rfl, [], by simp⟩

theorem trans (h : p.Grows q) (h' : q.Grows s) : p.Grows s := by
  refine ⟨h'.scid.trans h.scid, h'.name.trans h.name, h'.role.trans h.role,
    h'.color.trans h.color, h'.present.trans h.present, ?_⟩
  obtain ⟨added, hq, hnodup, hnew⟩ := h.cids
  obtain ⟨added', hs, hnodup', hnew'⟩ := h'.cids
  rw [hq] at hs hnew'
  refine ⟨added ++ added', by rw [hs, List.append_assoc], ?_, fun c hc => ?_⟩
  · refine List.nodup_append.mpr ⟨hnodup, hnodup', fun c hc d hd hcd => ?_⟩
    exact hnew' d hd (hcd ▸ List.mem_append_right _ hc)
  · rcases List.mem_append.mp hc with hc | hc
    · exact hnew c hc
    · exact fun hmem => hnew' c hc (List.mem_append_left _ hmem)

theorem online (p : Participant) (b : Bool) : p.Grows { p with online := b } :=
  ⟨rfl, rfl, rfl, rfl, rfl, [], by simp⟩

theorem subset (h : p.Grows q) {c : String} (hc : c ∈ p.cids) : c ∈ q.cids := by
  obtain ⟨added, hq, -⟩ := h.cids
  rw [hq]
  exact List.mem_append_left _ hc

end Participant.Grows

namespace Roster

theorem mem_addConnections {cids more : List String} {c : String} :
    c ∈ addConnections cids more ↔ c ∈ cids ∨ c ∈ more := by
  induction more generalizing cids with
  | nil => simp [addConnections]
  | cons first rest ih =>
      have h : addConnections cids (first :: rest) =
        addConnections (if cids.contains first then cids else cids ++ [first]) rest := rfl
      rw [h, ih]
      split
      · rename_i hfirst
        rw [List.contains_iff_mem] at hfirst
        grind
      · simp [or_assoc]

/-- Connections are added at the end, and only new ones. -/
theorem exists_addConnections (cids more : List String) :
    ∃ added, addConnections cids more = cids ++ added ∧ added.Nodup ∧ ∀ c ∈ added, c ∉ cids := by
  induction more generalizing cids with
  | nil => exact ⟨[], by simp [addConnections]⟩
  | cons first rest ih =>
      have h : addConnections cids (first :: rest) =
        addConnections (if cids.contains first then cids else cids ++ [first]) rest := rfl
      rw [h]
      split
      · exact ih cids
      · rename_i hfirst
        rw [List.contains_iff_mem] at hfirst
        obtain ⟨added, hadded, hnodup, hnew⟩ := ih (cids ++ [first])
        simp only [List.mem_append, List.mem_singleton, not_or] at hnew
        refine ⟨first :: added, by rw [hadded, List.append_assoc]; rfl, ?_, ?_⟩
        · exact List.nodup_cons.mpr ⟨fun hmem => (hnew first hmem).2 rfl, hnodup⟩
        · exact List.forall_mem_cons.mpr ⟨hfirst, fun c hc => (hnew c hc).1⟩

theorem grows_update (entry record : Participant) : entry.Grows (update entry record) :=
  ⟨rfl, rfl, rfl, rfl, rfl, exists_addConnections entry.cids record.cids⟩

/-! ## Rosters -/

/-- A later state of a roster: every entry is still there, and has grown. -/
def Grows (r s : Roster) : Prop :=
  ∀ scid p, r.find? scid = some p → ∃ q, s.find? scid = some q ∧ p.Grows q

namespace Grows

variable {r s t : Roster}

theorem refl (r : Roster) : r.Grows r := fun _ p hp => ⟨p, hp, .refl p⟩

theorem trans (h : r.Grows s) (h' : s.Grows t) : r.Grows t := by
  intro scid p hp
  obtain ⟨q, hq, hgrows⟩ := h scid p hp
  obtain ⟨q', hq', hgrows'⟩ := h' scid q hq
  exact ⟨q', hq', hgrows.trans hgrows'⟩

end Grows

/-- The entry of the scoped id of a record after it was merged; a new one gets the color. -/
def entryAfter (color : String) (r : Roster) (record : Participant) : Participant :=
  match r.find? record.scid with
  | some entry => update entry record
  | none => { record with color }

section One

variable (palette : Palette) (color : String) {r : Roster} {record entry : Participant}

theorem mergeOne_of_some (h : r.find? record.scid = some entry) :
    mergeOne palette r record =
      (⟨r.entries.insert record.scid (update entry record)⟩, palette, false) := by
  rw [mergeOne, h]

theorem mergeOne_of_none (h : r.find? record.scid = none) :
    mergeOne palette r record =
      (⟨r.entries.insert record.scid { record with color := palette.draw.1.text }⟩,
        palette.draw.2, true) := by
  cases hdraw : palette.draw with
  | mk color next => rw [mergeOne, h, hdraw]

theorem entryAfter_of_none (h : r.find? record.scid = none) :
    entryAfter color r record = { record with color } := by
  rw [entryAfter, h]

variable (r record)

theorem mergeOne_entries :
    (mergeOne palette r record).1.entries =
      r.entries.insert record.scid (entryAfter palette.draw.1.text r record) := by
  cases h : r.find? record.scid with
  | some entry => rw [mergeOne_of_some palette h, entryAfter, h]
  | none => rw [mergeOne_of_none palette h, entryAfter_of_none _ h]

theorem find?_mergeOne (scid : String) :
    (mergeOne palette r record).1.find? scid =
      if scid = record.scid then some (entryAfter palette.draw.1.text r record)
      else r.find? scid := by
  rw [find?, mergeOne_entries, Table.find?_insert]
  rfl

theorem size_mergeOne :
    (mergeOne palette r record).1.size =
      r.size + if (mergeOne palette r record).2.2 then 1 else 0 := by
  rw [size, mergeOne_entries, Table.size_insert]
  change (if (r.find? record.scid).isSome then r.size else r.size + 1) = _
  cases h : r.find? record.scid with
  | some entry => rw [mergeOne_of_some palette h]; rfl
  | none => rw [mergeOne_of_none palette h]; rfl

/-- What a record says of the color of a participant is of no account. -/
theorem mergeOne_color : mergeOne palette r { record with color } = mergeOne palette r record := by
  cases h : r.find? record.scid with
  | some entry =>
      have hcolor : r.find? ({ record with color } : Participant).scid = some entry := h
      rw [mergeOne_of_some palette hcolor, mergeOne_of_some palette h]
      rfl
  | none =>
      have hcolor : r.find? ({ record with color } : Participant).scid = none := h
      rw [mergeOne_of_none palette hcolor, mergeOne_of_none palette h]

theorem mem_cids_entryAfter {c : String} :
    c ∈ (entryAfter color r record).cids ↔
      (∃ p, r.find? record.scid = some p ∧ c ∈ p.cids) ∨ c ∈ record.cids := by
  unfold entryAfter
  cases r.find? record.scid with
  | some entry => simp [update, mem_addConnections]
  | none => simp

theorem online_entryAfter : (entryAfter color r record).online = record.online := by
  unfold entryAfter
  cases r.find? record.scid <;> rfl

theorem mergeOne_grows : r.Grows (mergeOne palette r record).1 := by
  intro scid p hp
  rw [find?_mergeOne]
  split
  · rename_i hscid
    subst hscid
    refine ⟨_, rfl, ?_⟩
    rw [entryAfter, hp]
    exact grows_update p record
  · exact ⟨p, hp, .refl p⟩

end One

theorem find?_markOffline (r : Roster) (scid scid' : String) :
    (r.markOffline scid).1.find? scid' =
      if scid' = scid then (r.find? scid).map ({ · with online := false }) else r.find? scid' := by
  cases h : r.find? scid with
  | some entry =>
      have hmark : (r.markOffline scid).1 =
          ⟨r.entries.insert scid { entry with online := false }⟩ := by rw [markOffline, h]
      rw [hmark]
      exact Table.find?_insert r.entries scid scid' _
  | none =>
      have hmark : (r.markOffline scid).1 = r := by rw [markOffline, h]
      rw [hmark]
      split
      · rename_i heq
        rw [heq, h]
        rfl
      · rfl

theorem find?_markOffline_of_none {r : Roster} (scid : String) {scid' : String}
    (h : r.find? scid' = none) : (r.markOffline scid).1.find? scid' = none := by
  rw [find?_markOffline]
  split
  · rename_i heq
    rw [← heq, h]
    rfl
  · exact h

theorem markOffline_grows (r : Roster) (scid : String) : r.Grows (r.markOffline scid).1 := by
  intro scid' p hp
  rw [find?_markOffline]
  split
  · rename_i hscid
    subst hscid
    exact ⟨_, by rw [hp]; rfl, .online p false⟩
  · exact ⟨p, hp, .refl p⟩

/-! ## Batches -/

variable {palette : Palette} {r : Roster}

theorem merge_cons (record : Participant) (rest : List Participant) :
    r.merge palette (record :: rest) =
      (((mergeOne palette r record).1.merge (mergeOne palette r record).2.1 rest).1,
        ((mergeOne palette r record).1.merge (mergeOne palette r record).2.1 rest).2.1,
        if (mergeOne palette r record).2.2 then
          ((mergeOne palette r record).1.merge (mergeOne palette r record).2.1 rest).2.2 + 1
        else ((mergeOne palette r record).1.merge (mergeOne palette r record).2.1 rest).2.2) := rfl

theorem merge_grows (records : List Participant) : r.Grows (r.merge palette records).1 := by
  induction records generalizing palette r with
  | nil => exact .refl r
  | cons record rest ih => exact (mergeOne_grows palette r record).trans ih

/-- A merge returns how much the roster has grown. -/
theorem size_merge (records : List Participant) :
    (r.merge palette records).1.size = r.size + (r.merge palette records).2.2 := by
  induction records generalizing palette r with
  | nil => rfl
  | cons record rest ih =>
      rw [merge_cons]
      dsimp only
      rw [ih, size_mergeOne]
      split <;> omega

/-- An entry that a merge inserts began as the first record for it, with a color that was drawn. -/
theorem exists_first {records : List Participant} {scid : String} {p : Participant}
    (hnone : r.find? scid = none) (h : (r.merge palette records).1.find? scid = some p) :
    ∃ before first after, records = before ++ first :: after ∧ first.scid = scid ∧
      (∀ q ∈ before, q.scid ≠ scid) ∧
      Participant.Grows { first with color := (r.merge palette before).2.1.draw.1.text } p := by
  induction records generalizing palette r with
  | nil => cases hnone.symm.trans h
  | cons record rest ih =>
      by_cases hrecord : record.scid = scid
      · subst hrecord
        have hfirst : (mergeOne palette r record).1.find? record.scid =
            some { record with color := palette.draw.1.text } := by
          rw [find?_mergeOne, if_pos rfl, entryAfter_of_none _ hnone]
        obtain ⟨q, hq, hgrows⟩ := merge_grows rest _ _ hfirst
        cases hq.symm.trans h
        exact ⟨[], record, rest, rfl, rfl, nofun, hgrows⟩
      · have hnext : (mergeOne palette r record).1.find? scid = none := by
          rw [find?_mergeOne, if_neg (Ne.symm hrecord), hnone]
        obtain ⟨before, first, after, rfl, hscid, hbefore, hgrows⟩ := ih hnext h
        exact ⟨record :: before, first, after, rfl, hscid,
          List.forall_mem_cons.mpr ⟨hrecord, hbefore⟩, hgrows⟩

end Roster

end Parley
