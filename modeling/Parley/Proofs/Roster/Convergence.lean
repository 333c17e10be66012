import Parley.Proofs.Roster.Merging

/-!
# Merging in any order, and once more

The entry that a batch leaves for a scoped id depends on three things: the entry that was there, the
connections in the records for the id, and the last of these records. Only the last one, and the
first one of an entry that is new, depend on the order of the batch. So another order gives the
same entries where the records for an id agree, and the same scoped ids and connections in any case.
A batch that is merged again finds an entry with all of its connections for each of its records, so
that nothing but who is online can change, and that was last set by the same record.
-/

namespace Parley

/-- The same entry, apart from its color and from the order and the repetition of its
connections. -/
structure Participant.Alike (p q : Participant) : Prop where
  scid : p.scid = q.scid
  name : p.name = q.name
  role : p.role = q.role
  present : p.present = q.present
  online : p.online = q.online
  cids : ∀ c, c ∈ p.cids ↔ c ∈ q.cids

namespace Roster

theorem ext_find? {r s : Roster} (h : ∀ scid, r.find? scid = s.find? scid) : r = s :=
  congrArg Roster.mk (Table.ext_find? h)

/-! ## One entry after a batch -/

section Entry

variable {palette : Palette} {r : Roster} {records : List Participant} {scid : String}
  {p : Participant}

theorem find?_merge_eq_none_iff :
    (r.merge palette records).1.find? scid = none ↔
      r.find? scid = none ∧ ∀ q ∈ records, q.scid ≠ scid := by
  induction records generalizing palette r with
  | nil => exact ⟨fun h => ⟨h, nofun⟩, And.left⟩
  | cons record rest ih =>
      rw [merge_cons, ih, find?_mergeOne, List.forall_mem_cons]
      split
      · rename_i hscid
        simp [hscid]
      · rename_i hscid
        rw [← and_assoc, and_iff_left (Ne.symm hscid)]

/-- An entry holds what it held before, and the connections of all records for it. -/
theorem mem_cids_merge (h : (r.merge palette records).1.find? scid = some p) {c : String} :
    c ∈ p.cids ↔
      (∃ e, r.find? scid = some e ∧ c ∈ e.cids) ∨ ∃ q ∈ records, q.scid = scid ∧ c ∈ q.cids := by
  induction records generalizing palette r with
  | nil =>
      have hp : r.find? scid = some p := h
      simp [hp]
  | cons record rest ih =>
      rw [merge_cons] at h
      rw [ih h, find?_mergeOne]
      split
      · rename_i hscid
        subst hscid
        simp [mem_cids_entryAfter, or_assoc]
      · rename_i hscid
        simp [Ne.symm hscid]

/-- The last record for a scoped id. -/
def latest? (scid : String) (records : List Participant) : Option Participant :=
  (records.filter (·.scid = scid)).getLast?

theorem latest?_cons (record : Participant) (rest : List Participant) :
    latest? scid (record :: rest) =
      (latest? scid rest).or (if record.scid = scid then some record else none) := by
  unfold latest?
  by_cases hscid : record.scid = scid
  · rw [List.filter_cons_of_pos (by simpa using hscid), List.getLast?_cons, if_pos hscid]
    cases (rest.filter (·.scid = scid)).getLast? <;> rfl
  · rw [List.filter_cons_of_neg (by simpa using hscid), if_neg hscid, Option.or_none]

theorem latest?_eq_some (h : latest? scid records = some p) : p ∈ records ∧ p.scid = scid := by
  simpa using List.mem_of_getLast? h

theorem latest?_eq_none_iff : latest? scid records = none ↔ ∀ q ∈ records, q.scid ≠ scid := by
  simp [latest?]

/-- Whether a participant is online is what the last record for it says, or the entry that was
there if there is none. -/
theorem online_merge (h : (r.merge palette records).1.find? scid = some p) :
    ((latest? scid records).or (r.find? scid)).map (·.online) = some p.online := by
  induction records generalizing palette r with
  | nil =>
      have hp : r.find? scid = some p := h
      rw [hp]
      rfl
  | cons record rest ih =>
      rw [merge_cons] at h
      rw [← ih h, latest?_cons, find?_mergeOne]
      by_cases hscid : record.scid = scid
      · rw [if_pos hscid, if_pos hscid.symm]
        cases latest? scid rest with
        | some q => rfl
        | none => exact congrArg some (online_entryAfter _ _ _).symm
      · rw [if_neg hscid, if_neg (Ne.symm hscid), Option.or_none]

/-- An entry grew from the one that was there, or else from a record for it. -/
theorem grows_merge (h : (r.merge palette records).1.find? scid = some p) :
    (∃ e, r.find? scid = some e ∧ e.Grows p) ∨
      r.find? scid = none ∧
        ∃ q ∈ records, q.scid = scid ∧ ∃ color, Participant.Grows { q with color } p := by
  cases hfound : r.find? scid with
  | some e =>
      obtain ⟨p', hp', hgrows⟩ := merge_grows records scid e hfound
      cases hp'.symm.trans h
      exact .inl ⟨e, rfl, hgrows⟩
  | none =>
      obtain ⟨before, first, after, rfl, hscid, -, hgrows⟩ := exists_first hfound h
      exact .inr ⟨rfl, first, by simp, hscid, _, hgrows⟩

end Entry

/-! ## Another order -/

/-- Records for one participant say the same of everything but the connections. -/
def Agreeing (records : List Participant) : Prop :=
  ∀ p ∈ records, ∀ q ∈ records, p.scid = q.scid →
    p.name = q.name ∧ p.role = q.role ∧ p.present = q.present ∧ p.online = q.online

section Order

variable {palette palette' : Palette} {r : Roster} {records records' : List Participant}
  {scid : String} {p q : Participant}

theorem keys_merge (h : ∀ x, x ∈ records ↔ x ∈ records') :
    (r.merge palette records).1.entries.keys = (r.merge palette' records').1.entries.keys := by
  refine Table.keys_eq_of_isSome fun scid => ?_
  have hnone : (r.merge palette records).1.find? scid = none ↔
      (r.merge palette' records').1.find? scid = none := by
    rw [find?_merge_eq_none_iff, find?_merge_eq_none_iff]
    simp only [h]
  change ((r.merge palette records).1.find? scid).isSome =
    ((r.merge palette' records').1.find? scid).isSome
  rw [Bool.eq_iff_iff, ← Option.ne_none_iff_isSome, ← Option.ne_none_iff_isSome, ne_eq, ne_eq, hnone]

/-- How many entries are new depends on which scoped ids there are. -/
theorem added_merge (h : ∀ x, x ∈ records ↔ x ∈ records') :
    (r.merge palette records).2.2 = (r.merge palette' records').2.2 := by
  have hsize : (r.merge palette records).1.size = (r.merge palette' records').1.size := by
    have hkeys : (r.merge palette records).1.entries.keys =
        (r.merge palette' records').1.entries.keys := keys_merge h
    have hlength := congrArg List.length hkeys
    rwa [Table.keys, Table.keys, List.length_map, List.length_map] at hlength
  rw [size_merge, size_merge] at hsize
  exact Nat.add_left_cancel hsize

theorem mem_cids_merge_iff (h : ∀ x, x ∈ records ↔ x ∈ records')
    (hp : (r.merge palette records).1.find? scid = some p)
    (hq : (r.merge palette' records').1.find? scid = some q) (c : String) :
    c ∈ p.cids ↔ c ∈ q.cids := by
  rw [mem_cids_merge hp, mem_cids_merge hq]
  simp only [h]

/-- The entries of one scoped id grew from the same entry, or from two records for it. -/
theorem origins_merge (hp : (r.merge palette records).1.find? scid = some p)
    (hq : (r.merge palette' records').1.find? scid = some q) :
    (∃ e, r.find? scid = some e ∧ e.Grows p ∧ e.Grows q) ∨
      r.find? scid = none ∧ ∃ x ∈ records, ∃ y ∈ records', x.scid = scid ∧ y.scid = scid ∧
        (∃ color, Participant.Grows { x with color } p) ∧
        ∃ color, Participant.Grows { y with color } q := by
  rcases grows_merge hp with ⟨e, he, hgrows⟩ | ⟨hnone, x, hx, hscid, hgrows⟩
  · rcases grows_merge hq with ⟨e', he', hgrows'⟩ | ⟨hnone', -⟩
    · cases he.symm.trans he'
      exact .inl ⟨e, he, hgrows, hgrows'⟩
    · cases he.symm.trans hnone'
  · rcases grows_merge hq with ⟨e', he', -⟩ | ⟨-, y, hy, hscid', hgrows'⟩
    · cases he'.symm.trans hnone
    · exact .inr ⟨hnone, x, hx, y, hy, hscid, hscid', hgrows, hgrows'⟩

theorem scid_merge (hp : (r.merge palette records).1.find? scid = some p)
    (hq : (r.merge palette' records').1.find? scid = some q) : p.scid = q.scid := by
  rcases origins_merge hp hq with ⟨e, -, h, h'⟩ | ⟨-, x, -, y, -, hx, hy, ⟨color, h⟩, color', h'⟩
  · rw [h.scid, h'.scid]
  · rw [h.scid, h'.scid]
    exact hx.trans hy.symm

/-- The last record need not be the same one, but it says the same. -/
theorem online_merge_eq (h : ∀ x, x ∈ records ↔ x ∈ records') (hagree : Agreeing records)
    (hp : (r.merge palette records).1.find? scid = some p)
    (hq : (r.merge palette' records').1.find? scid = some q) : p.online = q.online := by
  have hnone : latest? scid records = none ↔ latest? scid records' = none := by
    simp only [latest?_eq_none_iff, h]
  have hp' := online_merge hp
  have hq' := online_merge hq
  cases hx : latest? scid records with
  | none =>
      rw [hx] at hp'
      rw [hnone.mp hx] at hq'
      exact Option.some.inj (hp'.symm.trans hq')
  | some x =>
      cases hy : latest? scid records' with
      | none => cases hx.symm.trans (hnone.mpr hy)
      | some y =>
          rw [hx] at hp'
          rw [hy] at hq'
          obtain ⟨hxmem, hxscid⟩ := latest?_eq_some hx
          obtain ⟨hymem, hyscid⟩ := latest?_eq_some hy
          obtain ⟨-, -, -, hsame⟩ :=
            hagree x hxmem y ((h y).mpr hymem) (hxscid.trans hyscid.symm)
          exact (Option.some.inj hp').symm.trans (hsame.trans (Option.some.inj hq'))

/-- Where the records for one participant agree, so do the entries. -/
theorem alike_merge (h : ∀ x, x ∈ records ↔ x ∈ records') (hagree : Agreeing records)
    (hp : (r.merge palette records).1.find? scid = some p)
    (hq : (r.merge palette' records').1.find? scid = some q) : p.Alike q := by
  have hscid := scid_merge hp hq
  have honline := online_merge_eq h hagree hp hq
  have hcids := mem_cids_merge_iff h hp hq
  rcases origins_merge hp hq with
    ⟨e, -, hgp, hgq⟩ | ⟨-, x, hx, y, hy, hxs, hys, ⟨color, hgp⟩, color', hgq⟩
  · exact ⟨hscid, hgp.name.trans hgq.name.symm, hgp.role.trans hgq.role.symm,
      hgp.present.trans hgq.present.symm, honline, hcids⟩
  · obtain ⟨hname, hrole, hpresent, -⟩ := hagree x hx y ((h y).mpr hy) (hxs.trans hys.symm)
    exact ⟨hscid, hgp.name.trans (hname.trans hgq.name.symm),
      hgp.role.trans (hrole.trans hgq.role.symm),
      hgp.present.trans (hpresent.trans hgq.present.symm), honline, hcids⟩

/-- The color of an entry that was there is kept. -/
theorem color_merge (hknown : r.find? scid ≠ none)
    (hp : (r.merge palette records).1.find? scid = some p)
    (hq : (r.merge palette' records').1.find? scid = some q) : p.color = q.color := by
  rcases origins_merge hp hq with ⟨e, -, hgp, hgq⟩ | ⟨hnone, -⟩
  · exact hgp.color.trans hgq.color.symm
  · exact absurd hnone hknown

end Order

/-- The order of a batch does not matter: as many entries are new, and there are entries for the
same scoped ids, which hold the same connections. If records for one participant agree on its name,
its role, whether it exists and whether it is online, the entries differ in nothing but the order
and the repetition of their connections and the colors that were drawn for new ones. -/
theorem merge_perm (r : Roster) {records records' : List Participant}
    (h : records.Perm records') (palette palette' : Palette) :
    let s := r.merge palette records
    let t := r.merge palette' records'
    s.2.2 = t.2.2 ∧
      s.1.entries.keys = t.1.entries.keys ∧
      (∀ scid p q, s.1.find? scid = some p → t.1.find? scid = some q →
        p.scid = q.scid ∧ ∀ c, c ∈ p.cids ↔ c ∈ q.cids) ∧
      (Agreeing records → ∀ scid p q, s.1.find? scid = some p → t.1.find? scid = some q →
        p.Alike q ∧ (r.find? scid ≠ none → p.color = q.color)) := by
  intro s t
  have hmem : ∀ x, x ∈ records ↔ x ∈ records' := fun x => h.mem_iff
  refine ⟨added_merge hmem, keys_merge hmem, fun scid p q hp hq => ?_,
    fun hagree scid p q hp hq => ?_⟩
  · exact ⟨scid_merge hp hq, mem_cids_merge_iff hmem hp hq⟩
  · exact ⟨alike_merge hmem hagree hp hq, fun hknown => color_merge hknown hp hq⟩

/-- Two tabs of a participant who is there already, and someone new between them. -/
theorem merge_perm_tabs :
    let r : Roster := ⟨.ofList [("ada", { scid := "ada", cids := ["a0"], color := "#ffffff" })]⟩
    let batch : List Participant := [{ scid := "ada", cids := ["a1"], online := true },
      { scid := "bob", cids := ["b1", "b1"] }, { scid := "ada", cids := ["a2"], online := true }]
    let s := r.merge ⟨0⟩ batch
    let t := r.merge ⟨1⟩ batch.reverse
    batch.Perm batch.reverse ∧ Agreeing batch ∧ s.2.2 = 1 ∧ t.2.2 = 1 ∧
      s.1.entries.keys = t.1.entries.keys ∧
      ∃ p q, s.1.find? "ada" = some p ∧ t.1.find? "ada" = some q ∧
        p.cids = ["a0", "a1", "a2"] ∧ q.cids = ["a0", "a2", "a1"] ∧ p.Alike q ∧
        p.color = q.color := by
  intro r batch s t
  have horder : batch.Perm batch.reverse := (List.reverse_perm batch).symm
  have hagree : Agreeing batch := by
    unfold Agreeing
    decide
  obtain ⟨hcount, hkeys, -, halike⟩ := merge_perm r horder ⟨0⟩ ⟨1⟩
  have hone : s.2.2 = 1 := by decide
  let ada (cids : List String) : Participant := ⟨"ada", cids, "", "", "#ffffff", false, true⟩
  have hp : s.1.find? "ada" = some (ada ["a0", "a1", "a2"]) := by decide
  have hq : t.1.find? "ada" = some (ada ["a0", "a2", "a1"]) := by decide
  obtain ⟨hpq, hcolor⟩ := halike hagree "ada" _ _ hp hq
  exact ⟨horder, hagree, hone, hcount.symm.trans hone, hkeys, _, _, hp, hq, rfl, rfl, hpq,
    hcolor (by decide)⟩

/-! ## Once more -/

/-- Every record finds an entry that has all of its connections. -/
def Covers (r : Roster) (records : List Participant) : Prop :=
  ∀ q ∈ records, ∃ p, r.find? q.scid = some p ∧ q.cids ⊆ p.cids

theorem covers_merge (palette : Palette) (r : Roster) (records : List Participant) :
    (r.merge palette records).1.Covers records := by
  intro q hq
  cases hp : (r.merge palette records).1.find? q.scid with
  | none => exact absurd rfl ((find?_merge_eq_none_iff.mp hp).2 q hq)
  | some p => exact ⟨p, rfl, fun c hc => (mem_cids_merge hp).mpr (.inr ⟨q, hq, rfl, hc⟩)⟩

theorem addConnections_of_subset {cids more : List String} (h : more ⊆ cids) :
    addConnections cids more = cids := by
  obtain ⟨added, hadded, -, hnew⟩ := exists_addConnections cids more
  cases added with
  | nil => rw [hadded, List.append_nil]
  | cons c rest =>
      have hc : c ∈ addConnections cids more := by simp [hadded]
      exact absurd ((mem_addConnections.mp hc).elim id (@h c)) (hnew c List.mem_cons_self)

section Covered

variable (palette : Palette) {r : Roster} {records : List Participant}

/-- A record that brings nothing new sets who is online. -/
theorem mergeOne_of_covered {record p : Participant} (hp : r.find? record.scid = some p)
    (hcids : record.cids ⊆ p.cids) :
    mergeOne palette r record =
      (⟨r.entries.insert record.scid { p with online := record.online }⟩, palette, false) := by
  rw [mergeOne_of_some palette hp, update, addConnections_of_subset hcids]

/-- A batch that brings nothing new changes at most who is online. -/
theorem merge_of_covers (h : r.Covers records) :
    (r.merge palette records).2 = (palette, 0) ∧
      ∀ scid, (r.merge palette records).1.find? scid =
        (r.find? scid).map fun p => { p with online := ((latest? scid records).getD p).online } := by
  induction records generalizing r with
  | nil =>
      refine ⟨rfl, fun scid => ?_⟩
      change r.find? scid = _
      cases r.find? scid <;> rfl
  | cons record rest ih =>
      obtain ⟨⟨p, hp, hcids⟩, hrest⟩ := List.forall_mem_cons.mp h
      let next : Roster := ⟨r.entries.insert record.scid { p with online := record.online }⟩
      have hfind (scid : String) : next.find? scid =
          if scid = record.scid then some { p with online := record.online } else r.find? scid :=
        Table.find?_insert r.entries record.scid scid _
      have hnext : next.Covers rest := by
        intro q hq
        obtain ⟨e, he, hsub⟩ := hrest q hq
        rw [hfind]
        split
        · rename_i hscid
          rw [hscid, hp] at he
          cases he
          exact ⟨_, rfl, hsub⟩
        · exact ⟨e, he, hsub⟩
      obtain ⟨hcount, hentries⟩ := ih hnext
      have hmerge : r.merge palette (record :: rest) = next.merge palette rest := by
        rw [merge_cons, mergeOne_of_covered palette hp hcids]
        rfl
      rw [hmerge]
      refine ⟨hcount, fun scid => ?_⟩
      rw [hentries, hfind, latest?_cons]
      by_cases hscid : record.scid = scid
      · rw [if_pos hscid.symm, if_pos hscid, ← hscid, hp]
        cases latest? record.scid rest <;> rfl
      · rw [if_neg (Ne.symm hscid), if_neg hscid, Option.or_none]

end Covered

/-- A batch that was merged has nothing to add any more, whatever it says: merged once more it
changes nothing, draws no color and makes no entry. -/
theorem merge_again (palette palette' : Palette) (r : Roster) (records : List Participant) :
    (r.merge palette records).1.merge palette' records =
      ((r.merge palette records).1, palette', 0) := by
  obtain ⟨hcount, hentries⟩ := merge_of_covers palette' (covers_merge palette r records)
  have hsame : ((r.merge palette records).1.merge palette' records).1 =
      (r.merge palette records).1 := by
    refine ext_find? fun scid => ?_
    rw [hentries]
    cases hp : (r.merge palette records).1.find? scid with
    | none => rfl
    | some p =>
        have honline := online_merge hp
        cases hlatest : latest? scid records with
        | none => rfl
        | some q =>
            rw [hlatest] at honline
            have hq : q.online = p.online := Option.some.inj honline
            exact congrArg (fun b => some { p with online := b }) hq
  exact Prod.ext hsame hcount

end Roster

end Parley
