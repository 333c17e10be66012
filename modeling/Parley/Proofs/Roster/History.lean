import Parley.Proofs.Roster.Merging

/-!
# A roster tells what became of it

A roster that began empty is changed by merges and by departures. What it holds follows from what
was said of each participant in these (`Roster.Reflects`): there is an entry for each of which a
record was merged, it began as the first of them, it holds the connections of all of them, and it is
online if the last thing that was said of the participant is a record that says so. Entries stay
under their own scoped ids (`Roster.Keyed`), so that the first holder of a connection is the one
with the least scoped id.
-/

namespace Parley.Roster

/-! ## Holders of connections -/

/-- Every entry stands under its own scoped id. -/
def Keyed (r : Roster) : Prop := ∀ scid p, r.find? scid = some p → p.scid = scid

/-- Holds the connection, with the least scoped id of all who do. -/
structure IsFirstHolder (r : Roster) (cid : String) (p : Participant) : Prop where
  mem : p ∈ r.toList
  holds : cid ∈ p.cids
  least : ∀ q ∈ r.toList, cid ∈ q.cids → p.scid ≤ q.scid

theorem mem_toList {r : Roster} {p : Participant} :
    p ∈ r.toList ↔ ∃ scid, r.find? scid = some p := by
  simp only [find?, Table.find?_eq_some_iff]
  change p ∈ r.entries.toList.map (·.2) ↔ _
  simp

theorem hasConnection_iff {p : Participant} {cid : String} :
    p.hasConnection cid = true ↔ cid ∈ p.cids := List.contains_iff_mem

theorem byConnection?_eq_none_iff {r : Roster} {cid : String} :
    r.byConnection? cid = none ↔ ∀ p ∈ r.toList, cid ∉ p.cids := by
  simp only [byConnection?, List.find?_eq_none, hasConnection_iff]

namespace Keyed

variable {r : Roster} {cid : String} {p : Participant}

theorem ordered (hr : r.Keyed) : r.toList.Pairwise fun p q => p.scid < q.scid := by
  refine List.pairwise_map.mpr (r.entries.ordered.imp_of_mem fun {a b} ha hb hab => ?_)
  rwa [hr a.1 a.2 (Table.find?_eq_some_iff.mpr ha), hr b.1 b.2 (Table.find?_eq_some_iff.mpr hb)]

theorem find?_scid (hr : r.Keyed) (hp : p ∈ r.toList) : r.find? p.scid = some p := by
  obtain ⟨scid, hscid⟩ := mem_toList.mp hp
  rwa [hr scid p hscid]

theorem isFirstHolder (hr : r.Keyed) (h : r.byConnection? cid = some p) :
    r.IsFirstHolder cid p := by
  obtain ⟨hholds, before, after, hlist, hbefore⟩ := List.find?_eq_some_iff_append.mp h
  have hordered := hr.ordered
  rw [hlist] at hordered
  refine ⟨hlist ▸ List.mem_append_right _ List.mem_cons_self, hasConnection_iff.mp hholds,
    fun q hq hcid => ?_⟩
  rw [hlist, List.mem_append, List.mem_cons] at hq
  rcases hq with hq | rfl | hq
  · have hnot := hbefore q hq
    rw [hasConnection_iff.mpr hcid] at hnot
    cases hnot
  · exact String.le_refl _
  · have hlt := (List.pairwise_cons.mp (List.pairwise_append.mp hordered).2.1).1 q hq
    exact String.not_lt.mp fun hgt => String.lt_irrefl _ (String.lt_trans hlt hgt)

theorem byConnection?_eq_some_iff (hr : r.Keyed) :
    r.byConnection? cid = some p ↔ r.IsFirstHolder cid p := by
  refine ⟨hr.isFirstHolder, fun h => ?_⟩
  cases hfound : r.byConnection? cid with
  | none => exact absurd h.holds (byConnection?_eq_none_iff.mp hfound p h.mem)
  | some q =>
      have hq := hr.isFirstHolder hfound
      have hscid : q.scid = p.scid :=
        String.le_antisymm (hq.least p h.mem h.holds) (h.least q hq.mem hq.holds)
      have hsame := hr.find?_scid hq.mem
      rw [hscid, hr.find?_scid h.mem] at hsame
      exact hsame.symm

end Keyed

/-! ## Histories -/

/-- What happens to a roster. -/
inductive Act where
  /-- Records are merged, with a palette for new entries. -/
  | merge (palette : Palette) (records : List Participant)
  | departure (scid : String)
  deriving DecidableEq, Repr

/-- What is said of one participant. -/
inductive Mention where
  | record (p : Participant)
  | departure (scid : String)
  deriving DecidableEq, Repr

namespace Mention

def scid : Mention → String
  | record p => p.scid
  | departure scid => scid

/-- Whether the participant is said to be online. -/
def online : Mention → Bool
  | record p => p.online
  | departure _ => false

end Mention

namespace Act

def mentions : Act → List Mention
  | merge _ records => records.map .record
  | departure scid => [.departure scid]

/-- The same with other colors in the records. -/
def recolor (colors : Participant → String) : Act → Act
  | merge palette records => .merge palette (records.map fun p => { p with color := colors p })
  | departure scid => .departure scid

end Act

def act (r : Roster) : Act → Roster
  | .merge palette records => (r.merge palette records).1
  | .departure scid => (r.markOffline scid).1

def run (r : Roster) (acts : List Act) : Roster := acts.foldl act r

theorem act_grows (r : Roster) (a : Act) : r.Grows (r.act a) := by
  cases a with
  | merge palette records => exact merge_grows records
  | departure scid => exact markOffline_grows r scid

theorem run_append (r : Roster) (acts more : List Act) :
    r.run (acts ++ more) = (r.run acts).run more := List.foldl_append

theorem run_grows (r : Roster) (acts : List Act) : r.Grows (r.run acts) := by
  induction acts generalizing r with
  | nil => exact .refl r
  | cons a rest ih => exact (act_grows r a).trans (ih (r.act a))

theorem run_recolor (colors : Participant → String) (r : Roster) (acts : List Act) :
    r.run (acts.map (Act.recolor colors)) = r.run acts := by
  have hmerge (records : List Participant) (palette : Palette) (r : Roster) :
      r.merge palette (records.map fun p => { p with color := colors p }) =
        r.merge palette records := by
    induction records generalizing palette r with
    | nil => rfl
    | cons record rest ih =>
        rw [List.map_cons, merge_cons, merge_cons, mergeOne_color]
        simp only [ih]
  have hact (r : Roster) (a : Act) : r.act (a.recolor colors) = r.act a := by
    cases a with
    | merge palette records => exact congrArg Prod.fst (hmerge records palette r)
    | departure scid => rfl
  rw [run, List.foldl_map]
  simp only [hact]
  rfl

/-- An entry was inserted in some merge: it began as the first record of all for it, with a color
that was drawn then. -/
theorem exists_insertion {r : Roster} {acts : List Act} {scid : String} {p : Participant}
    (hnone : r.find? scid = none) (h : (r.run acts).find? scid = some p) :
    ∃ done palette before first after rest,
      acts = done ++ .merge palette (before ++ first :: after) :: rest ∧
      (r.run done).find? scid = none ∧ first.scid = scid ∧ (∀ q ∈ before, q.scid ≠ scid) ∧
      Participant.Grows
        { first with color := ((r.run done).merge palette before).2.1.draw.1.text } p := by
  induction acts generalizing r with
  | nil => cases hnone.symm.trans h
  | cons a rest ih =>
      cases hnext : (r.act a).find? scid with
      | none =>
          obtain ⟨done, palette, before, first, after, rest, rfl, hfirst⟩ := ih hnext h
          exact ⟨a :: done, palette, before, first, after, rest, rfl, hfirst⟩
      | some q =>
          cases a with
          | departure scid' =>
              rw [act, find?_markOffline_of_none scid' hnone] at hnext
              cases hnext
          | merge palette records =>
              obtain ⟨before, first, after, rfl, hscid, hbefore, hgrows⟩ := exists_first hnone hnext
              obtain ⟨p', hp', hgrows'⟩ := run_grows _ rest _ _ hnext
              cases hp'.symm.trans h
              exact ⟨[], palette, before, first, after, rest, rfl, hnone, hscid, hbefore,
                hgrows.trans hgrows'⟩

/-! ## What a roster reflects -/

/-- The records of one participant. -/
def recordsOf (scid : String) (told : List Mention) : List Participant :=
  told.filterMap fun m =>
    match m with
    | .record p => if p.scid = scid then some p else none
    | .departure _ => none

theorem recordsOf_append (scid : String) (told more : List Mention) :
    recordsOf scid (told ++ more) = recordsOf scid told ++ recordsOf scid more :=
  List.filterMap_append

theorem recordsOf_record (p : Participant) : recordsOf p.scid [.record p] = [p] := by
  simp [recordsOf]

theorem recordsOf_of_ne {scid : String} {m : Mention} (h : m.scid ≠ scid) :
    recordsOf scid [m] = [] := by
  cases m with
  | record p => simp [recordsOf, show p.scid ≠ scid from h]
  | departure => rfl

theorem recordsOf_map {scid : String} {ps : List Participant} (h : ∀ p ∈ ps, p.scid ≠ scid) :
    recordsOf scid (ps.map .record) = [] := by
  rw [recordsOf, List.filterMap_map, List.filterMap_eq_nil_iff]
  exact fun p hp => if_neg (h p hp)

/-- The roster holds what was said, and no more. -/
structure Reflects (told : List Mention) (r : Roster) : Prop where
  keyed : r.Keyed
  known : ∀ scid, r.find? scid = none ↔ recordsOf scid told = []
  held : ∀ scid c, (∃ p, r.find? scid = some p ∧ c ∈ p.cids) ↔
    ∃ q ∈ recordsOf scid told, c ∈ q.cids
  online : ∀ scid p, r.find? scid = some p → ∃ before latest after,
    told = before ++ latest :: after ∧ latest.scid = scid ∧ (∀ later ∈ after, later.scid ≠ scid) ∧
      p.online = latest.online

namespace Reflects

variable {told : List Mention} {r : Roster}

theorem empty : empty.Reflects [] :=
  ⟨nofun, fun _ => iff_of_true rfl rfl, fun _ _ => iff_of_false nofun nofun, nofun⟩

/-- Something is said of one participant, and nothing else changes. -/
theorem mention {s : Roster} (h : r.Reflects told) (m : Mention)
    (hothers : ∀ scid, scid ≠ m.scid → s.find? scid = r.find? scid)
    (hkeyed : ∀ p, s.find? m.scid = some p → p.scid = m.scid)
    (hknown : s.find? m.scid = none ↔ recordsOf m.scid (told ++ [m]) = [])
    (hheld : ∀ c, (∃ p, s.find? m.scid = some p ∧ c ∈ p.cids) ↔
      ∃ q ∈ recordsOf m.scid (told ++ [m]), c ∈ q.cids)
    (honline : ∀ p, s.find? m.scid = some p → p.online = m.online) :
    s.Reflects (told ++ [m]) := by
  have hsaid (scid : String) (hscid : scid ≠ m.scid) :
      recordsOf scid (told ++ [m]) = recordsOf scid told := by
    rw [recordsOf_append, recordsOf_of_ne (Ne.symm hscid), List.append_nil]
  refine ⟨fun scid p hp => ?_, fun scid => ?_, fun scid c => ?_, fun scid p hp => ?_⟩
  all_goals by_cases hscid : scid = m.scid
  · subst hscid
    exact hkeyed p hp
  · exact h.keyed scid p (hothers scid hscid ▸ hp)
  · subst hscid
    exact hknown
  · rw [hothers scid hscid, hsaid scid hscid]
    exact h.known scid
  · subst hscid
    exact hheld c
  · rw [hothers scid hscid, hsaid scid hscid]
    exact h.held scid c
  · subst hscid
    exact ⟨told, m, [], rfl, rfl, nofun, honline p hp⟩
  · obtain ⟨before, latest, after, rfl, hlatest, hafter, hflag⟩ :=
      h.online scid p (hothers scid hscid ▸ hp)
    refine ⟨before, latest, after ++ [m], by simp, hlatest, fun later hlater => ?_, hflag⟩
    rcases List.mem_append.mp hlater with hlater | hlater
    · exact hafter later hlater
    · rw [List.mem_singleton.mp hlater]
      exact Ne.symm hscid

theorem record (h : r.Reflects told) (palette : Palette) (record : Participant) :
    (mergeOne palette r record).1.Reflects (told ++ [.record record]) := by
  have hself : (mergeOne palette r record).1.find? record.scid =
      some (entryAfter palette.draw.1.text r record) := by
    rw [find?_mergeOne, if_pos rfl]
  have hsaid : recordsOf record.scid (told ++ [.record record]) =
      recordsOf record.scid told ++ [record] := by
    rw [recordsOf_append, recordsOf_record]
  refine h.mention (.record record) (fun scid hscid => ?_) (fun p hp => ?_) ?_ (fun c => ?_)
    fun p hp => ?_
  · exact (find?_mergeOne ..).trans (if_neg hscid)
  · cases hself.symm.trans hp
    unfold entryAfter
    cases hfound : r.find? record.scid with
    | none => rfl
    | some entry => exact h.keyed record.scid entry hfound
  · change (mergeOne palette r record).1.find? record.scid = none ↔ recordsOf record.scid _ = []
    rw [hself, hsaid]
    simp
  · change (∃ p, (mergeOne palette r record).1.find? record.scid = some p ∧ c ∈ p.cids) ↔
      ∃ q ∈ recordsOf record.scid _, c ∈ q.cids
    rw [hself, hsaid]
    simp only [Option.some.injEq, exists_eq_left', mem_cids_entryAfter, h.held, List.mem_append,
      List.mem_singleton, or_and_right, exists_or, exists_eq_left]
  · cases hself.symm.trans hp
    exact online_entryAfter _ _ _

theorem departure (h : r.Reflects told) (scid : String) :
    (r.markOffline scid).1.Reflects (told ++ [.departure scid]) := by
  have hself : (r.markOffline scid).1.find? scid =
      (r.find? scid).map ({ · with online := false }) := by
    rw [find?_markOffline, if_pos rfl]
  have hsaid : recordsOf scid (told ++ [.departure scid]) = recordsOf scid told := by
    rw [recordsOf_append]
    exact List.append_nil _
  refine h.mention (.departure scid) (fun scid' hscid => ?_) (fun p hp => ?_) ?_ (fun c => ?_)
    fun p hp => ?_
  · exact (find?_markOffline ..).trans (if_neg hscid)
  · obtain ⟨entry, hentry, rfl⟩ := Option.map_eq_some_iff.mp (hself.symm.trans hp)
    exact h.keyed scid entry hentry
  · change (r.markOffline scid).1.find? scid = none ↔ recordsOf scid _ = []
    rw [hself, hsaid, Option.map_eq_none_iff]
    exact h.known scid
  · change (∃ p, (r.markOffline scid).1.find? scid = some p ∧ c ∈ p.cids) ↔
      ∃ q ∈ recordsOf scid _, c ∈ q.cids
    rw [hself, hsaid, ← h.held]
    cases r.find? scid <;> simp
  · obtain ⟨entry, -, rfl⟩ := Option.map_eq_some_iff.mp (hself.symm.trans hp)
    rfl

theorem merge (h : r.Reflects told) (palette : Palette) (records : List Participant) :
    (r.merge palette records).1.Reflects (told ++ records.map .record) := by
  induction records generalizing told palette r with
  | nil => rwa [List.map_nil, List.append_nil]
  | cons first rest ih =>
      rw [List.map_cons, List.append_cons]
      exact ih (h.record palette first) _

theorem act (h : r.Reflects told) (a : Act) : (r.act a).Reflects (told ++ a.mentions) := by
  cases a with
  | merge palette records => exact h.merge palette records
  | departure scid => exact h.departure scid

theorem run (h : r.Reflects told) (acts : List Act) :
    (r.run acts).Reflects (told ++ acts.flatMap Act.mentions) := by
  induction acts generalizing told r with
  | nil => rwa [List.flatMap_nil, List.append_nil]
  | cons a rest ih =>
      rw [List.flatMap_cons, ← List.append_assoc]
      exact ih (h.act a)

theorem mem_cids_iff (h : r.Reflects told) {scid : String} {p : Participant}
    (hp : r.find? scid = some p) {c : String} :
    c ∈ p.cids ↔ ∃ q ∈ recordsOf scid told, c ∈ q.cids := by
  rw [← h.held, hp]
  simp

end Reflects

theorem reflects_run (acts : List Act) : (empty.run acts).Reflects (acts.flatMap Act.mentions) :=
  Reflects.empty.run acts

/-- Whoever holds a connection goes on holding it, so that someone is always found for it. -/
theorem Grows.byConnection? {r s : Roster} (h : r.Grows s) {cid : String}
    (hfound : (r.byConnection? cid).isSome) : (s.byConnection? cid).isSome := by
  cases hlost : s.byConnection? cid with
  | some p => rfl
  | none =>
      obtain ⟨p, hp⟩ := Option.isSome_iff_exists.mp hfound
      obtain ⟨scid, hscid⟩ := mem_toList.mp (List.mem_of_find?_eq_some hp)
      obtain ⟨hholds, -⟩ := List.find?_eq_some_iff_append.mp hp
      obtain ⟨q, hq, hgrows⟩ := h scid p hscid
      exact absurd (hgrows.subset (hasConnection_iff.mp hholds))
        (byConnection?_eq_none_iff.mp hlost q (mem_toList.mpr ⟨scid, hq⟩))

/-- A roster that began empty, after merges and departures. An entry stands under its own scoped id.
It was inserted with the first record for it and a color that was drawn then, from which it has
grown; it holds the connections of all records for it; and it is online if the last thing that was
said of it is a record that says so. So the colors in records are of no account. At each time every
entry that was there before is still there, and has grown. A merge returns how many entries the
roster has more. A connection leads to the one with the least scoped id of those who hold it, and if
it led to someone once it always does. -/
theorem entries_follow_history (acts : List Act) :
    let r := empty.run acts
    let told := acts.flatMap Act.mentions
    (∀ scid p, r.find? scid = some p →
      p.scid = scid ∧
      (∃ done palette before first after rest,
        acts = done ++ .merge palette (before ++ first :: after) :: rest ∧ first.scid = scid ∧
        recordsOf scid (done.flatMap Act.mentions ++ before.map .record) = [] ∧
        Participant.Grows
          { first with color := ((empty.run done).merge palette before).2.1.draw.1.text } p) ∧
      (∀ c, c ∈ p.cids ↔ ∃ q ∈ recordsOf scid told, c ∈ q.cids) ∧
      (∃ before latest after, told = before ++ latest :: after ∧ latest.scid = scid ∧
        (∀ later ∈ after, later.scid ≠ scid) ∧ p.online = latest.online)) ∧
    (∀ scid, (∃ p, r.find? scid = some p) ↔ recordsOf scid told ≠ []) ∧
    (∀ colors, empty.run (acts.map (Act.recolor colors)) = r) ∧
    (∀ done rest, acts = done ++ rest → (empty.run done).Grows r ∧
      ∀ cid, ((empty.run done).byConnection? cid).isSome → (r.byConnection? cid).isSome) ∧
    (∀ done palette records rest, acts = done ++ .merge palette records :: rest →
      let merged := (empty.run done).merge palette records
      merged.1.size = (empty.run done).size + merged.2.2) ∧
    (∀ cid p, r.byConnection? cid = some p ↔ r.IsFirstHolder cid p) := by
  intro r told
  have hr : r.Reflects told := reflects_run acts
  refine ⟨fun scid p hp => ⟨hr.keyed scid p hp, ?_, fun c => hr.mem_cids_iff hp,
      hr.online scid p hp⟩, fun scid => ?_, fun colors => run_recolor colors empty acts,
    fun done rest hacts => ?_, fun done palette records rest _ => size_merge records,
    fun cid p => hr.keyed.byConnection?_eq_some_iff⟩
  · obtain ⟨done, palette, before, first, after, rest, hacts, hnone, hfirst, hbefore, hgrows⟩ :=
      exists_insertion rfl hp
    refine ⟨done, palette, before, first, after, rest, hacts, hfirst, ?_, hgrows⟩
    rw [recordsOf_append, ((reflects_run done).known scid).mp hnone, recordsOf_map hbefore]
    rfl
  · rw [ne_eq, ← hr.known scid, ← ne_eq, Option.ne_none_iff_exists']
  · have hgrows : (empty.run done).Grows r := by
      rw [show r = (empty.run done).run rest by rw [← run_append, ← hacts]]
      exact run_grows _ rest
    exact ⟨hgrows, fun cid => hgrows.byConnection?⟩

end Parley.Roster
