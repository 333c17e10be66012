import Parley.Proofs.Roster.History

/-!
# Which connections are listed twice

An entry that is known takes from a record only the connections that it does not hold yet, but a new
one takes the list of its record as it stands. So an entry lists a connection as often as the first
record for it does, and once if that record does not list it. Whether the connections of an entry
form a set was settled when it was inserted: no record that is merged later changes it, whatever it
repeats.
-/

namespace Parley

namespace Participant.Grows

variable {p q : Participant}

/-- What was listed is listed as often as before, and what is new is listed once. -/
theorem count_eq (h : p.Grows q) {c : String} (hc : c ∈ q.cids) :
    q.cids.count c = max 1 (p.cids.count c) := by
  obtain ⟨added, hq, hnodup, hnew⟩ := h.cids
  rw [hq, List.count_append]
  by_cases hold : c ∈ p.cids
  · have hpos : 0 < p.cids.count c := List.count_pos_iff.mpr hold
    have hadded : added.count c = 0 :=
      List.count_eq_zero.mpr fun hmem => hnew c hmem hold
    omega
  · have hmem : c ∈ added := (List.mem_append.mp (hq ▸ hc)).resolve_left hold
    rw [List.count_eq_zero.mpr hold, hnodup.count, if_pos hmem]
    rfl

theorem nodup_iff (h : p.Grows q) : q.cids.Nodup ↔ p.cids.Nodup := by
  obtain ⟨added, hq, hnodup, hnew⟩ := h.cids
  rw [hq, List.nodup_append]
  refine ⟨And.left, fun hp => ⟨hp, hnodup, fun c hc d hd hcd => ?_⟩⟩
  exact hnew d hd (hcd ▸ hc)

end Participant.Grows

namespace Roster

/-- The first of the records for an entry is the one that it was inserted with. -/
theorem exists_first_record {acts : List Act} {scid : String} {p : Participant}
    (h : (empty.run acts).find? scid = some p) :
    ∃ first later color, recordsOf scid (acts.flatMap Act.mentions) = first :: later ∧
      Participant.Grows { first with color } p := by
  obtain ⟨done, palette, before, first, after, rest, rfl, hnone, rfl, hbefore, hgrows⟩ :=
    exists_insertion rfl h
  refine ⟨first, recordsOf first.scid (after.map .record ++ rest.flatMap Act.mentions), _, ?_,
    hgrows⟩
  have hdone : recordsOf first.scid (done.flatMap Act.mentions) = [] :=
    ((reflects_run done).known first.scid).mp hnone
  have hmentions :
      (done ++ .merge palette (before ++ first :: after) :: rest).flatMap Act.mentions =
        done.flatMap Act.mentions ++ before.map .record ++ [.record first] ++
          (after.map .record ++ rest.flatMap Act.mentions) := by
    simp [Act.mentions]
  rw [hmentions, recordsOf_append, recordsOf_append, recordsOf_append, hdone,
    recordsOf_map hbefore, recordsOf_record]
  rfl

/-- A roster that began empty, after merges and departures. An entry lists each of its connections
as often as the first record for it does, and once if that record does not list it. So no entry
lists a connection twice exactly if none of the records that entries were inserted with does. -/
theorem connections_distinct_iff (acts : List Act) :
    let r := empty.run acts
    let told := acts.flatMap Act.mentions
    (∀ scid p, r.find? scid = some p → ∃ first later, recordsOf scid told = first :: later ∧
      ∀ c ∈ p.cids, p.cids.count c = max 1 (first.cids.count c)) ∧
    ((∀ p ∈ r.toList, p.cids.Nodup) ↔
      ∀ scid first later, recordsOf scid told = first :: later → first.cids.Nodup) := by
  intro r told
  refine ⟨fun scid p hp => ?_, fun h scid first later hfirst => ?_, fun h p hp => ?_⟩
  · obtain ⟨first, later, _, hfirst, hgrows⟩ := exists_first_record hp
    exact ⟨first, later, hfirst, fun c => hgrows.count_eq⟩
  · have hknown : r.find? scid ≠ none := by
      rw [ne_eq, (reflects_run acts).known scid, hfirst]
      exact List.cons_ne_nil first later
    obtain ⟨p, hp⟩ := Option.ne_none_iff_exists'.mp hknown
    obtain ⟨first', later', _, hfirst', hgrows⟩ := exists_first_record hp
    cases hfirst.symm.trans hfirst'
    exact hgrows.nodup_iff.mp (h p (mem_toList.mpr ⟨scid, hp⟩))
  · obtain ⟨scid, hscid⟩ := mem_toList.mp hp
    obtain ⟨first, later, _, hfirst, hgrows⟩ := exists_first_record hscid
    exact hgrows.nodup_iff.mpr (h scid first later hfirst)

/-- A later record repeats a connection, which is added once. -/
theorem connections_distinct_iff_later :
    let acts : List Act := [.merge {} [{ scid := "s1", cids := ["c1"] }],
      .merge {} [{ scid := "s1", cids := ["c2", "c1", "c2"] }], .departure "s1"]
    ∃ p, (empty.run acts).find? "s1" = some p ∧ p.cids = ["c1", "c2"] ∧ p.cids.count "c2" = 1 ∧
      ∀ p ∈ (empty.run acts).toList, p.cids.Nodup := by
  intro acts
  obtain ⟨hlisted, hdistinct⟩ := connections_distinct_iff acts
  have hcids : ((empty.run acts).find? "s1").map (·.cids) = some ["c1", "c2"] := by decide +kernel
  obtain ⟨p, hp, hpcids⟩ := Option.map_eq_some_iff.mp hcids
  obtain ⟨first, later, hfirst, hcount⟩ := hlisted "s1" p hp
  cases hfirst
  refine ⟨p, hp, hpcids, hcount "c2" (hpcids ▸ by decide), hdistinct.mpr ?_⟩
  intro scid first later hfirst
  by_cases hscid : scid = "s1"
  · subst hscid
    cases hfirst
    decide
  · have hnone : recordsOf scid (acts.flatMap Act.mentions) = [] := by
      simp [acts, Act.mentions, recordsOf, Ne.symm hscid]
    cases hnone.symm.trans hfirst

/-- A connection that the first record for an entry lists twice. -/
theorem connection_listed_twice :
    let r := empty.run [.merge {} [{ scid := "s1", cids := ["c1", "c1"] }]]
    r.toList.map (·.cids) = [["c1", "c1"]] ∧ ¬ ∀ p ∈ r.toList, p.cids.Nodup := by
  decide +kernel

end Roster

end Parley
