import Parley.Event.Payload
import Parley.Proofs.Json.Records

/-!
# The records of payloads

Every record that a payload holds is read back as it was written.
-/

namespace Parley

open Json (ReadsBack fields?_tree lookup_optionalMember keys_optionalMember integral_optionalMember
  readsBack_string readsBack_bool)

theorem CallTarget.readsBack : ReadsBack CallTarget.ofTree? CallTarget.toJson where
  integral target := .object (integral_optionalMember readsBack_string _ target)
  present _ := nofun
  read_tree target := by
    have hkeys := keys_optionalMember "target" (target.map .string)
    have hfields : (Json.tree (toJson target)).fields? ["target"] =
        some ⟨true, [(target.map .string).map Json.tree]⟩ := by
      rw [toJson, fields?_tree (hkeys.nodup (by simp)), List.map_singleton,
        lookup_optionalMember]
      rfl
    simp only [ofTree?, hfields, readsBack_string.optional]

theorem PageRequest.readsBack : ReadsBack PageRequest.ofTree? PageRequest.toJson where
  integral p := by
    simp [toJson]
  present _ := nofun
  read_tree p := by
    have hfields : (Json.tree p.toJson).fields? ["page", "pageSize"] =
        some ⟨true, [some (Json.tree (.ofNat p.page.toNat)),
          some (Json.tree (.ofNat p.pageSize.toNat))]⟩ :=
      fields?_tree (by simp) _
    simp only [ofTree?, hfields, Json.readsBack_u32.required]
    rfl

theorem TextStyle.readsBack :
    ReadsBack (Json.Tree.choice? TextStyle.ofJsonName?) fun s => .string s.jsonName :=
  Json.readsBack_choice fun s => by cases s <;> rfl

theorem TextMessage.readsBack : ReadsBack TextMessage.ofTree? TextMessage.toJson where
  integral t := by
    simp [toJson]
  present _ := nofun
  read_tree t := by
    have hfields : (Json.tree t.toJson).fields? ["message", "style"] =
        some ⟨true, [some (Json.tree (.string t.message)),
          some (Json.tree (.string t.style.jsonName))]⟩ :=
      fields?_tree (by simp) _
    simp only [ofTree?, hfields, readsBack_string.required, TextStyle.readsBack.withDefault]
    rfl

/-! ## Signals -/

theorem DescriptionKind.readsBack :
    ReadsBack (Json.Tree.choice? DescriptionKind.ofJsonName?) fun k => .string k.jsonName :=
  Json.readsBack_choice fun k => by cases k <;> rfl

theorem Description.readsBack : ReadsBack Description.ofTree? Description.toJson where
  integral d := by
    simp [toJson]
  present _ := nofun
  read_tree d := by
    have hfields : (Json.tree d.toJson).fields? ["type", "sdp"] =
        some ⟨true, [some (Json.tree (.string d.kind.jsonName)),
          some (Json.tree (.string d.sdp))]⟩ :=
      fields?_tree (by simp) _
    simp only [ofTree?, hfields, readsBack_string.required, DescriptionKind.readsBack.required]
    rfl

theorem Candidate.readsBack : ReadsBack Candidate.ofTree? Candidate.toJson where
  integral c := by
    simp only [toJson, Json.integral_object, List.forall_mem_cons, List.forall_mem_append]
    exact ⟨.string _, (⟨integral_optionalMember readsBack_string _ _,
      integral_optionalMember Json.readsBack_u16 _ _⟩),
      integral_optionalMember readsBack_string _ _⟩
  present _ := nofun
  read_tree c := by
    have hfields : (Json.tree c.toJson).fields?
        ["candidate", "sdpMid", "sdpMLineIndex", "usernameFragment"] =
        some ⟨true, [some (Json.tree (.string c.candidate)), (c.sdpMid.map .string).map Json.tree,
          (c.sdpMLineIndex.map fun n => .ofNat n.toNat).map Json.tree,
          (c.usernameFragment.map .string).map Json.tree]⟩ := by
      rw [toJson, fields?_tree]
      · simp [List.lookup_cons, List.lookup_append, lookup_optionalMember]
      · simp only [List.map_cons, List.map_append]
        refine List.Sublist.nodup (.cons_cons _ (((keys_optionalMember ..).append
          (keys_optionalMember ..)).append (keys_optionalMember ..))) ?_
        simp
    simp only [ofTree?, hfields, readsBack_string.required, readsBack_string.optional,
      Json.readsBack_u16.optional]
    rfl

theorem Envelope.readsBack : ReadsBack Envelope.ofTree? Envelope.toJson where
  integral e := by
    simp only [toJson, Json.integral_object, List.forall_mem_append]
    exact ⟨⟨integral_optionalMember readsBack_string _ _,
      integral_optionalMember Description.readsBack _ _⟩,
      integral_optionalMember Candidate.readsBack _ _⟩
  present _ := nofun
  read_tree e := by
    have hfields : (Json.tree e.toJson).fields? ["target", "sdp", "ice"] =
        some ⟨true, [(e.target.map .string).map Json.tree,
          (e.sdp.map Description.toJson).map Json.tree,
          (e.ice.map Candidate.toJson).map Json.tree]⟩ := by
      rw [toJson, fields?_tree]
      · simp [List.lookup_append, lookup_optionalMember]
      · simp only [List.map_append]
        refine List.Sublist.nodup (((keys_optionalMember ..).append
          (keys_optionalMember ..)).append (keys_optionalMember ..)) ?_
        simp
    simp only [ofTree?, hfields, readsBack_string.optional, Description.readsBack.optional,
      Candidate.readsBack.optional]
    rfl

/-! ## Rosters -/

theorem Participant.readsBack : ReadsBack Participant.ofTree? Participant.toJson where
  integral p := by
    simp [toJson]
  present _ := nofun
  read_tree p := by
    have hfields : (Json.tree p.toJson).fields?
        ["scid", "cids", "name", "role", "color", "exists", "online"] =
        some ⟨true, [some (Json.tree (.string p.scid)),
          some (Json.tree (.array (p.cids.map .string))), some (Json.tree (.string p.name)),
          some (Json.tree (.string p.role)), some (Json.tree (.string p.color)),
          some (Json.tree (.bool p.present)), some (Json.tree (.bool p.online))]⟩ :=
      fields?_tree (by simp) _
    simp only [ofTree?, hfields, readsBack_string.withDefault, readsBack_bool.withDefault,
      readsBack_string.listOf.withDefault]
    rfl

namespace Event

theorem rosterOfMembers?_memberTrees (entries : List (String × Participant))
    (done : Table Participant)
    (hordered : (done.toList ++ entries).Pairwise fun a b => a.1 < b.1) :
    ∃ r, rosterOfMembers? done (Json.memberTrees (entries.map fun e => (e.1, e.2.toJson))) =
      some r ∧ r.toList = done.toList ++ entries := by
  induction entries generalizing done with
  | nil => exact ⟨done, rfl, (List.append_nil _).symm⟩
  | cons e rest ih =>
      obtain ⟨k, p⟩ := e
      have hinsert : (done.insert k p).toList = done.toList ++ [(k, p)] :=
        Table.place_of_ordered hordered
      rw [List.append_cons, ← hinsert] at hordered
      obtain ⟨r, hr, hentries⟩ := ih (done.insert k p) hordered
      refine ⟨r, ?_, by rw [hentries, hinsert, ← List.append_cons]⟩
      rw [List.map_cons, Json.memberTrees, rosterOfMembers?, Participant.readsBack.read_tree]
      exact hr

theorem readsBack_roster : ReadsBack rosterOfTree? rosterToJson where
  integral r := by
    simp only [rosterToJson, Json.integral_object, List.forall_mem_map]
    exact fun e _ => Participant.readsBack.integral e.2
  present _ := nofun
  read_tree r := by
    obtain ⟨s, hs, hentries⟩ := rosterOfMembers?_memberTrees r.toList .empty r.ordered
    have heq : s = r := by
      cases s
      cases r
      congr
    rw [rosterToJson, Json.tree, rosterOfTree?, hs, heq]

end Event

end Parley
