import Parley.Proofs.Call.LocalMedia
import Parley.Proofs.Call.Serials

/-!
# What concerns one participant only

Most of what a call does, it does for one participant: it looks at the link to that participant and
changes that link. Everything else stays as it was then: the other links and the closed ones, what
is published, and what the session told. What is sent goes to the participant. A step with these
properties is confined to the participant (`Call.Confined`). Messages are, and reports of
connections.
-/

namespace Parley.Call

variable {κ : Type}

/-- The closed links to a participant, the earliest first. -/
def earlier (c : Call κ) (r : String) : List (Link κ) := c.retired.filter (·.remote = r)

/-- A step that is about one participant and does nothing else. -/
structure Confined (r : String) (c : Call κ) (t : Step κ) : Prop where
  links : ∀ r', r' ≠ r → t.1.links.find? r' = c.links.find? r'
  earlier : ∀ r', r' ≠ r → t.1.earlier r' = c.earlier r'
  booth : t.1.booth = c.booth
  subscribed : t.1.subscribed = c.subscribed
  pinged : t.1.pinged = c.pinged
  sends : ∀ e, .send e ∈ t.2 → e.target = some r

namespace Confined

variable {r : String} {c : Call κ} {t : Step κ}

theorem andThen {f : Call κ → Step κ} (h : Confined r c t) (hf : Confined r t.1 (f t.1)) :
    Confined r c (t.andThen f) where
  links r' hr := (hf.links r' hr).trans (h.links r' hr)
  earlier r' hr := (hf.earlier r' hr).trans (h.earlier r' hr)
  booth := hf.booth.trans h.booth
  subscribed := hf.subscribed.trans h.subscribed
  pinged := hf.pinged.trans h.pinged
  sends e he := (List.mem_append.mp he).elim (h.sends e) (hf.sends e)

theorem say {effects : List CallEffect} (h : ∀ e, .send e ∈ effects → e.target = some r) :
    Confined r c (c, effects) :=
  ⟨fun _ _ => rfl, fun _ _ => rfl, rfl, rfl, rfl, h⟩

theorem nothing : Confined r c (c, []) := say nofun

theorem put (k : Link κ) {effects : List CallEffect}
    (h : ∀ e, .send e ∈ effects → e.target = some r) : Confined r c (c.put r k, effects) where
  links _ hr := Table.find?_insert_of_ne _ _ hr
  earlier _ _ := rfl
  booth := rfl
  subscribed := rfl
  pinged := rfl
  sends := h

theorem describe (ds : List Description) : Confined r c (c, ds.map (sendDescription r)) := by
  refine say fun e he => ?_
  obtain ⟨d, -, hd⟩ := List.mem_map.mp he
  cases hd
  rfl

theorem putTelling (k : Link κ) : Confined r c (c.put r k, (c.put r k).tellStreams) :=
  put k fun e he => absurd he (not_send_mem_tellStreams _ e)

theorem putReported {α : Type} (k : Link κ) (o : Reply κ α) :
    Confined r c (c.putReported r k o) := by
  refine put _ fun e he => ?_
  obtain ⟨e', -, hreport⟩ := List.mem_map.mp he
  cases hreport

theorem putReady (k : Link κ × List Candidate) : Confined r c (c.putReady r k) := by
  refine put _ fun e he => ?_
  obtain ⟨x, -, hx⟩ := List.mem_map.mp he
  cases hx
  rfl

variable [Connection κ]

theorem ensure (s : Setting κ) : Confined r c (c.ensure s r).2 := by
  unfold Call.ensure
  split
  · exact nothing
  · dsimp only
    split
    · exact ⟨fun _ _ => rfl, fun _ _ => rfl, rfl, rfl, rfl, nofun⟩
    · refine ⟨fun r' hr => Table.find?_insert_of_ne _ _ hr, fun _ _ => rfl, rfl, rfl, rfl,
        fun e he => ?_⟩
      cases List.mem_singleton.mp he

theorem offer (s : Setting κ) : Confined r c (c.offer s r) := by
  have hensure := ensure (r := r) (c := c) s
  unfold Call.offer
  split
  · rename_i he
    rwa [he] at hensure
  · rename_i he
    rw [he] at hensure
    refine .andThen hensure ?_
    split
    · exact putReported _ _
    · exact .andThen (putReported _ _) (describe [_])

theorem invite (s : Setting κ) : Confined r c (c.invite s r) := by
  have hensure := ensure (r := r) (c := c) s
  unfold Call.invite
  split
  · rename_i he
    rwa [he] at hensure
  · rename_i he
    rw [he] at hensure
    refine hensure.andThen (f := fun c => (c, [_])) (say fun e he => ?_)
    cases List.mem_singleton.mp he
    rfl

theorem applyDescription (k : Link κ) (d : Description) :
    Confined r c (c.applyDescription r k d) := by
  unfold Call.applyDescription
  refine .andThen (putReported _ _) ?_
  split
  · exact nothing
  · exact .andThen (describe _) (putReady _)

theorem receiveDescription (s : Setting κ) (d : Description) :
    Confined r c (c.receiveDescription s r d) := by
  unfold Call.receiveDescription
  split
  · have hensure := ensure (r := r) (c := c) s
    unfold receiveOffer
    split
    · rename_i he
      rwa [he] at hensure
    · rename_i he
      rw [he] at hensure
      dsimp only
      split
      · exact hensure
      · exact .andThen hensure (applyDescription _ d)
  · unfold receiveAnswer
    split
    · exact nothing
    · split
      · exact nothing
      · exact applyDescription _ d

theorem receiveCandidate (x : Candidate) : Confined r c (c.receiveCandidate r x) := by
  unfold Call.receiveCandidate
  split
  · exact nothing
  · split
    · exact nothing
    · exact putReported _ _

theorem remove (hc : c.Proper) : Confined r c (c.remove r) := by
  unfold Call.remove
  split
  · exact nothing
  · rename_i l hl
    refine ⟨fun r' hr => Table.find?_erase_of_ne _ hr, fun r' hr => ?_, rfl, rfl, rfl, fun e he =>
      absurd he (not_send_mem_tellStreams _ e)⟩
    have hremote : l.close.remote ≠ r' := fun h => hr (h ▸ hc.remote r l hl)
    simp [Call.earlier, hremote]

end Confined

variable [Connection κ]

/-! ## Messages and reports -/

/-- A message is about its sender. -/
theorem confined_onMessage (s : Setting κ) (m : Message) (c : Call κ) :
    Confined m.sender c (c.onMessage s m) := by
  unfold onMessage
  split
  · exact .nothing
  · split
    · split
      · exact .invite s
      · exact .nothing
    · split
      · exact .nothing
      · exact .invite s
    · exact .offer s
    · split
      · exact .nothing
      · refine .put _ fun e he => ?_
        split at he
        · exact absurd he (not_send_mem_tellStreams _ e)
        · cases he
    · split
      · exact .receiveDescription s _
      · exact .receiveCandidate _
      · exact .nothing
    · exact .nothing

/-- A message that is not about a call of this client is passed over. -/
theorem onMessage_of_not_concerns {s : Setting κ} {m : Message} (h : concerns s m = false)
    (c : Call κ) : c.onMessage s m = (c, []) := by
  rw [onMessage, h]
  rfl

/-- A report is about the participant of its connection. -/
theorem confined_onSignal {c : Call κ} (hc : c.Proper) (signal : PeerSignal) :
    Confined signal.remote c (c.onSignal signal) := by
  unfold onSignal
  split
  · exact .nothing
  · split
    · exact .nothing
    · split
      · exact .nothing
      · split
        · exact .putReady _
        · exact .putTelling _
        · split
          · exact .remove hc
          · exact .nothing

end Parley.Call
