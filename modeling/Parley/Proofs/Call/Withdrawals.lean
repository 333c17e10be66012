import Parley.Proofs.Call.CandidateFlow
import Parley.Proofs.Call.Reactions

/-!
# What a step withdraws

A call withdraws candidates on one occasion only: it hears an offer of a participant that crosses
its own, and yields (`Call.withdraws`). Then the candidates that wait in the queue of the link are
dropped, and they are all that is dropped (`Call.keeps_onSession`).
-/

namespace Parley.Call

variable {κ : Type} [Connection κ]

/-- Whether a message brings an offer that concerns this client. -/
def offered (s : Setting κ) (m : Message) : Bool :=
  concerns s m &&
    match m.event with
    | .signal e => e.sdp.any (·.isOffer)
    | _ => false

/-- The link on which an offer of ours is withdrawn if one of the participant arrives. -/
def crossed (s : Setting κ) (r : String) (c : Call κ) : Option (Link κ) :=
  (c.links.find? r).filter fun l => Connection.signaling l.peer = .haveLocalOffer ∧ yieldsTo s r

/-- The link to a participant on which an offer of ours is withdrawn for what the session brings. -/
def withdraws (s : Setting κ) (r : String) (c : Call κ) : SessionEvent → Option (Link κ)
  | .message m => if m.sender = r ∧ offered s m then c.crossed s r else none
  | _ => none

/-- The candidates that are withdrawn with an offer. -/
def blocksOf (l : Option (Link κ)) : List (List Candidate) := (l.map (·.queue)).toList

variable {s : Setting κ} {c : Call κ}

/-! ## Offers -/

theorem keeps_ensure (hc : c.Proper) (r : String) : Keeps s c (c.ensure s r).2 noBlocks := by
  unfold ensure
  split
  · exact .nothing hc
  · rename_i hl
    dsimp only
    split
    · exact .idle hc rfl rfl (Nat.le_succ _) (List.forall_mem_nil _)
    · rename_i hp
      exact .make hc hl hp (.attach _ _)

theorem idle_describe (r : String) (ds : List Description) :
    ∀ e ∈ ds.map (sendDescription r), Idle e := by
  intro e he
  obtain ⟨d, -, rfl⟩ := List.mem_map.mp he
  rfl

theorem Keeps.effects {effects : List CallEffect} (hc : c.Proper) (h : ∀ e ∈ effects, Idle e) :
    Keeps s c (c, effects) noBlocks :=
  .idle hc rfl rfl (Nat.le_refl _) h

theorem keeps_offer (hc : c.Proper) (r : String) : Keeps s c (c.offer s r) noBlocks := by
  have hensure := keeps_ensure (s := s) hc r
  unfold offer
  split
  · rename_i he
    rwa [he] at hensure
  · rename_i l c' effects he
    have hl := find?_ensure he
    rw [he] at hensure
    have hcourse : Connection.Course l.peer (Connection.offer l.peer).after
        (Connection.offer l.peer).events := Connection.Course.nothing.offer
    refine hensure.quiet_andThen ?_
    dsimp only
    split
    · exact .putReported_quiet hensure.proper hl (.refl l) hcourse
    · have hput := Keeps.putReported_quiet (s := s) hensure.proper hl (.negotiate l)
        (by rwa [Link.negotiate_peer])
      exact hput.quiet_andThen (.effects hput.proper (idle_describe r [_]))

theorem keeps_invite (hc : c.Proper) (r : String) : Keeps s c (c.invite s r) noBlocks := by
  have hensure := keeps_ensure (s := s) hc r
  unfold invite
  split
  · rename_i he
    rwa [he] at hensure
  · rename_i he
    rw [he] at hensure
    refine hensure.quiet_andThen (f := fun c => (c, [_])) (.effects hensure.proper ?_)
    intro e he
    rw [List.mem_singleton.mp he]
    trivial

/-! ## What participants send -/

theorem keeps_applyDescription {r : String} {l k : Link κ} {withdrawn : List (List Candidate)}
    (hc : c.Proper) (hl : c.links.find? r = some l) (hk : l.Carries k [] [] withdrawn)
    (d : Description) :
    Keeps s c (c.applyDescription r k d) fun r' => if r' = r then withdrawn else [] := by
  have hput := Keeps.putReported (s := s) hc hl hk (Connection.Course.nothing.apply d)
  unfold applyDescription
  refine hput.andThen_quiet ?_
  split
  · exact .nothing hput.proper
  · refine .quiet_andThen (.effects hput.proper (idle_describe r _)) ?_
    exact .putFlushed hput.proper (find?_put_self ..)

theorem crossed_of_none {r : String} (hl : c.links.find? r = none) : c.crossed s r = none := by
  rw [crossed, hl]
  rfl

theorem crossed_of_stays {r : String} (h : yieldsTo s r = false) : c.crossed s r = none := by
  rw [crossed, Option.filter_eq_none_iff]
  simp [h]

/-- A link that was there is found as it was; a new one has an empty queue. -/
theorem found_ensure {r : String} {c' : Call κ} {l : Link κ} {effects : List CallEffect}
    (h : c.ensure s r = (some l, c', effects)) :
    c.links.find? r = some l ∨ (c.links.find? r = none ∧ l.queue = []) := by
  unfold ensure at h
  split at h
  · rename_i hl
    cases h
    exact .inl hl
  · rename_i hl
    dsimp only at h
    split at h
    · cases h
    · cases h
      exact .inr ⟨hl, rfl⟩

/-- Before an offer is applied, the link drops its queue if an offer of ours is to be withdrawn. -/
theorem carries_crossed {r : String} {l : Link κ}
    (hfound : c.links.find? r = some l ∨ (c.links.find? r = none ∧ l.queue = []))
    (hyields : ¬ (Connection.signaling l.peer = .haveLocalOffer ∧ yieldsTo s r = false)) :
    l.Carries (if Connection.signaling l.peer = .haveLocalOffer then l.forget.1 else l) [] []
      (blocksOf (c.crossed s r)) := by
  rcases hfound with hl | ⟨hl, hqueue⟩
  · split
    · rename_i hcross
      have hyes : yieldsTo s r = true := by
        rw [← Bool.not_eq_false]
        exact fun hno => hyields ⟨hcross, hno⟩
      have hcrossed : c.crossed s r = some l := by
        rw [crossed, hl, Option.filter_some_pos (by simp [hcross, hyes])]
      rw [hcrossed]
      exact .forget l
    · rename_i hcross
      have hcrossed : c.crossed s r = none := by
        rw [crossed, hl, Option.filter_some_neg (by simp [hcross])]
      rw [hcrossed]
      exact .refl l
  · rw [crossed_of_none hl]
    split
    · exact .of_queue_eq rfl rfl id hqueue.symm .nothing
    · exact .refl l

/-- The only candidates that are dropped are those that wait on a link whose own offer is withdrawn
for the one that arrives. -/
theorem keeps_receiveOffer (hc : c.Proper) (r : String) (d : Description) :
    Keeps s c (c.receiveOffer s r d) fun r' => if r' = r then blocksOf (c.crossed s r) else [] := by
  have hensure := keeps_ensure (s := s) hc r
  unfold receiveOffer
  split
  · rename_i he
    rw [he] at hensure
    have hl : c.links.find? r = none := by
      cases hl : c.links.find? r with
      | none => rfl
      | some l => simp [ensure, hl] at he
    rw [crossed_of_none hl]
    exact hensure.congr fun _ => ite_self _
  · rename_i l c' effects he
    have hl := find?_ensure he
    have hfound := found_ensure he
    rw [he] at hensure
    dsimp only
    split
    · rename_i hstays
      rw [crossed_of_stays hstays.2]
      exact hensure.congr fun _ => ite_self _
    · rename_i hyields
      have hcarries := (carries_crossed hfound hyields).trans (.negotiate _)
      simp only [List.append_nil] at hcarries
      exact hensure.quiet_andThen (keeps_applyDescription hensure.proper hl hcarries d)

theorem keeps_receiveAnswer (hc : c.Proper) (r : String) (d : Description) :
    Keeps s c (c.receiveAnswer r d) noBlocks := by
  unfold receiveAnswer
  split
  · exact .nothing hc
  · rename_i l hl
    split
    · exact .nothing hc
    · exact (keeps_applyDescription hc hl (.refl l) d).congr fun _ => (ite_self _).symm

theorem keeps_receiveDescription (hc : c.Proper) (r : String) (d : Description) :
    Keeps s c (c.receiveDescription s r d)
      fun r' => if r' = r ∧ d.isOffer then blocksOf (c.crossed s r) else [] := by
  unfold receiveDescription
  split
  · rename_i hd
    exact (keeps_receiveOffer hc r d).congr fun r' => by simp only [hd, and_true]
  · rename_i hd
    exact (keeps_receiveAnswer hc r d).congr fun r' => if_neg fun h => hd h.2

theorem keeps_receiveCandidate (hc : c.Proper) (r : String) (x : Candidate) :
    Keeps s c (c.receiveCandidate r x) noBlocks := by
  unfold receiveCandidate
  split
  · exact .nothing hc
  · rename_i l hl
    split
    · exact .nothing hc
    · exact .putReported_quiet hc hl (.refl l) (Connection.Course.nothing.addCandidate x)

theorem keeps_onMessage (hc : c.Proper) (m : Message) :
    Keeps s c (c.onMessage s m) fun r => blocksOf (c.withdraws s r (.message m)) := by
  have hnone : ∀ {t : Step κ}, offered s m = false → Keeps s c t noBlocks →
      Keeps s c t fun r => blocksOf (c.withdraws s r (.message m)) := by
    intro t hoffered h
    refine h.congr fun r => ?_
    rw [withdraws, if_neg (by simp [hoffered])]
    rfl
  unfold onMessage
  split
  · rename_i hc'
    exact hnone (by simp_all [offered]) (.nothing hc)
  · rename_i hconcerns
    split
    · rename_i he
      refine hnone (by simp [offered, he]) ?_
      split
      · exact keeps_invite hc _
      · exact .nothing hc
    · rename_i he
      refine hnone (by simp [offered, he]) ?_
      split
      · exact .nothing hc
      · exact keeps_invite hc _
    · rename_i he
      exact hnone (by simp [offered, he]) (keeps_offer hc _)
    · rename_i he
      refine hnone (by simp [offered, he]) ?_
      split
      · exact .nothing hc
      · rename_i l hl
        refine .putIdle hc hl (.of_queue_eq rfl rfl id rfl .nothing) fun e he => ?_
        split at he
        · rw [tellStreams, List.mem_singleton] at he
          rw [he]
          trivial
        · cases he
    · rename_i envelope he
      split
      · rename_i d hsdp
        refine (keeps_receiveDescription hc m.sender d).congr fun r => ?_
        have hoffered : offered s m = d.isOffer := by simp_all [offered]
        rw [withdraws, hoffered]
        by_cases hr : m.sender = r ∧ d.isOffer
        · rw [if_pos hr, if_pos ⟨hr.1.symm, hr.2⟩, hr.1]
        · rw [if_neg hr, if_neg fun h => hr ⟨h.1.symm, h.2⟩]
          rfl
      · rename_i hsdp _
        exact hnone (by simp_all [offered]) (keeps_receiveCandidate hc m.sender _)
      · rename_i hsdp _
        exact hnone (by simp_all [offered]) (.nothing hc)
    · rename_i hother
      refine hnone ?_ (.nothing hc)
      unfold offered
      split
      · rename_i envelope he
        exact absurd he (hother envelope)
      · exact Bool.and_false _

/-- What is withdrawn is withdrawn on a link that stands. -/
theorem find?_of_withdraws {r : String} {e : SessionEvent} {l : Link κ}
    (h : c.withdraws s r e = some l) : c.links.find? r = some l := by
  cases e with
  | message m =>
      simp only [withdraws] at h
      split at h
      · exact (Option.filter_eq_some_iff.mp h).1
      · cases h
  | subscribed => cases h
  | rosterUpdated _ => cases h
  | participantLeft _ => cases h
  | moreHistory => cases h

theorem keeps_onSession (hc : c.Proper) (hended : c.ended → c.links = .empty) (e : SessionEvent) :
    Keeps s c (c.onSession s e) fun r => blocksOf (c.withdraws s r e) := by
  unfold onSession
  split
  · rename_i hend
    refine (Keeps.nothing hc).congr fun r => ?_
    cases hw : c.withdraws s r e with
    | none => rfl
    | some l =>
        have hl := find?_of_withdraws hw
        rw [hended hend, Table.find?_empty] at hl
        cases hl
  · cases e with
    | message m => exact keeps_onMessage hc m
    | subscribed => exact .idle hc rfl rfl (Nat.le_refl _) (List.forall_mem_nil _)
    | rosterUpdated roster =>
        dsimp only
        split
        · exact .idle hc rfl rfl (Nat.le_refl _) (by simp [Idle])
        · exact .nothing hc
    | participantLeft _ => exact .nothing hc
    | moreHistory => exact .nothing hc

/-! ## Local media -/

theorem idle_releaseAll (stream : MediaStream) : ∀ e ∈ releaseAll stream, Idle e := by
  intro e he
  obtain ⟨t, -, rfl⟩ := List.mem_map.mp he
  trivial

omit [Connection κ] in
theorem idle_setControl (control : Control) (c : Call κ) :
    ∀ e ∈ (c.setControl control).2, Idle e := by
  unfold setControl
  split <;> simp [Idle]

theorem keeps_setControl (hc : c.Proper) (control : Control) :
    Keeps s c (c.setControl control) noBlocks := by
  unfold setControl
  split
  · exact .nothing hc
  · exact .idle hc rfl rfl (Nat.le_refl _) (by simp [Idle])

theorem keeps_startMedia (hc : c.Proper) (video : Bool) :
    Keeps s c (c.startMedia video) noBlocks := by
  unfold startMedia
  split
  · exact .nothing hc
  · have hcontrol := keeps_setControl (s := s) hc .pending
    exact hcontrol.quiet_andThen (.effects hcontrol.proper (by simp [Idle]))

theorem keeps_offerAll (hc : c.Proper) (remotes : List String) :
    Keeps s c (offerAll s remotes c) noBlocks := by
  induction remotes generalizing c with
  | nil => exact .nothing hc
  | cons remote rest ih =>
      have hoffer := keeps_offer (s := s) hc remote
      exact hoffer.quiet_andThen (ih hoffer.proper)

theorem keeps_publish (hc : c.Proper) (stream : MediaStream) :
    Keeps s c (c.publish s stream) noBlocks := by
  let c' : Call κ := { c with links := c.links.map fun _ l => l.attach stream, held := some stream }
  have hattach : Keeps s c (c', []) noBlocks :=
    .map hc (fun l => .attach l stream) rfl rfl rfl (List.forall_mem_nil _)
  have hoffers := keeps_offerAll (s := s) hattach.proper c'.links.keys
  have hinquiry : Keeps s (offerAll s c'.links.keys c').1
      ((offerAll s c'.links.keys c').1, [.send (.streamInquiry none)]) noBlocks :=
    .effects hoffers.proper (by simp [Idle])
  have hrest : Keeps s c' (c.publish s stream) noBlocks :=
    hoffers.quiet_andThen
      (f := fun c => Step.andThen (c, [.send (.streamInquiry none)]) (setControl .stop))
      (hinquiry.quiet_andThen (keeps_setControl hoffers.proper .stop))
  exact hattach.quiet_andThen (f := fun _ => c.publish s stream) hrest

theorem keeps_onMedia (hc : c.Proper) (epoch : Nat) (result : Except MediaError MediaStream) :
    Keeps s c (c.onMedia s epoch result) noBlocks := by
  unfold onMedia
  split
  · cases result with
    | error e => exact .nothing hc
    | ok stream => exact .effects hc (idle_releaseAll stream)
  · cases result with
    | error e =>
        have hcontrol := keeps_setControl (s := s) hc .start
        exact hcontrol.quiet_andThen (.effects hcontrol.proper (by simp [Idle]))
    | ok stream => exact keeps_publish hc stream

theorem keeps_leave (hc : c.Proper) : Keeps s c c.leave noBlocks := by
  unfold leave
  split
  · exact .nothing hc
  · have hnext : ({ c with epoch := c.epoch + 1 } : Call κ).Proper :=
      hc.congr rfl rfl (Nat.le_refl _)
    have hwithdraw : Keeps s c (withdraw { c with epoch := c.epoch + 1 }) noBlocks := by
      unfold withdraw
      split
      · exact .idle hc rfl rfl (Nat.le_refl _) (List.forall_mem_nil _)
      · rename_i stream _
        exact .map hc (fun l => .detach l stream) rfl rfl rfl (idle_releaseAll stream)
    refine hwithdraw.quiet_andThen ?_
    have hsay : Keeps s (withdraw { c with epoch := c.epoch + 1 }).1
        ((withdraw { c with epoch := c.epoch + 1 }).1, [.send (.stopStream none)]) noBlocks :=
      .effects hwithdraw.proper (by simp [Idle])
    exact hsay.quiet_andThen (keeps_setControl hwithdraw.proper .start)

theorem idle_teardown (c : Call κ) : ∀ e ∈ c.teardown.2, Idle e := by
  unfold teardown
  split
  · exact List.forall_mem_nil _
  · intro e he
    rcases List.mem_append.mp he with he | he
    · exact idle_releaseAll _ e he
    · rcases List.mem_append.mp he with he | he
      · exact idle_setControl .start _ e he
      · rw [List.mem_singleton.mp he]
        trivial

end Parley.Call
