import Parley.Call.Agent

/-!
# What reactions are made of

To its session and to its connections a call reacts with operations of few kinds (`Call.Op`), one
after the other: it makes a link or puts another state of one in its place, it tells of streams, and
it sends descriptions and requests. Candidates leave at the very end of a reaction only, when a link
lets them out (`Call.Reacts`). What every operation keeps every reaction keeps.

The only requests among these operations are those that the session gives a reason for
(`Call.Asks`). Signals of connections give none.
-/

namespace Parley

/-- An event that asks for a connection or for an offer. -/
def Event.Invites : Event → Prop
  | .pingChannel _ | .streamInquiry _ | .startStream _ => True
  | _ => False

instance (e : Event) : Decidable e.Invites := by
  unfold Event.Invites
  split <;> infer_instance

namespace Link

variable {κ : Type}

/-- A later state of a link, or of its connection, in which it holds the same remote tracks. -/
structure Follows (k l : Link κ) : Prop where
  remote : k.remote = l.remote
  serial : k.serial = l.serial
  media : k.media = l.media

namespace Follows

variable {l : Link κ}

theorem rfl : l.Follows l := ⟨.refl _, .refl _, .refl _⟩

theorem trans {j k : Link κ} (h : j.Follows k) (h' : k.Follows l) : j.Follows l :=
  ⟨h.remote.trans h'.remote, h.serial.trans h'.serial, h.media.trans h'.media⟩

theorem forget : l.forget.1.Follows l := ⟨.refl _, .refl _, .refl _⟩

theorem negotiate : l.negotiate.Follows l := by
  unfold Link.negotiate
  split
  · exact .rfl
  · exact ⟨.refl _, .refl _, .refl _⟩

variable [Connection κ]

theorem flush : l.flush.1.Follows l := by
  unfold Link.flush
  split
  · exact .rfl
  · exact ⟨.refl _, .refl _, .refl _⟩

theorem gather (x : Candidate) : (l.gather x).1.Follows l := by
  unfold Link.gather
  split
  · exact .rfl
  · exact flush.trans ⟨.refl _, .refl _, .refl _⟩

end Follows

end Link

namespace Call

variable {κ : Type} [Connection κ]

/-- One operation on a call. `q` are the requests that may be sent. -/
inductive Op (s : Setting κ) (q : Event → Prop) (c : Call κ) : Step κ → Prop where
  /-- What the session told is kept in mind. -/
  | note (subscribed pinged : Bool) : Op s q c ({ c with subscribed, pinged }, [])
  | say {e : Event} (h : q e) : Op s q c (c, [.send e])
  | refuse {remote : String} (hl : c.links.find? remote = none) (hp : s.connect remote = none) :
      Op s q c ({ c with serial := c.serial + 1 }, [])
  | make {remote : String} {peer : κ} (hl : c.links.find? remote = none)
      (hp : s.connect remote = some peer) :
      Op s q c
        ({ c with
          serial := c.serial + 1
          links := c.links.insert remote
            (({ remote, serial := c.serial + 1, peer } : Link κ).attach (c.held.getD {})) },
          [.opened remote (c.serial + 1)])
  | report {α : Type} {remote : String} {l k : Link κ} (o : Reply κ α)
      (hl : c.links.find? remote = some l) (hk : k.Follows l) :
      Op s q c (c.putReported remote k o)
  | describe (remote : String) (ds : List Description) :
      Op s q c (c, ds.map (sendDescription remote))
  | track {remote : String} {l : Link κ} (t : Track) (hl : c.links.find? remote = some l) :
      Op s q c (c.put remote (l.addMedia t), (c.put remote (l.addMedia t)).tellStreams)
  | clear {remote : String} {l : Link κ} (hl : c.links.find? remote = some l) :
      Op s q c (c.put remote l.clearMedia.1,
        if l.clearMedia.2 then (c.put remote l.clearMedia.1).tellStreams else [])
  | remove {remote : String} {l : Link κ} (hl : c.links.find? remote = some l) :
      Op s q c (c.remove remote)

/-- Operations one after the other. -/
inductive Ops (s : Setting κ) (q : Event → Prop) : Call κ → Step κ → Prop where
  | nothing (c : Call κ) : Ops s q c (c, [])
  | op {c : Call κ} {t : Step κ} (h : Op s q c t) : Ops s q c t
  | andThen {c : Call κ} {t : Step κ} {f : Call κ → Step κ} (h : Ops s q c t)
      (hf : Ops s q t.1 (f t.1)) : Ops s q c (t.andThen f)

/-- Operations one after the other, the last of which may let candidates out. These leave on a link
that is live and settled. -/
inductive Reacts (s : Setting κ) (q : Event → Prop) : Call κ → Step κ → Prop where
  | ops {c : Call κ} {t : Step κ} (h : Ops s q c t) : Reacts s q c t
  | ready {c : Call κ} {remote : String} {l : Link κ} {k : Link κ × List Candidate}
      (hl : c.links.find? remote = some l) (hk : k.1.Follows l)
      (hlive : k.2 ≠ [] → k.1.phase ≠ .closed ∧ Connection.isSettled k.1.peer = true) :
      Reacts s q c (c.putReady remote k)
  | andThen {c : Call κ} {t : Step κ} {f : Call κ → Step κ} (h : Ops s q c t)
      (hf : Reacts s q t.1 (f t.1)) : Reacts s q c (t.andThen f)

theorem Reacts.nothing {s : Setting κ} {q : Event → Prop} (c : Call κ) :
    Reacts s q c (c, []) :=
  .ops (.nothing c)

variable {s : Setting κ} {q : Event → Prop}

/-! ## Links -/

theorem ops_ensure (remote : String) (c : Call κ) : Ops s q c (c.ensure s remote).2 := by
  unfold ensure
  split
  · exact .nothing c
  · rename_i hl
    dsimp only
    split
    · rename_i hp
      exact .op (.refuse hl hp)
    · rename_i hp
      exact .op (.make hl hp)

/-- The link that is asked for is in its place. -/
theorem find?_ensure {remote : String} {c c' : Call κ} {l : Link κ} {effects : List CallEffect}
    (h : c.ensure s remote = (some l, c', effects)) : c'.links.find? remote = some l := by
  unfold ensure at h
  split at h
  · rename_i hl
    cases h
    exact hl
  · dsimp only at h
    split at h
    · cases h
    · cases h
      exact Table.find?_insert_self ..

theorem ops_offer (remote : String) (c : Call κ) : Ops s q c (c.offer s remote) := by
  have hensure := ops_ensure (s := s) (q := q) remote c
  unfold offer
  split
  · rename_i he
    rwa [he] at hensure
  · rename_i he
    have hl := find?_ensure he
    rw [he] at hensure
    refine .andThen hensure ?_
    split
    · exact .op (.report _ hl .rfl)
    · exact .andThen (.op (.report _ hl .negotiate)) (.op (.describe remote [_]))

theorem ops_invite {remote : String} (h : q (.startStream (some remote))) (c : Call κ) :
    Ops s q c (c.invite s remote) := by
  have hensure := ops_ensure (s := s) (q := q) remote c
  unfold invite
  split
  · rename_i he
    rwa [he] at hensure
  · rename_i he
    rw [he] at hensure
    exact hensure.andThen (f := fun c => (c, [_])) (.op (.say h))

/-! ## What participants send -/

theorem reacts_applyDescription {remote : String} {c : Call κ} {l k : Link κ} (d : Description)
    (hl : c.links.find? remote = some l) (hk : k.Follows l) :
    Reacts s q c (c.applyDescription remote k d) := by
  unfold applyDescription
  refine .andThen (.op (.report _ hl hk)) ?_
  split
  · exact .nothing _
  · exact .andThen (.op (.describe _ _))
      (.ready (find?_put_self ..) .flush Link.live_of_flush_ne_nil)

theorem reacts_receiveDescription (remote : String) (d : Description) (c : Call κ) :
    Reacts s q c (c.receiveDescription s remote d) := by
  unfold receiveDescription
  split
  · have hensure := ops_ensure (s := s) (q := q) remote c
    unfold receiveOffer
    split
    · rename_i he
      rw [he] at hensure
      exact .ops hensure
    · rename_i he
      have hl := find?_ensure he
      rw [he] at hensure
      dsimp only
      split
      · exact .ops hensure
      · refine .andThen hensure (reacts_applyDescription d hl ?_)
        split
        · exact Link.Follows.negotiate.trans .forget
        · exact .negotiate
  · unfold receiveAnswer
    split
    · exact .nothing c
    · rename_i hl
      split
      · exact .nothing c
      · exact reacts_applyDescription d hl .rfl

theorem ops_receiveCandidate (remote : String) (x : Candidate) (c : Call κ) :
    Ops s q c (c.receiveCandidate remote x) := by
  unfold receiveCandidate
  split
  · exact .nothing c
  · rename_i hl
    split
    · exact .nothing c
    · exact .op (.report _ hl .rfl)

/-- A message is a reason to ask its sender for an offer only if it asks for something itself. -/
theorem reacts_onMessage {m : Message} (h : m.event.Invites → q (.startStream (some m.sender)))
    (c : Call κ) : Reacts s q c (c.onMessage s m) := by
  unfold onMessage
  split
  · exact .nothing c
  · split
    · rename_i he
      split
      · exact .ops (ops_invite (h (by rw [he]; trivial)) c)
      · exact .nothing c
    · rename_i he
      split
      · exact .nothing c
      · exact .ops (ops_invite (h (by rw [he]; trivial)) c)
    · exact .ops (ops_offer _ c)
    · split
      · exact .nothing c
      · rename_i hl
        exact .ops (.op (.clear hl))
    · split
      · exact reacts_receiveDescription ..
      · exact .ops (ops_receiveCandidate ..)
      · exact .nothing c
    · exact .nothing c

/-! ## Every reaction -/

/-- What a call may ask for when its session reports something. -/
inductive Asks : SessionEvent → Event → Prop where
  | offer {m : Message} (h : m.event.Invites) : Asks (.message m) (.startStream (some m.sender))
  | streams (r : Roster) : Asks (.rosterUpdated r) (.pingChannel none)

theorem Asks.invites {e : SessionEvent} {e' : Event} (h : Asks e e') : e'.Invites := by
  cases h <;> trivial

theorem reacts_onSession (s : Setting κ) (e : SessionEvent) (c : Call κ) :
    Reacts s (Asks e) c (c.onSession s e) := by
  unfold onSession
  split
  · exact .nothing c
  · split
    · exact .ops (.op (.note true c.pinged))
    · rename_i r
      split
      · have hnote : Ops s (Asks (.rosterUpdated r)) c ({ c with pinged := true }, []) :=
          .op (.note c.subscribed true)
        exact .ops (hnote.andThen (f := fun c => (c, [_])) (.op (.say (.streams r))))
      · exact .nothing c
    · exact reacts_onMessage .offer c
    · exact .nothing c
    · exact .nothing c

theorem reacts_onSignal (s : Setting κ) (q : Event → Prop) (signal : PeerSignal) (c : Call κ) :
    Reacts s q c (c.onSignal signal) := by
  unfold onSignal
  split
  · exact .nothing c
  · split
    · exact .nothing c
    · rename_i hl
      split
      · exact .nothing c
      · split
        · exact .ready hl (.gather _) Link.live_of_gather_ne_nil
        · exact .ops (.op (.track _ hl))
        · split
          · exact .ops (.op (.remove hl))
          · exact .nothing c

theorem ops_offerAll (remotes : List String) (c : Call κ) :
    Ops s q c (offerAll s remotes c) := by
  induction remotes generalizing c with
  | nil => exact .nothing c
  | cons remote rest ih => exact .andThen (ops_offer remote c) (ih _)

/-! ## What reactions send -/

omit [Connection κ] in
theorem not_send_mem_tellStreams (c : Call κ) (e : Event) : .send e ∉ c.tellStreams := by
  simp [tellStreams]

/-- An operation sends a request that there is a reason for, or descriptions. -/
theorem Op.sends {c : Call κ} {t : Step κ} (h : Op s q c t) {e : Event} (he : .send e ∈ t.2) :
    q e ∨ ∃ remote d, e = .signal (.ofDescription remote d) := by
  cases h with
  | note _ _ => cases he
  | say hq =>
      cases List.mem_singleton.mp he
      exact .inl hq
  | refuse _ _ => cases he
  | make _ _ => cases List.mem_singleton.mp he
  | report o _ _ =>
      obtain ⟨e', -, hreport⟩ := List.mem_map.mp he
      cases hreport
  | describe remote ds =>
      obtain ⟨d, -, hd⟩ := List.mem_map.mp he
      exact .inr ⟨remote, d, (CallEffect.send.inj hd).symm⟩
  | track _ _ => exact absurd he (not_send_mem_tellStreams _ e)
  | clear _ =>
      dsimp only at he
      split at he
      · exact absurd he (not_send_mem_tellStreams _ e)
      · cases he
  | remove hl =>
      rw [Call.remove, hl] at he
      exact absurd he (not_send_mem_tellStreams _ e)

theorem Ops.sends {c : Call κ} {t : Step κ} (h : Ops s q c t) {e : Event} (he : .send e ∈ t.2) :
    q e ∨ ∃ remote d, e = .signal (.ofDescription remote d) := by
  induction h with
  | nothing c => cases he
  | op h => exact h.sends he
  | andThen h hf ih ihf => exact (List.mem_append.mp he).elim ih ihf

theorem Reacts.sends {c : Call κ} {t : Step κ} (h : Reacts s q c t) {e : Event}
    (he : .send e ∈ t.2) :
    q e ∨ (∃ remote d, e = .signal (.ofDescription remote d)) ∨
      ∃ remote x, e = .signal (.ofCandidate remote x) := by
  induction h with
  | ops h => exact (h.sends he).imp_right .inl
  | @ready _ remote _ _ hl hk hlive =>
      obtain ⟨x, -, hx⟩ := List.mem_map.mp he
      exact .inr (.inr ⟨remote, x, (CallEffect.send.inj hx).symm⟩)
  | andThen h hf ih =>
      rcases List.mem_append.mp he with he | he
      · exact (h.sends he).imp_right .inl
      · exact ih he

end Call

end Parley
