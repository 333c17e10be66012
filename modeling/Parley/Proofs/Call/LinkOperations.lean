import Parley.Proofs.Call.Reactions

/-!
# Operations on the link to a participant

What a call does when its session reports something, and when it offers of its own accord, it does
by dealing with one participant after the other (`Call.Dealing`). Each dealing is given in full,
with what the connection answered to it, so that a property of connections can be followed through
it; `Op` leaves that open. Only what a participant sent is applied to its connection, and all that
`heard` tells is in envelopes. What can go on and every dealing keeps, `Deals` keeps.
-/

namespace Parley.Call

variable {κ : Type} [Connection κ]

/-- One dealing. `heard` are the envelopes that a participant may have sent. -/
inductive Dealing (s : Setting κ) (heard : String → Envelope → Prop) (c : Call κ) :
    Step κ → Prop where
  | note (subscribed pinged : Bool) : Dealing s heard c ({ c with subscribed, pinged }, [])
  | say {e : Event} (h : ∀ envelope, e ≠ .signal envelope) : Dealing s heard c (c, [.send e])
  | refuse {remote : String} (hl : c.links.find? remote = none) (hp : s.connect remote = none) :
      Dealing s heard c ({ c with serial := c.serial + 1 }, [])
  | make {remote : String} {peer : κ} (hl : c.links.find? remote = none)
      (hp : s.connect remote = some peer) :
      Dealing s heard c
        ({ c with
          serial := c.serial + 1
          links := c.links.insert remote
            (({ remote, serial := c.serial + 1, peer } : Link κ).attach (c.held.getD {})) },
          [.opened remote (c.serial + 1)])
  | offerFails {remote : String} {l : Link κ} {e : MediaError}
      (hl : c.links.find? remote = some l) (ho : (Connection.offer l.peer).result = .error e) :
      Dealing s heard c (c.putReported remote l (Connection.offer l.peer))
  | offer {remote : String} {l : Link κ} {d : Description} (hl : c.links.find? remote = some l)
      (ho : (Connection.offer l.peer).result = .ok d) :
      Dealing s heard c ((c.putReported remote l.negotiate (Connection.offer l.peer)).andThen
        fun c => (c, [sendDescription remote d]))
  | apply {remote : String} {l k : Link κ} {e : Envelope} {d : Description}
      (he : heard remote e) (hd : e.sdp = some d) (hl : c.links.find? remote = some l)
      (hk : k.Follows l) (hpeer : k.peer = l.peer) :
      Dealing s heard c (c.applyDescription remote k d)
  | candidate {remote : String} {l : Link κ} {e : Envelope} {x : Candidate} (he : heard remote e)
      (hsdp : e.sdp = none) (hx : e.ice = some x) (hl : c.links.find? remote = some l) :
      Dealing s heard c (c.putReported remote l (Connection.addCandidate l.peer x))
  | clear {remote : String} {l : Link κ} (hl : c.links.find? remote = some l) :
      Dealing s heard c (c.put remote l.clearMedia.1,
        if l.clearMedia.2 then (c.put remote l.clearMedia.1).tellStreams else [])

/-- Dealings one after the other. -/
inductive Deals (s : Setting κ) (heard : String → Envelope → Prop) : Call κ → Step κ → Prop where
  | nothing (c : Call κ) : Deals s heard c (c, [])
  | dealing {c : Call κ} {t : Step κ} (h : Dealing s heard c t) : Deals s heard c t
  | andThen {c : Call κ} {t : Step κ} {f : Call κ → Step κ} (h : Deals s heard c t)
      (hf : Deals s heard t.1 (f t.1)) : Deals s heard c (t.andThen f)

variable {s : Setting κ} {heard : String → Envelope → Prop}

/-- What can go on and every dealing keeps, all dealings keep. -/
theorem of_deals {R : Call κ → Step κ → Prop} {c : Call κ} {t : Step κ} (h : Deals s heard c t)
    (nothing : ∀ c, R c (c, []))
    (andThen : ∀ {c t} {f : Call κ → Step κ}, R c t → R t.1 (f t.1) → R c (t.andThen f))
    (dealing : ∀ {c t}, Dealing s heard c t → R c t) : R c t := by
  induction h with
  | nothing c => exact nothing c
  | dealing h => exact dealing h
  | andThen _ _ ih ihf => exact andThen ih ihf

/-! ## Offers and descriptions -/

theorem deals_ensure (remote : String) (c : Call κ) : Deals s heard c (c.ensure s remote).2 := by
  unfold ensure
  split
  · exact .nothing c
  · rename_i hl
    dsimp only
    split
    · rename_i hp
      exact .dealing (.refuse hl hp)
    · rename_i hp
      exact .dealing (.make hl hp)

theorem deals_offer (remote : String) (c : Call κ) : Deals s heard c (c.offer s remote) := by
  have hensure : Deals s heard c (c.ensure s remote).2 := deals_ensure remote c
  unfold offer
  split
  · rename_i he
    rwa [he] at hensure
  · rename_i he
    have hl := find?_ensure he
    rw [he] at hensure
    refine .andThen hensure ?_
    dsimp only
    split
    · rename_i ho
      exact .dealing (.offerFails hl ho)
    · rename_i ho
      exact .dealing (.offer hl ho)

theorem deals_invite (remote : String) (c : Call κ) : Deals s heard c (c.invite s remote) := by
  have hensure : Deals s heard c (c.ensure s remote).2 := deals_ensure remote c
  unfold invite
  split
  · rename_i he
    rwa [he] at hensure
  · rename_i he
    rw [he] at hensure
    exact hensure.andThen (f := fun c => (c, [_])) (.dealing (.say nofun))

theorem deals_receiveDescription {remote : String} {e : Envelope} {d : Description}
    (he : heard remote e) (hd : e.sdp = some d) (c : Call κ) :
    Deals s heard c (c.receiveDescription s remote d) := by
  unfold receiveDescription
  split
  · have hensure : Deals s heard c (c.ensure s remote).2 := deals_ensure remote c
    unfold receiveOffer
    split
    · rename_i he
      rwa [he] at hensure
    · rename_i l c' effects heq
      have hl := find?_ensure heq
      rw [heq] at hensure
      dsimp only
      split
      · exact hensure
      · refine .andThen hensure (.dealing (.apply he hd hl ?_ ?_))
        · split
          · exact Link.Follows.negotiate.trans .forget
          · exact .negotiate
        · rw [Link.negotiate_peer]
          split <;> rfl
  · unfold receiveAnswer
    split
    · exact .nothing c
    · rename_i hl
      split
      · exact .nothing c
      · exact .dealing (.apply he hd hl .rfl rfl)

/-- To offer, nothing has to be heard. -/
theorem deals_offerAll (s : Setting κ) (remotes : List String) (c : Call κ) :
    Deals s (fun _ _ => False) c (offerAll s remotes c) := by
  induction remotes generalizing c with
  | nil => exact .nothing c
  | cons remote rest ih => exact .andThen (deals_offer remote c) (ih _)

/-! ## What the session reports -/

omit [Connection κ] in
/-- An envelope for this client is in what the session reports. -/
def Utters (s : Setting κ) (e : SessionEvent) (remote : String) (envelope : Envelope) : Prop :=
  ∃ m, e = .message m ∧ m.sender = remote ∧ concerns s m = true ∧ m.event = .signal envelope

theorem deals_onMessage (s : Setting κ) (m : Message) (c : Call κ) :
    Deals s (Utters s (.message m)) c (c.onMessage s m) := by
  unfold onMessage
  split
  · exact .nothing c
  · rename_i hconcerns
    have hconcerns : concerns s m = true := by simpa using hconcerns
    split
    · split
      · exact deals_invite m.sender c
      · exact .nothing c
    · split
      · exact .nothing c
      · exact deals_invite m.sender c
    · exact deals_offer m.sender c
    · split
      · exact .nothing c
      · rename_i hl
        exact .dealing (.clear hl)
    · rename_i e he
      have hutters : Utters s (.message m) m.sender e := ⟨m, rfl, rfl, hconcerns, he⟩
      split
      · rename_i hd
        exact deals_receiveDescription hutters hd c
      · rename_i hsdp hx
        unfold receiveCandidate
        split
        · exact .nothing c
        · rename_i hl
          split
          · exact .nothing c
          · exact .dealing (.candidate hutters hsdp hx hl)
      · exact .nothing c
    · exact .nothing c

theorem deals_onSession (s : Setting κ) (e : SessionEvent) (c : Call κ) :
    Deals s (Utters s e) c (c.onSession s e) := by
  unfold onSession
  split
  · exact .nothing c
  · split
    · exact .dealing (.note true c.pinged)
    · rename_i r
      split
      · have hnote : Deals s (Utters s (.rosterUpdated r)) c ({ c with pinged := true }, []) :=
          .dealing (.note c.subscribed true)
        exact hnote.andThen (f := fun c => (c, [_])) (.dealing (.say nofun))
      · exact .nothing c
    · exact deals_onMessage s _ c
    · exact .nothing c
    · exact .nothing c

end Parley.Call
