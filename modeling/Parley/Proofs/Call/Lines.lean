import Parley.Call.Agent
import Parley.Proofs.Call.Stance

/-!
# Lines

The line to a participant is the link to it, if there is one, with the descriptions that go there.
An operation of a call acts on one line (`Call.Acts`): it leaves every other link as it is and sends
no description elsewhere. What it does on its own line is a matter of the stance: it may offer, and
when it hears a description it answers it, takes it as the answer to its own offer or passes over
it (`Call.Heard`).
-/

namespace Parley

/-- New connections are made as the engine makes them. -/
def Setting.Fresh (s : Setting) : Prop :=
  ∀ remote p, s.connect remote = some p → ∃ label, p = { label }

namespace Call

/-- The link to a participant is in a stance; no link is in the stance of a new one. -/
def At (c : Call) (r : String) (st : Stance) : Prop :=
  match c.links.find? r with
  | none => st = {}
  | some l => l.Holds st

/-- Every link is in some stance. -/
def Sound (c : Call) : Prop := ∀ r, ∃ st, c.At r st

/-- The descriptions for a participant among effects. -/
def descriptionsTo (r : String) (effects : List CallEffect) : List Description :=
  effects.filterMap fun
    | .send (.signal e) => if e.target = some r then e.sdp else none
    | _ => none

/-- A step acts on the line to a participant and nowhere else, and sends descriptions there. A link
that is there stays the same link. -/
structure Acts (r : String) (c : Call) (t : Step) (ds : List Description) : Prop where
  serial : ∀ l, c.links.find? r = some l → ∃ l', t.1.links.find? r = some l' ∧ l'.serial = l.serial
  elsewhere : ∀ r', r' ≠ r → t.1.links.find? r' = c.links.find? r'
  sends : descriptionsTo r t.2 = ds
  quiet : ∀ r', r' ≠ r → descriptionsTo r' t.2 = []
  alive : ∀ signal ∈ Agent.reports t.2, signal.event.IsAlive

theorem descriptionsTo_append (r : String) (xs ys : List CallEffect) :
    descriptionsTo r (xs ++ ys) = descriptionsTo r xs ++ descriptionsTo r ys :=
  List.filterMap_append

theorem at_put {r : String} {c : Call} {l : Link} {st : Stance} (h : l.Holds st) :
    (c.put r l).At r st := by rwa [At, find?_put_self]

namespace Acts

variable {r : String} {c : Call} {t : Step} {ds ds' : List Description}

theorem andThen {f : Call → Step} (h : Acts r c t ds) (hf : Acts r t.1 (f t.1) ds') :
    Acts r c (t.andThen f) (ds ++ ds') where
  serial l hl := by
    obtain ⟨l', hl', hserial⟩ := h.serial l hl
    obtain ⟨l'', hl'', hserial'⟩ := hf.serial l' hl'
    exact ⟨l'', hl'', hserial'.trans hserial⟩
  elsewhere r' hr' := (hf.elsewhere r' hr').trans (h.elsewhere r' hr')
  sends := by rw [Step.andThen_effects, descriptionsTo_append, h.sends, hf.sends]
  quiet r' hr' := by
    rw [Step.andThen_effects, descriptionsTo_append, h.quiet r' hr', hf.quiet r' hr']
    rfl
  alive signal hsignal := by
    rw [Step.andThen_effects, Agent.reports_append] at hsignal
    exact (List.mem_append.mp hsignal).elim (h.alive signal) (hf.alive signal)

/-- A step that leaves the links alone and sends neither descriptions nor reports. -/
theorem nothing {effects : List CallEffect} {c' : Call} (hlinks : c'.links = c.links)
    (hsends : ∀ r', descriptionsTo r' effects = []) (hreports : Agent.reports effects = []) :
    Acts r c (c', effects) [] where
  serial l hl := ⟨l, by rw [hlinks, hl], rfl⟩
  elsewhere _ _ := by rw [hlinks]
  sends := hsends r
  quiet r' _ := hsends r'
  alive signal hsignal := by rw [hreports] at hsignal; cases hsignal

/-- A step that puts a link in place of one with the same serial. -/
theorem put {effects : List CallEffect} {l k : Link} (hl : c.links.find? r = some l)
    (hserial : k.serial = l.serial) (hsends : ∀ r', descriptionsTo r' effects = [])
    (halive : ∀ signal ∈ Agent.reports effects, signal.event.IsAlive) :
    Acts r c (c.put r k, effects) [] where
  serial l' hl' := by
    rw [hl, Option.some.injEq] at hl'
    exact ⟨k, find?_put_self .., hl' ▸ hserial⟩
  elsewhere r' hr' := Table.find?_insert_of_ne _ _ hr'
  sends := hsends r
  quiet r' _ := hsends r'
  alive := halive

theorem describe (d : Description) : Acts r c (c, [sendDescription r d]) [d] where
  serial l hl := ⟨l, hl, rfl⟩
  elsewhere _ _ := rfl
  sends := by simp [descriptionsTo, sendDescription, Envelope.ofDescription]
  quiet r' hr' := by simp [descriptionsTo, sendDescription, Envelope.ofDescription, Ne.symm hr']
  alive signal hsignal := by simp [Agent.reports, sendDescription] at hsignal

theorem putReported {α : Type} {l k : Link} (o : Reply Peer α) (hl : c.links.find? r = some l)
    (hserial : k.serial = l.serial) (halive : ∀ e ∈ o.events, e.IsAlive) :
    Acts r c (c.putReported r k o) [] := by
  refine .put hl hserial (fun r' => by simp [descriptionsTo]) fun signal hsignal => ?_
  simp only [Agent.reports, List.filterMap_map, List.mem_filterMap, Function.comp_apply,
    Option.some.injEq] at hsignal
  obtain ⟨e, he, rfl⟩ := hsignal
  exact halive e he

theorem putReady {l : Link} {k : Link × List Candidate} (hl : c.links.find? r = some l)
    (hserial : k.1.serial = l.serial) : Acts r c (c.putReady r k) [] := by
  refine .put hl hserial (fun r' => ?_) fun signal hsignal => ?_
  · simp [descriptionsTo, sendCandidate, Envelope.ofCandidate]
  · simp [Agent.reports, sendCandidate] at hsignal

end Acts

/-! ## What an operation does on its line -/

/-- A link that is asked for is there, unless the engine makes none. -/
theorem acts_ensure {s : Setting} (hs : s.Fresh) {r : String} {c : Call} {st : Stance}
    (h : c.At r st) :
    ∃ found c' effects, c.ensure s r = (found, c', effects) ∧ Acts r c (c', effects) [] ∧
      c'.At r st ∧
      ((∃ l, found = some l ∧ c'.links.find? r = some l ∧ l.Holds st) ∨
        (found = none ∧ s.connect r = none ∧ st = {})) := by
  unfold ensure
  cases hl : c.links.find? r with
  | some l =>
      have hst : l.Holds st := by simpa [At, hl] using h
      exact ⟨_, _, _, rfl, .nothing rfl (fun _ => rfl) rfl, h, .inl ⟨l, rfl, hl, hst⟩⟩
  | none =>
      have hst : st = {} := by simpa [At, hl] using h
      cases hconnect : s.connect r with
      | none => exact ⟨_, _, _, rfl, .nothing rfl (fun _ => rfl) rfl, h, .inr ⟨rfl, rfl, hst⟩⟩
      | some p =>
          obtain ⟨label, rfl⟩ := hs r p hconnect
          let l : Link := { remote := r, serial := c.serial + 1, peer := { label } }
          have hnew : l.Holds st := by
            subst hst
            exact ⟨.fresh label, rfl, fun _ _ => rfl⟩
          refine ⟨_, _, _, rfl, ⟨?_, ?_, rfl, fun _ _ => rfl, nofun⟩, ?_,
            .inl ⟨_, rfl, Table.find?_insert_self .., hnew.attach _⟩⟩
          · intro l' hl'
            rw [hl] at hl'
            cases hl'
          · exact fun r' hr' => Table.find?_insert_of_ne _ _ hr'
          · simp only [At, Table.find?_insert_self]
            exact hnew.attach _

/-- What a call says on a line of its own accord. -/
inductive Spoken (st : Stance) : Stance → List Description → Prop where
  | nothing : Spoken st st []
  | offer {o : Description} : o.kind = .offer → Spoken st { st with offered := some o } [o]

/-- What a call makes of a description that it hears on a line. It may yield when offers cross, and
it may be refused a connection. -/
inductive Heard (yields refused : Prop) (st : Stance) (d : Description) :
    Stance → List Description → Prop where
  | pass : d.kind = .offer → st.offered.isSome → ¬ yields → Heard yields refused st d st []
  | answer {a : Description} : d.kind = .offer → (st.offered.isSome → yields) →
      a.kind = .answer → Heard yields refused st d ⟨none, some (a, d)⟩ [a]
  | take {o : Description} : d.kind = .answer → st.offered = some o →
      Heard yields refused st d ⟨none, some (o, d)⟩ []
  | stray : d.kind ≠ .offer → (st.offered.isSome → d.kind ≠ .answer) →
      Heard yields refused st d st []
  | refuse : d.kind = .offer → st = {} → refused → Heard yields refused st d st []

namespace Heard

variable {yields refused : Prop} {st st' : Stance} {d : Description} {ds : List Description}

/-- An offer that does not cross one that stays is answered. -/
theorem answers (h : Heard yields refused st d st' ds) (hd : d.kind = .offer)
    (hy : st.offered.isSome → yields) (hr : ¬ refused) :
    ∃ a, a.kind = .answer ∧ st' = ⟨none, some (a, d)⟩ ∧ ds = [a] := by
  cases h with
  | pass _ hout hnot => exact absurd (hy hout) hnot
  | answer _ _ ha => exact ⟨_, ha, rfl, rfl⟩
  | take hanswer _ => rw [hd] at hanswer; cases hanswer
  | stray hnot _ => exact absurd hd hnot
  | refuse _ _ hrefused => exact absurd hrefused hr

theorem passes (h : Heard yields refused st d st' ds) (hd : d.kind = .offer)
    (hout : st.offered.isSome) (hy : ¬ yields) (hr : ¬ refused) : st' = st ∧ ds = [] := by
  cases h with
  | pass _ _ _ => exact ⟨rfl, rfl⟩
  | answer _ hyields _ => exact absurd (hyields hout) hy
  | take hanswer _ => rw [hd] at hanswer; cases hanswer
  | stray hnot _ => exact absurd hd hnot
  | refuse _ _ hrefused => exact absurd hrefused hr

theorem takes {o : Description} (h : Heard yields refused st d st' ds) (hd : d.kind = .answer)
    (ho : st.offered = some o) : st' = ⟨none, some (o, d)⟩ ∧ ds = [] := by
  cases h with
  | pass hoffer _ _ => rw [hd] at hoffer; cases hoffer
  | answer hoffer _ _ => rw [hd] at hoffer; cases hoffer
  | take _ ho' =>
      rw [ho, Option.some.injEq] at ho'
      exact ⟨by rw [ho'], rfl⟩
  | stray _ hnot => exact absurd hd (hnot (by rw [ho]; rfl))
  | refuse hoffer _ _ => rw [hd] at hoffer; cases hoffer

/-- What is said to a description is no offer. -/
theorem kind_ne_offer (h : Heard yields refused st d st' ds) : ∀ d ∈ ds, d.kind ≠ .offer := by
  cases h with
  | answer _ _ ha =>
      intro d hd
      rw [List.mem_singleton.mp hd, ha]
      nofun
  | _ => nofun

end Heard

variable {r : String} {c : Call} {st : Stance}

theorem acts_offer {s : Setting} (hs : s.Fresh) (h : c.At r st) :
    ∃ st' ds, Spoken st st' ds ∧ Acts r c (c.offer s r) ds ∧ (c.offer s r).1.At r st' := by
  obtain ⟨found, c', effects, hensure, hacts, hat, ⟨l, rfl, hl, hst⟩ | ⟨rfl, -, -⟩⟩ :=
    acts_ensure hs h
  · obtain ⟨o, q, events, hoffer, hkind, hk, halive⟩ := hst.offer
    have hserial : l.negotiate.serial = l.serial := by rw [hst.negotiate_eq]
    refine ⟨_, [o], .offer hkind, ?_⟩
    simp only [offer, hensure, hoffer]
    exact ⟨hacts.andThen ((Acts.putReported _ hl hserial halive).andThen (.describe o)), at_put hk⟩
  · refine ⟨st, [], .nothing, ?_⟩
    simp only [offer, hensure]
    exact ⟨hacts, hat⟩

theorem acts_invite {s : Setting} (hs : s.Fresh) (h : c.At r st) :
    Acts r c (c.invite s r) [] ∧ (c.invite s r).1.At r st := by
  obtain ⟨found, c', effects, hensure, hacts, hat, ⟨l, rfl, -, -⟩ | ⟨rfl, -, -⟩⟩ := acts_ensure hs h
  · simp only [invite, hensure]
    exact ⟨hacts.andThen (f := fun c => (c, [_])) (.nothing rfl (fun _ => rfl) rfl), hat⟩
  · simp only [invite, hensure]
    exact ⟨hacts, hat⟩

theorem acts_answer {l k : Link} {d : Description} (hl : c.links.find? r = some l)
    (hst : l.Holds st) (hd : d.kind = .offer) (hpeer : k.peer = l.peer)
    (hserial : k.serial = l.serial) (hphase : k.phase ≠ .closed) :
    ∃ a, a.kind = .answer ∧ Acts r c (c.applyDescription r k d) [a] ∧
      (c.applyDescription r k d).1.At r ⟨none, some (a, d)⟩ := by
  obtain ⟨a, q, events, happly, hkind, hk, halive⟩ := hst.answer hd hpeer hphase
  refine ⟨a, hkind, ?_⟩
  simp only [applyDescription, happly]
  have hput := Acts.putReported (⟨.ok (some a), q, events⟩ : Reply Peer _) hl hserial halive
  exact ⟨hput.andThen ((Acts.describe a).andThen
    (.putReady (find?_put_self ..) (Link.flush_serial _))), at_put hk⟩

theorem acts_receiveOffer {s : Setting} (hs : s.Fresh) (h : c.At r st) {d : Description}
    (hd : d.kind = .offer) :
    ∃ st' ds, Heard (yieldsTo s r = true) (s.connect r = none) st d st' ds ∧
      Acts r c (c.receiveOffer s r d) ds ∧ (c.receiveOffer s r d).1.At r st' := by
  obtain ⟨found, c', effects, hensure, hacts, hat, ⟨l, rfl, hl, hst⟩ | ⟨rfl, hrefused, hnew⟩⟩ :=
    acts_ensure hs h
  · simp only [receiveOffer, hensure, hst.peer.crossing]
    by_cases hcross : st.offered.isSome ∧ yieldsTo s r = false
    · rw [if_pos hcross]
      exact ⟨st, [], .pass hd hcross.1 (by simp [hcross.2]), hacts, hat⟩
    · rw [if_neg hcross]
      obtain ⟨a, hkind, hanswer, hat'⟩ := acts_answer (c := c')
        (k := (if st.offered.isSome then l.forget.1 else l).negotiate) hl hst hd
        (by split <;> simp [Link.forget]) (by split <;> simp [Link.forget])
        (Link.negotiate_ne_closed (by split <;> exact hst.ne_closed))
      refine ⟨_, [a], .answer hd (fun ho => ?_) hkind, hacts.andThen hanswer, hat'⟩
      rw [← Bool.not_eq_false]
      exact fun hy => hcross ⟨ho, hy⟩
  · simp only [receiveOffer, hensure]
    exact ⟨st, [], .refuse hd hnew hrefused, hacts, hat⟩

theorem acts_receiveAnswer (h : c.At r st) {d : Description} (hd : d.kind ≠ .offer)
    (yields refused : Prop) :
    ∃ st' ds, Heard yields refused st d st' ds ∧
      Acts r c (c.receiveAnswer r d) ds ∧ (c.receiveAnswer r d).1.At r st' := by
  unfold receiveAnswer
  cases hl : c.links.find? r with
  | none =>
      have hst : st = {} := by simpa [At, hl] using h
      exact ⟨st, [], .stray hd (by simp [hst]), .nothing rfl (fun _ => rfl) rfl, h⟩
  | some l =>
      have hst : l.Holds st := by simpa [At, hl] using h
      by_cases hout : st.offered.isSome
      · have hnot : ¬ Connection.signaling l.peer ≠ .haveLocalOffer :=
          fun hne => hne (hst.peer.crossing.mpr hout)
        simp only [if_neg hnot]
        by_cases hkind : d.kind = .answer
        · obtain ⟨o, ho⟩ := Option.isSome_iff_exists.mp hout
          obtain ⟨q, events, happly, hk, halive⟩ := hst.take ho hkind
          refine ⟨_, [], .take hkind ho, ?_⟩
          simp only [applyDescription, happly]
          have hput := Acts.putReported (⟨.ok none, q, events⟩ : Reply Peer (Option Description))
            hl rfl halive
          exact ⟨hput.andThen (.andThen (.nothing rfl (fun _ => rfl) rfl)
            (.putReady (find?_put_self ..) (Link.flush_serial _))), at_put hk⟩
        · obtain ⟨e, happly⟩ := hst.peer.stray hout hd hkind
          refine ⟨st, [], .stray hd (fun _ => hkind), ?_⟩
          simp only [applyDescription, happly]
          have hput := Acts.putReported (⟨.error e, l.peer, []⟩ : Reply Peer (Option Description))
            hl rfl nofun
          exact ⟨hput.andThen (.nothing rfl (fun _ => rfl) rfl), at_put hst⟩
      · have hne : Connection.signaling l.peer ≠ .haveLocalOffer :=
          fun heq => hout (hst.peer.crossing.mp heq)
        simp only [if_pos hne]
        exact ⟨st, [], .stray hd (fun ho => absurd ho hout), .nothing rfl (fun _ => rfl) rfl, h⟩

theorem acts_receiveCandidate (h : c.At r st) (x : Candidate) :
    Acts r c (c.receiveCandidate r x) [] ∧ (c.receiveCandidate r x).1.At r st := by
  unfold receiveCandidate
  cases hl : c.links.find? r with
  | none => exact ⟨.nothing rfl (fun _ => rfl) rfl, h⟩
  | some l =>
      have hst : l.Holds st := by simpa [At, hl] using h
      obtain ⟨hk, halive⟩ := hst.peer.addCandidate x
      dsimp only
      split
      · exact ⟨.nothing rfl (fun _ => rfl) rfl, h⟩
      · exact ⟨.putReported _ hl rfl halive, at_put (hst.congr hk rfl rfl)⟩

/-! ## What a message does -/

/-- The description for this client in a message, if its call hears it. -/
def heard (s : Setting) (m : Message) : Option Description :=
  if concerns s m then
    match m.event with
    | .signal e => e.sdp
    | _ => none
  else none

/-- Whether a message asks for an offer. -/
def Prompts (m : Message) : Prop := ∃ target, m.event = .startStream target

/-- What a message from a participant does on the line to it: a description is heard, and otherwise
the call offers only if it is asked to. -/
inductive Messaged (s : Setting) (m : Message) (st : Stance) :
    Stance → List Description → Prop where
  | heard {d : Description} {st' : Stance} {ds : List Description} : heard s m = some d →
      Heard (yieldsTo s m.sender = true) (s.connect m.sender = none) st d st' ds →
      Messaged s m st st' ds
  | prompted {st' : Stance} {ds : List Description} : heard s m = none → Prompts m →
      Spoken st st' ds → Messaged s m st st' ds
  | nothing : heard s m = none → Messaged s m st st []

theorem acts_onMessage {s : Setting} (hs : s.Fresh) (m : Message) (h : c.At m.sender st) :
    ∃ st' ds, Messaged s m st st' ds ∧ Acts m.sender c (c.onMessage s m) ds ∧
      (c.onMessage s m).1.At m.sender st' := by
  unfold onMessage
  by_cases hc : concerns s m = true
  · rw [if_neg (by simp [hc])]
    cases he : m.event with
    | pingChannel target =>
        have hnone : heard s m = none := by simp [heard, he]
        dsimp only
        split
        · exact ⟨st, [], .nothing hnone, acts_invite hs h⟩
        · exact ⟨st, [], .nothing hnone, .nothing rfl (fun _ => rfl) rfl, h⟩
    | streamInquiry target =>
        have hnone : heard s m = none := by simp [heard, he]
        dsimp only
        split
        · exact ⟨st, [], .nothing hnone, .nothing rfl (fun _ => rfl) rfl, h⟩
        · exact ⟨st, [], .nothing hnone, acts_invite hs h⟩
    | startStream target =>
        obtain ⟨st', ds, hspoken, hacts⟩ := acts_offer hs h
        exact ⟨st', ds, .prompted (by simp [heard, he]) ⟨target, he⟩ hspoken, hacts⟩
    | stopStream target =>
        refine ⟨st, [], .nothing (by simp [heard, he]), ?_⟩
        dsimp only
        cases hl : c.links.find? m.sender with
        | none => exact ⟨.nothing rfl (fun _ => rfl) rfl, h⟩
        | some l =>
            have hst : l.Holds st := by simpa [At, hl] using h
            have hk : l.clearMedia.1.Holds st := hst.congr hst.peer rfl rfl
            refine ⟨.put hl rfl (fun r' => ?_) fun signal hsignal => ?_, at_put hk⟩
            · split <;> rfl
            · split at hsignal <;> cases hsignal
    | signal e =>
        dsimp only
        cases hsdp : e.sdp with
        | some d =>
            have hheard : heard s m = some d := by simp [heard, he, hc, hsdp]
            dsimp only
            unfold receiveDescription
            by_cases hd : d.kind = .offer
            · rw [if_pos (by simp [Description.isOffer, hd])]
              obtain ⟨st', ds, hst', hacts⟩ := acts_receiveOffer hs h hd
              exact ⟨st', ds, .heard hheard hst', hacts⟩
            · rw [if_neg (by simp [Description.isOffer, hd])]
              obtain ⟨st', ds, hst', hacts⟩ := acts_receiveAnswer h hd _ _
              exact ⟨st', ds, .heard hheard hst', hacts⟩
        | none =>
            have hnone : heard s m = none := by simp [heard, he, hsdp]
            refine ⟨st, [], .nothing hnone, ?_⟩
            cases e.ice with
            | some x => exact acts_receiveCandidate h x
            | none => exact ⟨.nothing rfl (fun _ => rfl) rfl, h⟩
    | _ =>
        have hnone : heard s m = none := by simp [heard, he]
        exact ⟨st, [], .nothing hnone, .nothing rfl (fun _ => rfl) rfl, h⟩
  · rw [if_pos (by simp [hc])]
    have hnone : heard s m = none := if_neg hc
    exact ⟨st, [], .nothing hnone, .nothing rfl (fun _ => rfl) rfl, h⟩

end Call

end Parley
