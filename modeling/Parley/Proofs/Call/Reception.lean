import Parley.Proofs.Call.CandidateFlow
import Parley.Proofs.Call.LinkOperations
import Parley.Proofs.Call.Steps
import Parley.Proofs.Call.Views
import Parley.Proofs.Media.Announcements

/-!
# What is received from a participant

A connection reports tracks when it takes a remote description, and at no other time
(`tracksIn_apply_of_error`). The call hears of them in signals, which it takes later. So in a step in
which no description of a participant is applied its connection reports no tracks, and its link
receives none but the one that the signal just taken brings (`Call.limits_step`).
-/

namespace Parley

/-! ## Reports of tracks -/

namespace Reply

variable {κ α β : Type} {o : Reply κ α} {f : α → κ → Reply κ β}

theorem tracksIn_andThen (h : tracksIn o.events = [])
    (hf : ∀ a, tracksIn (f a o.after).events = []) : tracksIn (o.andThen f).events = [] := by
  unfold andThen
  split
  · exact h
  · rw [tracksIn_append, h, hf]
    rfl

/-- A sequence that fails failed in its first operation or in the rest. -/
theorem of_andThen_error {e : MediaError} (h : (o.andThen f).result = .error e) :
    (o.result = .error e ∧ (o.andThen f).events = o.events) ∨
      ∃ a, o.result = .ok a ∧ (f a o.after).result = .error e ∧
        (o.andThen f).events = o.events ++ (f a o.after).events := by
  unfold andThen at h ⊢
  cases ho : o.result with
  | error e' =>
      rw [ho] at h
      cases h
      exact .inl ⟨rfl, rfl⟩
  | ok a =>
      rw [ho] at h
      exact .inr ⟨a, rfl, h, rfl⟩

theorem of_map_error {g : α → β} {e : MediaError} (h : (o.map g).result = .error e) :
    o.result = .error e := by
  cases ho : o.result with
  | error e' =>
      rw [map, ho] at h
      cases h
      rfl
  | ok a =>
      rw [map, ho] at h
      cases h

end Reply

namespace Peer

theorem tracksIn_setLocal (p : Peer) (d : Description) :
    tracksIn (Connection.setLocal p d).events = [] := p.tracksIn_reply (.setLocal d) rfl

theorem tracksIn_offer (p : Peer) : tracksIn (Connection.offer p).events = [] :=
  Reply.tracksIn_andThen rfl fun d => tracksIn_setLocal p d

theorem tracksIn_addCandidate (p : Peer) (x : Candidate) :
    tracksIn (Connection.addCandidate p x).events = [] := p.tracksIn_reply (.addCandidate x) rfl

theorem tracksIn_makeRoom (p : Peer) : tracksIn (Connection.makeRoom p).events = [] := by
  unfold Connection.makeRoom
  split
  · exact p.tracksIn_reply .rollback rfl
  · split
    · exact p.tracksIn_reply .clearLocal rfl
    · rfl
  · rfl

/-- A description that is refused announces nothing. -/
theorem setRemote_of_error {p : Peer} {d : Description} {e : MediaError}
    (h : (Connection.setRemote p d).result = .error e) : (Connection.setRemote p d).events = [] := by
  rw [connection_setRemote] at h ⊢
  cases hr : p.setRemote d with
  | error e' => rfl
  | ok r =>
      rw [hr] at h
      cases h

theorem signaling_setRemote_offer {p : Peer} {d : Description} (hd : d.isOffer = true) {u : Unit}
    (h : (Connection.setRemote p d).result = .ok u) :
    (Connection.setRemote p d).after.signaling = .haveRemoteOffer := by
  have hkind : d.kind = .offer := of_decide_eq_true hd
  rw [connection_setRemote, setRemote] at h ⊢
  rw [hkind] at h ⊢
  split at h
  · cases h
  · rfl
  · rename_i heq _
    cases heq
  · cases h

/-- An offer that was taken can be answered. -/
theorem answer_of_haveRemoteOffer {p : Peer} (h : p.signaling = .haveRemoteOffer) :
    ∃ a, ((Connection.createAnswer p).andThen fun a p =>
      (Connection.setLocal p a).map fun _ => a).result = .ok a := by
  refine ⟨⟨.answer, Sdp.text p.label "answer" p.tracks⟩, ?_⟩
  simp [Reply.andThen, Reply.map, Result.reply, createAnswer, setLocal, h, Except.map]

/-- A description that is not applied makes the connection report no tracks. -/
theorem tracksIn_apply_of_error {p : Peer} {d : Description} {e : MediaError}
    (h : (Connection.apply p d).result = .error e) :
    tracksIn (Connection.apply p d).events = [] := by
  unfold Connection.apply at h ⊢
  split
  · rename_i hd
    rw [if_pos hd] at h
    change tracksIn (Connection.answer p d).events = []
    obtain ⟨-, heq⟩ | ⟨-, -, hrest, heq⟩ := Reply.of_andThen_error (Reply.of_map_error h)
    · rw [Connection.answer, heq, tracksIn_makeRoom]
    · rw [Connection.answer, heq, tracksIn_append, tracksIn_makeRoom, List.nil_append]
      obtain ⟨hremote, heq⟩ | ⟨_, hremote, hanswer, -⟩ := Reply.of_andThen_error hrest
      · rw [heq, setRemote_of_error hremote]
        rfl
      · obtain ⟨a, ha⟩ := answer_of_haveRemoteOffer (signaling_setRemote_offer hd hremote)
        rw [ha] at hanswer
        cases hanswer
  · rename_i hd
    rw [if_neg hd] at h
    change tracksIn (Connection.setRemote p d).events = []
    rw [setRemote_of_error (Reply.of_map_error h)]
    rfl

end Peer

namespace Call

/-! ## Remote media of one participant -/

section

variable {κ : Type}

/-- What the user interface is told that a participant sends, each time it is told. -/
def mediaTold (r : String) (effects : List CallEffect) : List MediaStream :=
  (told effects).flatMap fun e => ((e.streams?.getD []).filter (·.1 = r)).map (·.2)

@[simp] theorem mediaTold_append (r : String) (xs ys : List CallEffect) :
    mediaTold r (xs ++ ys) = mediaTold r xs ++ mediaTold r ys := by
  rw [mediaTold, told_append, List.flatMap_append]
  rfl

theorem mem_mediaTold_iff {r : String} {effects : List CallEffect} {m : MediaStream} :
    m ∈ mediaTold r effects ↔
      ∃ streams, .streamsUpdated streams ∈ told effects ∧ (r, m) ∈ streams := by
  have hentry : ∀ streams : List (String × MediaStream),
      m ∈ (streams.filter (·.1 = r)).map (·.2) ↔ (r, m) ∈ streams := by
    intro streams
    simp [List.mem_filter]
  rw [mediaTold, List.mem_flatMap]
  constructor
  · rintro ⟨e, he, hm⟩
    cases e with
    | streamsUpdated streams => exact ⟨streams, he, (hentry streams).mp hm⟩
    | controlChanged _ | notice _ => cases hm
  · rintro ⟨streams, he, hm⟩
    exact ⟨_, he, (hentry streams).mpr hm⟩

theorem mem_mediaTold_tellStreams {r : String} {c : Call κ} {m : MediaStream}
    (h : m ∈ mediaTold r c.tellStreams) :
    m.isEmpty = false ∧ ∃ l, c.links.find? r = some l ∧ l.media = m := by
  obtain ⟨streams, htold, hm⟩ := mem_mediaTold_iff.mp h
  cases List.mem_singleton.mp htold
  exact mem_streams_iff.mp hm

/-- The links stand at their participants' ids, and that to `r` receives none but these tracks. -/
structure Plays (r : String) (ts : List Track) (c : Call κ) : Prop where
  named : ∀ r' l, c.links.find? r' = some l → l.remote = r'
  media : ∀ l, c.links.find? r = some l → l.media.tracks ⊆ ts

variable {r : String} {ts : List Track} {c c' : Call κ}

/-- Links that stand stood before, with the same remote tracks. -/
theorem Plays.follow (hc : c.Plays r ts)
    (h : ∀ r' k, c'.links.find? r' = some k → ∃ l, c.links.find? r' = some l ∧ k.Follows l) :
    c'.Plays r ts where
  named r' k hk := by
    obtain ⟨l, hl, hfollows⟩ := h r' k hk
    exact hfollows.remote.trans (hc.named r' l hl)
  media k hk := by
    obtain ⟨l, hl, hfollows⟩ := h r k hk
    rw [hfollows.media]
    exact hc.media l hl

theorem Plays.congr (hc : c.Plays r ts) (h : c'.links = c.links) : c'.Plays r ts :=
  hc.follow fun _ k hk => ⟨k, h ▸ hk, .rfl⟩

theorem Plays.map (hc : c.Plays r ts) {f : Link κ → Link κ} (hf : ∀ l, (f l).Follows l)
    (h : c'.links = c.links.map fun _ l => f l) : c'.Plays r ts := by
  refine hc.follow fun r' k hk => ?_
  rw [h, Table.find?_map] at hk
  obtain ⟨l, hl, rfl⟩ := Option.map_eq_some_iff.mp hk
  exact ⟨l, hl, hf l⟩

/-- A link takes its place, or the place of another state of it. -/
theorem Plays.insert (hc : c.Plays r ts) {r' : String} {k : Link κ} (hremote : k.remote = r')
    (hmedia : r' = r → k.media.tracks ⊆ ts) (h : c'.links = c.links.insert r' k) :
    c'.Plays r ts where
  named r'' l hl := by
    by_cases hr : r'' = r'
    · subst hr
      rw [h, Table.find?_insert_self, Option.some.injEq] at hl
      exact hl ▸ hremote
    · rw [h, Table.find?_insert_of_ne _ _ hr] at hl
      exact hc.named r'' l hl
  media l hl := by
    by_cases hr : r = r'
    · rw [h, hr, Table.find?_insert_self, Option.some.injEq] at hl
      exact hl ▸ hmedia hr.symm
    · rw [h, Table.find?_insert_of_ne _ _ hr] at hl
      exact hc.media l hl

theorem Plays.put (hc : c.Plays r ts) {r' : String} {k : Link κ} (hremote : k.remote = r')
    (hmedia : r' = r → k.media.tracks ⊆ ts) : (c.put r' k).Plays r ts :=
  hc.insert hremote hmedia rfl

/-- A step after which the link to `r` receives none but these tracks. Nothing else is told of it,
and its connection reports no tracks. -/
structure Limits (r : String) (ts : List Track) (t : Step κ) : Prop where
  plays : t.1.Plays r ts
  told : ∀ m ∈ mediaTold r t.2, m.isEmpty = false ∧ m.tracks ⊆ ts
  reports : ∀ x ∈ Agent.reports t.2, x.remote = r → x.event.track? = none

namespace Limits

variable {t : Step κ} {effects : List CallEffect}

theorem andThen {f : Call κ → Step κ} (h : Limits r ts t)
    (hf : t.1.Plays r ts → Limits r ts (f t.1)) : Limits r ts (t.andThen f) := by
  obtain ⟨hplays, htold, hreports⟩ := hf h.plays
  refine ⟨hplays, ?_, ?_⟩
  · intro m hm
    rw [Step.andThen_effects, mediaTold_append] at hm
    rcases List.mem_append.mp hm with hm | hm
    · exact h.told m hm
    · exact htold m hm
  · intro x hx
    rw [Step.andThen_effects, Agent.reports_append] at hx
    rcases List.mem_append.mp hx with hx | hx
    · exact h.reports x hx
    · exact hreports x hx

/-- A step that tells of no streams and in which no connection reports. -/
theorem aside (hc : c.Plays r ts) (htold : mediaTold r effects = [])
    (hreports : Agent.reports effects = []) : Limits r ts (c, effects) := by
  refine ⟨hc, ?_, ?_⟩
  · intro m hm
    rw [htold] at hm
    cases hm
  · intro x hx
    rw [hreports] at hx
    cases hx

theorem nothing (hc : c.Plays r ts) : Limits r ts (c, []) := aside hc rfl rfl

theorem send (hc : c.Plays r ts) (e : Event) : Limits r ts (c, [.send e]) := aside hc rfl rfl

theorem tell (hc : c.Plays r ts) : Limits r ts (c, c.tellStreams) := by
  refine ⟨hc, fun m hm => ?_, nofun⟩
  obtain ⟨hfull, l, hl, rfl⟩ := mem_mediaTold_tellStreams hm
  exact ⟨hfull, hc.media l hl⟩

theorem setControl (hc : c.Plays r ts) (control : Control) :
    Limits r ts (c.setControl control) := by
  unfold Call.setControl
  split
  · exact nothing hc
  · exact aside (hc.congr rfl) rfl rfl

theorem releaseAll (hc : c.Plays r ts) (stream : MediaStream) :
    Limits r ts (c, releaseAll stream) := by
  refine aside hc ?_ (reports_releaseAll stream)
  rw [mediaTold, Shows.told_releaseAll]
  rfl

theorem sendCandidates (hc : c.Plays r ts) (r' : String) (xs : List Candidate) :
    Limits r ts (c, xs.map (sendCandidate r')) :=
  aside hc (by simp [mediaTold, Call.told, sendCandidate]) (reports_sendCandidate r' xs)

/-- A link is put back whose connection reports no tracks, unless it is of another participant. -/
theorem putReported (hc : c.Plays r ts) {α : Type} {r' : String} {l k : Link κ}
    (hl : c.links.find? r' = some l) (hk : k.Follows l) {o : Reply κ α}
    (ho : r' = r → tracksIn o.events = []) : Limits r ts (c.putReported r' k o) := by
  have hremote : k.remote = r' := hk.remote.trans (hc.named r' l hl)
  have hmedia : r' = r → k.media.tracks ⊆ ts := by
    intro hr
    rw [hk.media]
    exact hc.media l (hr ▸ hl)
  refine ⟨hc.put hremote hmedia, ?_, ?_⟩
  · intro m hm
    have htold : mediaTold r (o.events.map fun e => CallEffect.report (k.tag e)) = [] := by
      simp [mediaTold, Call.told]
    change m ∈ mediaTold r (o.events.map fun e => .report (k.tag e)) at hm
    rw [htold] at hm
    cases hm
  · intro x hx hr
    obtain ⟨e, he, rfl⟩ : ∃ e ∈ o.events, k.tag e = x := by
      simpa [Call.putReported, Agent.reports] using hx
    exact tracksIn_eq_nil_iff.mp (ho (hremote.symm.trans hr)) e he

end Limits

end

/-! ## Dealings -/

variable {r : String} {ts : List Track} {s : Setting} {c : Call}

theorem limits_applyDescription (hc : c.Plays r ts) {r' : String} {l k : Link}
    (hl : c.links.find? r' = some l) (hk : k.Follows l) {d : Description}
    (h : r' = r → tracksIn (Connection.apply k.peer d).events = []) :
    Limits r ts (c.applyDescription r' k d) := by
  unfold applyDescription
  refine (Limits.putReported hc hl hk h).andThen fun hc' => ?_
  split
  · exact .nothing hc'
  · rename_i answer _
    have hsend : Limits r ts ((c.putReported r' k (Connection.apply k.peer d)).1,
        answer.toList.map (sendDescription r')) := by
      refine .aside hc' ?_ ?_
      · simp [mediaTold, Call.told, sendDescription]
      · simp [Agent.reports, sendDescription]
    refine hsend.andThen fun hc'' => ?_
    have hflush : ({ k with peer := (Connection.apply k.peer d).after } : Link).flush.1.Follows l :=
      Link.Follows.flush.trans ⟨hk.remote, hk.serial, hk.media⟩
    have hput : Limits r ts ((c.putReported r' k (Connection.apply k.peer d)).1.put r'
        ({ k with peer := (Connection.apply k.peer d).after } : Link).flush.1, []) := by
      refine .nothing (hc''.put (hflush.remote.trans (hc.named r' l hl)) fun hr => ?_)
      rw [hflush.media]
      exact hc.media l (hr ▸ hl)
    exact hput.andThen (f := fun c => (c, _)) fun hc => .sendCandidates hc r' _

/-- A dealing in which no description of the participant is heard. -/
theorem limits_of_dealing {heard : String → Envelope → Prop}
    (hheard : ∀ e, heard r e → e.sdp = none) {t : Step} (h : Dealing s heard c t)
    (hc : c.Plays r ts) : Limits r ts t := by
  cases h with
  | note _ _ => exact .aside (hc.congr rfl) rfl rfl
  | say _ => exact .send hc _
  | refuse _ _ => exact .aside (hc.congr rfl) rfl rfl
  | @make r' p _ _ =>
      let k : Link := ({ remote := r', serial := c.serial + 1, peer := p } : Link).attach
        (c.held.getD {})
      exact .aside (hc.insert (k := k) rfl (fun _ => List.nil_subset _) rfl) rfl rfl
  | @offerFails r' l _ hl _ => exact .putReported hc hl .rfl fun _ => Peer.tracksIn_offer l.peer
  | @offer r' l d hl _ =>
      have hput : Limits r ts (c.putReported r' l.negotiate (Connection.offer l.peer)) :=
        .putReported hc hl .negotiate fun _ => Peer.tracksIn_offer l.peer
      exact hput.andThen (f := fun c => (c, [_])) fun hc' => .send hc' _
  | @apply r' l k e d he hd hl hk _ =>
      refine limits_applyDescription hc hl hk fun hr => ?_
      subst hr
      rw [hheard e he] at hd
      cases hd
  | @candidate r' l e x _ _ _ hl =>
      exact .putReported hc hl .rfl fun _ => Peer.tracksIn_addCandidate l.peer x
  | @clear r' l hl =>
      have hput : (c.put r' l.clearMedia.1).Plays r ts :=
        hc.put (hc.named r' l hl) fun _ => List.nil_subset _
      split
      · exact .tell hput
      · exact .nothing hput

theorem limits_of_deals {heard : String → Envelope → Prop}
    (hheard : ∀ e, heard r e → e.sdp = none) {t : Step} (h : Deals s heard c t)
    (hc : c.Plays r ts) : Limits r ts t :=
  of_deals (R := fun c t => c.Plays r ts → Limits r ts t) h
    (fun _ => .nothing) (fun h hf hc => (h hc).andThen hf) (limits_of_dealing hheard) hc

/-! ## Descriptions that are not applied -/

/-- The connection to which a call applies a description that it hears from a participant, if it
does not pass over it. -/
def addressed (s : Setting) (r : String) (d : Description) (c : Call) : Option Peer :=
  if d.isOffer then
    (c.ensure s r).1.bind fun l =>
      if Connection.signaling l.peer = .haveLocalOffer ∧ yieldsTo s r = false then none
      else some l.peer
  else
    (c.links.find? r).bind fun l =>
      if Connection.signaling l.peer ≠ .haveLocalOffer then none else some l.peer

/-- Whether a call applies a description of a participant in a step. -/
def applies (s : Setting) (r : String) (c : Call) (i : Input) : Bool :=
  match hearing s r i with
  | none => false
  | some d =>
    !c.ended && (c.addressed s r d).any fun p => (Connection.apply p d).result.isOk

theorem limits_receiveDescription (hc : c.Plays r ts) {d : Description}
    (h : ∀ p, c.addressed s r d = some p → tracksIn (Connection.apply p d).events = []) :
    Limits r ts (c.receiveDescription s r d) := by
  unfold receiveDescription
  unfold addressed at h
  split
  · rename_i hd
    rw [if_pos hd] at h
    have hdeals : Deals s (fun _ _ => False) c (c.ensure s r).2 := deals_ensure r c
    have hensure : Limits r ts (c.ensure s r).2 := limits_of_deals nofun hdeals hc
    unfold receiveOffer
    split
    · rename_i he
      rwa [he] at hensure
    · rename_i l c' effects he
      have hl := find?_ensure he
      rw [he] at hensure h
      dsimp only
      split
      · exact hensure
      · rename_i hcross
        have happly : tracksIn (Connection.apply l.peer d).events = [] := h l.peer (if_neg hcross)
        refine hensure.andThen fun hc' => limits_applyDescription hc' hl ?_ fun _ => ?_
        · split
          · exact Link.Follows.negotiate.trans .forget
          · exact .negotiate
        · rw [Link.negotiate_peer]
          split <;> exact happly
  · rename_i hd
    rw [if_neg hd] at h
    unfold receiveAnswer
    split
    · exact .nothing hc
    · rename_i l hl
      split
      · exact .nothing hc
      · rename_i hout
        refine limits_applyDescription hc hl .rfl fun _ => h l.peer ?_
        rw [hl]
        exact if_neg hout

/-- What is heard from a participant and is not applied. -/
theorem tracksIn_of_not_applies {i : Input} (h : c.applies s r i = false) (hended : ¬ c.ended)
    {d : Description} (hd : hearing s r i = some d) {p : Peer} (hp : c.addressed s r d = some p) :
    tracksIn (Connection.apply p d).events = [] := by
  cases hresult : (Connection.apply p d).result with
  | error e => exact Peer.tracksIn_apply_of_error hresult
  | ok a => simp [applies, hd, hended, hp, hresult, Except.isOk, Except.toBool] at h

/-! ## Steps -/

theorem utters_of_hearing {i : Input} {d : Description} (h : hearing s r i = some d) :
    ∃ e envelope, i = .session e ∧ Utters s e r envelope ∧ envelope.sdp = some d := by
  cases i with
  | session e =>
      cases e with
      | message m =>
          obtain ⟨hsender, hheard⟩ := Option.ite_none_right_eq_some.mp h
          obtain ⟨hconcerns, hheard⟩ := Option.ite_none_right_eq_some.mp hheard
          split at hheard
          · rename_i envelope hevent
            exact ⟨_, envelope, rfl, ⟨m, rfl, hsender, hconcerns, hevent⟩, hheard⟩
          · cases hheard
      | _ => cases h
  | _ => cases h

theorem onSession_of_utters {e : SessionEvent} {envelope : Envelope} {d : Description}
    (h : Utters s e r envelope) (hd : envelope.sdp = some d) (hended : ¬ c.ended) :
    c.onSession s e = c.receiveDescription s r d := by
  obtain ⟨m, rfl, rfl, hconcerns, hevent⟩ := h
  simp [onSession, onMessage, hended, hconcerns, hevent, hd]

theorem limits_onSession (hc : c.Plays r ts) {e : SessionEvent}
    (h : c.applies s r (.session e) = false) : Limits r ts (c.onSession s e) := by
  cases hd : hearing s r (.session e) with
  | none =>
      refine limits_of_deals (fun envelope hutters => ?_) (deals_onSession s e c) hc
      obtain ⟨m, rfl, hsender, hconcerns, hevent⟩ := hutters
      simpa [hearing, heard, hsender, hconcerns, hevent] using hd
  | some d =>
      by_cases hended : c.ended
      · have hstep : c.onSession s e = (c, []) := if_pos hended
        rw [hstep]
        exact .nothing hc
      · obtain ⟨_, envelope, heq, hutters, hsdp⟩ := utters_of_hearing hd
        cases heq
        rw [onSession_of_utters hutters hsdp hended]
        exact limits_receiveDescription hc fun p => tracksIn_of_not_applies h hended hd

/-- The only tracks that a link comes to receive are those that are reported on it. -/
theorem limits_onSignal (hc : c.Plays r ts) {x : PeerSignal}
    (h : x.remote = r → ∀ l, c.links.find? r = some l → l.serial = x.serial →
      tracksIn [x.event] ⊆ ts) : Limits r ts (c.onSignal x) := by
  unfold onSignal
  split
  · exact .nothing hc
  · split
    · exact .nothing hc
    · rename_i l hl
      have hremote := hc.named _ l hl
      split
      · exact .nothing hc
      · rename_i hserial
        have hserial : l.serial = x.serial := by simpa using hserial
        split
        · rename_i candidate _
          have hgather : (l.gather candidate).1.Follows l := .gather candidate
          have hput : (c.put x.remote (l.gather candidate).1).Plays r ts := by
            refine hc.put (hgather.remote.trans hremote) fun hr => ?_
            rw [hgather.media]
            exact hc.media l (hr ▸ hl)
          exact .sendCandidates hput x.remote _
        · rename_i t ht
          refine .tell (hc.put hremote fun hr => ?_)
          have hnew : t ∈ ts := by
            have hsubset := h hr l (hr ▸ hl) hserial
            rw [ht] at hsubset
            exact hsubset List.mem_cons_self
          change t.addTo l.media.tracks ⊆ ts
          unfold Track.addTo
          split
          · exact hc.media l (hr ▸ hl)
          · exact List.append_subset.mpr ⟨hc.media l (hr ▸ hl), by simpa using hnew⟩
        · split
          · have hrest : (c.remove x.remote).1.Plays r ts :=
              hc.follow fun r' k hk => ⟨k, (find?_of_remove hk).2, .rfl⟩
            rw [remove, hl] at hrest ⊢
            exact .tell hrest
          · exact .nothing hc

theorem limits_of_mediaOp (hc : c.Plays r ts) {t : Step} (h : MediaOp c t) : Limits r ts t := by
  cases h with
  | control control => exact .setControl hc control
  | epoch => exact .nothing (hc.congr rfl)
  | attach stream =>
      exact .nothing (hc.map (f := fun l => l.attach stream) (fun _ => ⟨rfl, rfl, rfl⟩) rfl)
  | detach stream =>
      refine .releaseAll ?_ stream
      exact hc.map (f := fun l => l.detach stream) (fun _ => ⟨rfl, rfl, rfl⟩) rfl
  | release stream => exact .releaseAll hc stream
  | say e => exact .send hc e
  | acquire _ _ => exact .aside hc rfl rfl
  | notice _ => exact .aside hc rfl rfl

theorem limits_of_builds (hc : c.Plays r ts) {t : Step}
    (h : Builds (Deals s fun _ _ => False) c t) : Limits r ts t :=
  of_builds (R := fun c t => c.Plays r ts → Limits r ts t) h
    (fun h hc => limits_of_deals nofun h hc) (fun h hc => limits_of_mediaOp hc h)
    (fun h hf hc => (h hc).andThen hf) hc

theorem limits_teardown (hc : c.Plays r ts) : Limits r ts c.teardown := by
  unfold teardown
  split
  · exact .nothing hc
  · refine (Limits.releaseAll ?_ (c.held.getD {})).andThen fun hc' => ?_
    · exact hc.follow fun r' k hk => absurd hk (by simp)
    · exact (Limits.setControl hc' .start).andThen fun hc'' => .tell hc''

/-- In a step in which no description of the participant is applied its connection reports no
tracks, and its link receives none but the one that is reported to the call. -/
theorem limits_step (hc : c.Plays r ts) {i : Input} (happlies : c.applies s r i = false)
    (hsignal : ∀ x, i = .signal x → x.remote = r → ∀ l, c.links.find? r = some l →
      l.serial = x.serial → tracksIn [x.event] ⊆ ts) : Limits r ts (c.step s i) := by
  cases i with
  | session e => exact limits_onSession hc happlies
  | start video => exact limits_of_builds (s := s) hc (builds_startMedia video c)
  | leave => exact limits_of_builds (s := s) hc (builds_leave c)
  | teardown => exact limits_teardown hc
  | signal x => exact limits_onSignal hc (hsignal x rfl)
  | media epoch result =>
      exact limits_of_builds hc (builds_onMedia (deals_offerAll s) epoch result c)

/-! ## Stops -/

/-- A participant that stops sending leaves its link without remote tracks, and only the streams of
others are told of. -/
theorem onSession_stop {κ : Type} [Connection κ] {s : Setting κ} (c : Call κ) {m : Message}
    {target : Option String} (hm : concerns s m = true) (hstop : m.event = .stopStream target)
    (hended : c.ended → c.links = .empty) :
    mediaTold m.sender (c.onSession s (.message m)).2 = [] ∧
      Agent.reports (c.onSession s (.message m)).2 = [] ∧
      (c.onSession s (.message m)).1.links.find? m.sender =
        (c.links.find? m.sender).map fun l => l.clearMedia.1 := by
  by_cases hend : c.ended
  · have hstep : c.onSession s (.message m) = (c, []) := if_pos hend
    rw [hstep, hended hend]
    exact ⟨rfl, rfl, rfl⟩
  · have hstep : c.onSession s (.message m) = c.onMessage s m := if_neg hend
    rw [hstep]
    unfold onMessage
    rw [if_neg (by simp [hm]), hstop]
    cases hl : c.links.find? m.sender with
    | none => exact ⟨rfl, rfl, hl⟩
    | some l =>
        dsimp only
        refine ⟨List.eq_nil_iff_forall_not_mem.mpr fun stream hstream => ?_, ?_, find?_put_self ..⟩
        · split at hstream
          · obtain ⟨hfull, k, hk, rfl⟩ := mem_mediaTold_tellStreams hstream
            obtain rfl := Option.some.inj ((find?_put_self ..).symm.trans hk)
            cases hfull
          · cases hstream
        · split <;> rfl

end Call

end Parley
