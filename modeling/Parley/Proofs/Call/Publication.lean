import Parley.Proofs.Call.ConnectionInvariants
import Parley.Proofs.Sdp

/-!
# What a call publishes

A connection lists in the offers and answers it makes the tracks that it has, and no operation on
descriptions or candidates changes these. A call gives its connections the tracks of the stream it
holds: all of them to a new one, and the same to every one when a stream is taken up or taken back.
So in a call in which they agree (`Call.Publishes`) they agree after every step, and the
descriptions that the step sends list just these tracks (`Call.Discloses`).
-/

namespace Parley

/-- A description by the engine `label` that lists these tracks. -/
inductive Description.Lists (label : String) (ts : List Track) : Description → Prop where
  | offer : Lists label ts ⟨.offer, Sdp.text label "offer" ts⟩
  | answer : Lists label ts ⟨.answer, Sdp.text label "answer" ts⟩

/-- The tracks that a reader takes from it are the ones it lists. -/
theorem Description.Lists.tracks {label : String} {ts : List Track} {d : Description}
    (h : d.Lists label ts) (hlabel : Sdp.Plain label) (hts : ∀ t ∈ ts, Sdp.Plain t.id) :
    Sdp.tracks d.sdp = ts := by
  cases h with
  | offer => exact Sdp.tracks_text hlabel.1 (by decide) hts
  | answer => exact Sdp.tracks_text hlabel.1 (by decide) hts

/-! ## Connections -/

namespace Reply

variable {κ α β : Type} {o : Reply κ α}

theorem of_andThen_ok {f : α → κ → Reply κ β} {b : β} (h : (o.andThen f).result = .ok b) :
    ∃ a, o.result = .ok a ∧ (f a o.after).result = .ok b := by
  unfold andThen at h
  split at h
  · cases h
  · rename_i a ha
    exact ⟨a, ha, h⟩

theorem of_map_ok {g : α → β} {b : β} (h : (o.map g).result = .ok b) :
    ∃ a, o.result = .ok a ∧ g a = b := by
  cases ha : o.result with
  | error e =>
      rw [map, ha] at h
      cases h
  | ok a =>
      rw [map, ha] at h
      exact ⟨a, rfl, Except.ok.inj h⟩

end Reply

namespace Peer

/-- A connection of the engine `label` with these tracks. -/
def Publishes (label : String) (ts : List Track) (p : Peer) : Prop :=
  p.label = label ∧ p.tracks = ts

namespace Publishes

variable {label : String} {ts : List Track} {p : Peer}

theorem setLocal (d : Description) (h : p.Publishes label ts) :
    (Connection.setLocal p d).after.Publishes label ts := by
  rw [connection_setLocal, Peer.setLocal]
  split <;> exact h

theorem clearLocal (h : p.Publishes label ts) :
    (Connection.clearLocal p).after.Publishes label ts := by
  rw [connection_clearLocal, Peer.clearLocal]
  split <;> exact h

theorem rollback (h : p.Publishes label ts) :
    (Connection.rollback p).after.Publishes label ts := by
  rw [connection_rollback, Peer.rollback]
  split <;> exact h

theorem setRemote (d : Description) (h : p.Publishes label ts) :
    (Connection.setRemote p d).after.Publishes label ts := by
  rw [connection_setRemote, Peer.setRemote]
  split <;> exact h

theorem addCandidate (c : Candidate) (h : p.Publishes label ts) :
    (Connection.addCandidate p c).after.Publishes label ts := by
  rw [connection_addCandidate, Peer.addCandidate]
  split
  · exact h
  · split
    · exact h
    · dsimp only
      split <;> exact h

theorem makeRoom (h : p.Publishes label ts) :
    (Connection.makeRoom p).after.Publishes label ts :=
  Connection.after_makeRoom (fun _ => clearLocal) (fun _ => rollback) h

/-- A connection offers its tracks. -/
theorem offer (h : p.Publishes label ts) :
    (Connection.offer p).after.Publishes label ts ∧
      ∀ d, (Connection.offer p).result = .ok d → d.Lists label ts := by
  obtain ⟨rfl, rfl⟩ := h
  refine ⟨Connection.after_andThen ⟨rfl, rfl⟩ fun d => setLocal d ⟨rfl, rfl⟩, fun d hd => ?_⟩
  obtain ⟨o, ho, hd⟩ := Reply.of_andThen_ok hd
  obtain ⟨-, -, rfl⟩ := Reply.of_map_ok hd
  rw [connection_createOffer, createOffer] at ho
  split at ho
  · obtain rfl := Except.ok.inj ho
    exact .offer
  · cases ho

/-- An offer that is taken is answered with the tracks of the connection. -/
theorem apply (d : Description) (h : p.Publishes label ts) :
    (Connection.apply p d).after.Publishes label ts ∧
      ∀ a, (Connection.apply p d).result = .ok (some a) → a.Lists label ts := by
  refine ⟨Connection.after_apply (fun _ => id) (fun _ d => setLocal d) (fun _ => clearLocal)
    (fun _ => rollback) (fun _ d => setRemote d) d h, fun a ha => ?_⟩
  unfold Connection.apply at ha
  split at ha
  · obtain ⟨a', ha', heq⟩ := Reply.of_map_ok ha
    obtain rfl := Option.some.inj heq
    obtain ⟨-, -, ha'⟩ := Reply.of_andThen_ok ha'
    obtain ⟨-, -, ha'⟩ := Reply.of_andThen_ok ha'
    obtain ⟨o, ho, ha'⟩ := Reply.of_andThen_ok ha'
    obtain ⟨-, -, rfl⟩ := Reply.of_map_ok ha'
    obtain ⟨rfl, rfl⟩ := h.makeRoom.setRemote d
    rw [connection_createAnswer, createAnswer] at ho
    split at ho
    · cases ho
    · obtain rfl := Except.ok.inj ho
      exact .answer
    · cases ho
  · obtain ⟨-, -, heq⟩ := Reply.of_map_ok ha
    cases heq

theorem setIce (s : IceState) (h : p.Publishes label ts) :
    (Connection.network p s).1.Publishes label ts := h

end Publishes

/-! ## Tracks of a connection -/

theorem addTracks_eq (p : Peer) (ts : List Track) :
    ts.foldl Connection.addTrack p = { p with tracks := ts.foldl (fun l t => t.addTo l) p.tracks } := by
  induction ts generalizing p with
  | nil => rfl
  | cons t rest ih => exact ih (p.addTrack t)

theorem removeTracks_eq (p : Peer) (ts : List Track) :
    ts.foldl Connection.removeTrack p =
      { p with tracks := ts.foldl (fun l t => t.removeFrom l) p.tracks } := by
  induction ts generalizing p with
  | nil => rfl
  | cons t rest ih => exact ih (p.removeTrack t)

end Peer

namespace Track

/-- Tracks of different ids are all added, in their order. -/
theorem foldl_addTo {ts done : List Track} (h : ((done ++ ts).map (·.id)).Nodup) :
    ts.foldl (fun l t => t.addTo l) done = done ++ ts := by
  induction ts generalizing done with
  | nil => exact (List.append_nil done).symm
  | cons t rest ih =>
      have hnew : ¬ done.any (·.id = t.id) := by
        rw [List.map_append, List.map_cons] at h
        have hnot := (List.nodup_append.mp h).2.2
        intro hany
        obtain ⟨u, hu, hid⟩ := List.any_eq_true.mp hany
        exact hnot _ (List.mem_map_of_mem hu) _ List.mem_cons_self (of_decide_eq_true hid)
      have hassoc : done ++ [t] ++ rest = done ++ t :: rest := by simp
      rw [List.foldl_cons, addTo, if_neg hnew, ih (hassoc ▸ h), hassoc]

theorem mem_foldl_removeFrom {ts l : List Track} {t : Track}
    (h : t ∈ ts.foldl (fun l t => t.removeFrom l) l) : t ∈ l ∧ ∀ u ∈ ts, t.id ≠ u.id := by
  induction ts generalizing l with
  | nil => exact ⟨h, nofun⟩
  | cons u rest ih =>
      obtain ⟨hmem, hrest⟩ := ih h
      obtain ⟨hl, hu⟩ := List.mem_filter.mp hmem
      exact ⟨hl, List.forall_mem_cons.mpr ⟨of_decide_eq_true hu, hrest⟩⟩

theorem foldl_removeFrom_self (ts : List Track) : ts.foldl (fun l t => t.removeFrom l) ts = [] :=
  List.eq_nil_iff_forall_not_mem.mpr fun t ht =>
    let ⟨hmem, hne⟩ := mem_foldl_removeFrom ht
    hne t hmem rfl

end Track

namespace MediaStream.OpenedBy

variable {label : String} {stream : MediaStream} {p : Peer}

/-- A connection without tracks takes up those of a stream. -/
theorem attach (h : stream.OpenedBy label) (hp : p.Publishes label []) :
    (stream.tracks.foldl Connection.addTrack p).Publishes label stream.tracks := by
  obtain ⟨hlabel, htracks⟩ := hp
  have hadded : stream.tracks.foldl (fun l t => t.addTo l) [] = stream.tracks :=
    Track.foldl_addTo h.nodup
  rw [Peer.addTracks_eq, htracks, hadded]
  exact ⟨hlabel, rfl⟩

end MediaStream.OpenedBy

/-- A link whose connection has the tracks of a stream is left without tracks, and stays as it is
otherwise. -/
theorem Link.detach_eq {l : Link} {stream : MediaStream} (h : l.peer.tracks = stream.tracks) :
    l.detach stream = { l with peer := { l.peer with tracks := [] } } := by
  rw [Link.detach, Peer.removeTracks_eq, h, Track.foldl_removeFrom_self]

/-! ## Calls -/

/-- Connections are made by the engine `label`. -/
def Setting.Loopback (label : String) (s : Setting) : Prop :=
  ∀ remote p, s.connect remote = some p → p = { label }

namespace Call

/-- The tracks of the stream this client publishes. -/
def published (c : Call) : List Track := (c.held.getD {}).tracks

/-- Every link has the published tracks, and what is published came from the devices. -/
structure Publishes (label : String) (c : Call) : Prop where
  links : ∀ r l, c.links.find? r = some l → l.peer.Publishes label c.published
  opened : ∀ stream, c.held = some stream → stream.OpenedBy label

/-- The offers and answers among effects. -/
def descriptions (effects : List CallEffect) : List Description :=
  effects.filterMap fun
    | .send (.signal e) => e.sdp
    | _ => none

theorem descriptions_append (xs ys : List CallEffect) :
    descriptions (xs ++ ys) = descriptions xs ++ descriptions ys := List.filterMap_append

@[simp] theorem descriptions_reports (l : Link) (events : List PeerEvent) :
    descriptions (events.map fun e => .report (l.tag e)) = [] := by
  simp [descriptions]

@[simp] theorem descriptions_candidates (r : String) (xs : List Candidate) :
    descriptions (xs.map (sendCandidate r)) = [] := by
  simp [descriptions, sendCandidate, Envelope.ofCandidate]

@[simp] theorem descriptions_releaseAll (stream : MediaStream) :
    descriptions (releaseAll stream) = [] := by
  simp [descriptions, releaseAll]

@[simp] theorem descriptions_setControl (control : Control) (c : Call) :
    descriptions (c.setControl control).2 = [] := by
  unfold setControl
  split <;> rfl

/-- A step that keeps the published stream, after which the links have its tracks, and which sends
descriptions that list them. -/
structure Discloses (label : String) (c : Call) (t : Step) : Prop where
  held : t.1.held = c.held
  publishes : t.1.Publishes label
  lists : ∀ d ∈ descriptions t.2, d.Lists label c.published

namespace Discloses

variable {label : String} {c : Call} {t : Step}

theorem andThen {f : Call → Step} (h : Discloses label c t)
    (hf : t.1.Publishes label → Discloses label t.1 (f t.1)) :
    Discloses label c (t.andThen f) := by
  obtain ⟨hheld, hpublishes, hlists⟩ := hf h.publishes
  refine ⟨hheld.trans h.held, hpublishes, fun d hd => ?_⟩
  rw [Step.andThen_effects, descriptions_append] at hd
  rcases List.mem_append.mp hd with hd | hd
  · exact h.lists d hd
  · have hd := hlists d hd
    rwa [published, h.held] at hd

/-- A step that leaves the links and the published stream alone and sends no descriptions. -/
theorem aside (hc : c.Publishes label) {c' : Call} {effects : List CallEffect}
    (hheld : c'.held = c.held) (hlinks : c'.links = c.links)
    (hsends : descriptions effects = []) : Discloses label c (c', effects) := by
  refine ⟨hheld, ⟨fun r l hl => ?_, fun stream hs => ?_⟩, fun d hd => ?_⟩
  · rw [published, hheld]
    exact hc.links r l (hlinks ▸ hl)
  · exact hc.opened stream (hheld ▸ hs)
  · rw [hsends] at hd
    cases hd

theorem nothing (hc : c.Publishes label) : Discloses label c (c, []) := aside hc rfl rfl rfl

theorem put (hc : c.Publishes label) {r : String} {k : Link} {effects : List CallEffect}
    (hk : k.peer.Publishes label c.published) (hsends : descriptions effects = []) :
    Discloses label c (c.put r k, effects) := by
  refine ⟨rfl, ⟨fun r' l hl => ?_, hc.opened⟩, fun d hd => ?_⟩
  · by_cases hr : r' = r
    · subst hr
      rw [find?_put_self] at hl
      obtain rfl := Option.some.inj hl
      exact hk
    · rw [find?_put_of_ne hr] at hl
      exact hc.links r' l hl
  · rw [hsends] at hd
    cases hd

theorem describe (hc : c.Publishes label) (r : String) {d : Description}
    (hd : d.Lists label c.published) : Discloses label c (c, [sendDescription r d]) := by
  refine ⟨rfl, hc, fun d' hd' => ?_⟩
  rw [List.mem_singleton.mp hd']
  exact hd

theorem setControl (hc : c.Publishes label) (control : Control) :
    Discloses label c (c.setControl control) := by
  refine aside hc ?_ (setControl_links control c) (descriptions_setControl control c)
  exact congrArg Booth.held (setControl_booth control c)

end Discloses

variable {label : String} {s : Setting} {c : Call}

/-! ## Dealings -/

/-- A new link is made with the published tracks. -/
theorem discloses_make (hs : s.Loopback label) (hc : c.Publishes label) {r : String} {p : Peer}
    (hp : s.connect r = some p) :
    Discloses label c
      ({ c with
        serial := c.serial + 1
        links := c.links.insert r
          (({ remote := r, serial := c.serial + 1, peer := p } : Link).attach (c.held.getD {})) },
        [.opened r (c.serial + 1)]) := by
  obtain rfl := hs r p hp
  have hnew : ((c.held.getD {}).tracks.foldl Connection.addTrack ({ label } : Peer)).Publishes
      label c.published := by
    cases hheld : c.held with
    | none =>
        rw [published, hheld]
        exact ⟨rfl, rfl⟩
    | some stream =>
        rw [published, hheld]
        exact (hc.opened stream hheld).attach ⟨rfl, rfl⟩
  let numbered : Call := { c with serial := c.serial + 1 }
  have hnumbered : numbered.Publishes label := ⟨hc.links, hc.opened⟩
  have hput : Discloses label numbered (numbered.put r
      { remote := r, serial := c.serial + 1,
        peer := (c.held.getD {}).tracks.foldl Connection.addTrack { label } },
      [.opened r (c.serial + 1)]) := .put hnumbered hnew rfl
  exact ⟨hput.held, hput.publishes, hput.lists⟩

theorem discloses_applyDescription (hc : c.Publishes label) {r : String} {k : Link}
    (hk : k.peer.Publishes label c.published) (d : Description) :
    Discloses label c (c.applyDescription r k d) := by
  obtain ⟨hafter, hlists⟩ := hk.apply d
  have hput : Discloses label c (c.putReported r k (Connection.apply k.peer d)) :=
    .put hc hafter (descriptions_reports k _)
  unfold applyDescription
  refine hput.andThen fun hc' => ?_
  split
  · exact .nothing hc'
  · rename_i answer hanswer
    have hflush : ∀ c'' : Call, c''.Publishes label → c''.held = c.held →
        Discloses label c''
          (c''.putReady r { k with peer := (Connection.apply k.peer d).after }.flush) := by
      intro c'' hc'' hheld
      refine .put hc'' ?_ (descriptions_candidates r _)
      rw [Link.flush_peer, published, hheld]
      exact hafter
    cases answer with
    | none => exact (Discloses.nothing hc').andThen fun hc'' => hflush _ hc'' rfl
    | some a =>
        have ha : a.Lists label (c.putReported r k (Connection.apply k.peer d)).1.published :=
          hlists a hanswer
        exact (Discloses.describe hc' r ha).andThen fun hc'' => hflush _ hc'' rfl

theorem discloses_of_dealing {heard : String → Envelope → Prop} {t : Step} (hs : s.Loopback label)
    (h : Dealing s heard c t) (hc : c.Publishes label) : Discloses label c t := by
  cases h with
  | note _ _ => exact .aside hc rfl rfl rfl
  | @say e he =>
      refine .aside hc rfl rfl ?_
      cases e with
      | signal envelope => exact absurd rfl (he envelope)
      | _ => rfl
  | refuse _ _ => exact .aside hc rfl rfl rfl
  | make _ hp => exact discloses_make hs hc hp
  | @offerFails r l _ hl _ =>
      exact .put hc (hc.links r l hl).offer.1 (descriptions_reports l _)
  | @offer r l d hl ho =>
      obtain ⟨hafter, hlists⟩ := (hc.links r l hl).offer
      have hput : Discloses label c (c.putReported r l.negotiate (Connection.offer l.peer)) :=
        .put hc hafter (descriptions_reports l.negotiate _)
      exact hput.andThen fun hc' => .describe hc' r (hlists d ho)
  | @apply r l k e d _ _ hl _ hpeer =>
      exact discloses_applyDescription hc (hpeer ▸ hc.links r l hl) d
  | @candidate r l e x _ _ _ hl =>
      exact .put hc ((hc.links r l hl).addCandidate x) (descriptions_reports l _)
  | @clear r l hl => exact .put hc (hc.links r l hl) (by split <;> rfl)

theorem discloses_of_deals {heard : String → Envelope → Prop} {t : Step} (hs : s.Loopback label)
    (h : Deals s heard c t) (hc : c.Publishes label) : Discloses label c t :=
  of_deals (R := fun c t => c.Publishes label → Discloses label c t) h
    (fun _ => .nothing) (fun h hf hc => (h hc).andThen hf) (discloses_of_dealing hs) hc

/-! ## What the connections report -/

theorem Publishes.of_sublist {c' : Call} (hc : c.Publishes label) (hheld : c'.held = c.held)
    (hlinks : ∀ r l, c'.links.find? r = some l → c.links.find? r = some l) :
    c'.Publishes label := by
  refine ⟨fun r l hl => ?_, fun stream hs => hc.opened stream (hheld ▸ hs)⟩
  rw [published, hheld]
  exact hc.links r l (hlinks r l hl)

theorem discloses_onSignal (hc : c.Publishes label) (signal : PeerSignal) :
    Discloses label c (c.onSignal signal) := by
  unfold onSignal
  split
  · exact .nothing hc
  · split
    · exact .nothing hc
    · rename_i l hl
      split
      · exact .nothing hc
      · split
        · refine .put hc ?_ (descriptions_candidates _ _)
          rw [Link.gather_peer]
          exact hc.links _ l hl
        · exact .put hc (hc.links _ l hl) rfl
        · split
          · have hheld : (c.remove signal.remote).1.held = c.held := by
              unfold remove
              split <;> rfl
            refine ⟨hheld, hc.of_sublist hheld fun r k hk => (find?_of_remove hk).2, fun d hd => ?_⟩
            rw [remove, hl] at hd
            cases hd
          · exact .nothing hc

/-! ## Local media -/

theorem discloses_startMedia (hc : c.Publishes label) (video : Bool) :
    Discloses label c (c.startMedia video) := by
  unfold startMedia
  split
  · exact .nothing hc
  · exact (Discloses.setControl hc .pending).andThen (f := fun c => (c, [_]))
      fun hc' => .aside hc' rfl rfl rfl

/-- Links without tracks take up those of a stream, and the offers that follow list them. -/
theorem discloses_publish (hs : s.Loopback label) (hc : c.Publishes label) (hheld : c.held = none)
    {stream : MediaStream} (hstream : stream.OpenedBy label) :
    Discloses label
      { c with links := c.links.map fun _ l => l.attach stream, held := some stream }
      (c.publish s stream) := by
  have hattached : ({ c with
      links := c.links.map fun _ l => l.attach stream, held := some stream } : Call).Publishes
        label := by
    refine ⟨fun r l hl => ?_, fun stream' hs' => ?_⟩
    · change (c.links.map fun _ l => l.attach stream).find? r = some l at hl
      rw [Table.find?_map] at hl
      obtain ⟨k, hk, rfl⟩ := Option.map_eq_some_iff.mp hl
      have hbare := hc.links r k hk
      rw [published, hheld] at hbare
      exact hstream.attach hbare
    · obtain rfl := Option.some.inj hs'
      exact hstream
  refine (discloses_of_deals hs (deals_offerAll s _ _) hattached).andThen
    (f := fun c => Step.andThen (c, [.send (.streamInquiry none)]) (setControl .stop))
    fun hc' => ?_
  have hinquiry : ∀ c' : Call, c'.Publishes label →
      Discloses label c' (c', [.send (.streamInquiry none)]) := fun _ hc' => .aside hc' rfl rfl rfl
  exact (hinquiry _ hc').andThen fun hc'' => .setControl hc'' .stop

end Call

end Parley
