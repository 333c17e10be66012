import Parley.Proofs.Call.CandidateFlow
import Parley.Proofs.Call.Confinement
import Parley.Proofs.Call.Inputs
import Parley.Proofs.Call.LinkOperations
import Parley.Proofs.Call.MediaOperations

/-!
# Properties that a connection keeps

Apart from handing it a candidate of the participant, there are few things that a call does to a
connection: it gives it tracks and takes them away, has it offer and applies descriptions. What of a
connection is proof against these (`Connection.Lasts`) is so against every step in which no
candidate is handed over and the link is not given up (`Call.Upholds`).
-/

namespace Parley

namespace Connection

variable {κ : Type} [Connection κ]

/-- A property of connections that tracks, offers and descriptions leave alone. -/
structure Lasts (P : κ → Prop) : Prop where
  addTrack : ∀ p t, P p → P (addTrack p t)
  removeTrack : ∀ p t, P p → P (removeTrack p t)
  offer : ∀ p, P p → P (offer p).after
  apply : ∀ p d, P p → P (apply p d).after

variable {P : κ → Prop}

theorem Lasts.addTracks (hP : Lasts P) (tracks : List Track) {p : κ} (h : P p) :
    P (tracks.foldl Connection.addTrack p) := by
  induction tracks generalizing p with
  | nil => exact h
  | cons t rest ih => exact ih (hP.addTrack p t h)

theorem Lasts.removeTracks (hP : Lasts P) (tracks : List Track) {p : κ} (h : P p) :
    P (tracks.foldl Connection.removeTrack p) := by
  induction tracks generalizing p with
  | nil => exact h
  | cons t rest ih => exact ih (hP.removeTrack p t h)

omit [Connection κ] in
theorem after_andThen {α β : Type} {o : Reply κ α} {f : α → κ → Reply κ β} (h : P o.after)
    (hf : ∀ a, P (f a o.after).after) : P (o.andThen f).after := by
  unfold Reply.andThen
  split
  · exact h
  · exact hf _

theorem after_makeRoom {p : κ} (hclear : ∀ p, P p → P (clearLocal p).after)
    (hrollback : ∀ p, P p → P (rollback p).after) (h : P p) : P (makeRoom p).after := by
  unfold makeRoom
  split
  · exact hrollback p h
  · split
    · exact hclear p h
    · exact h
  · exact h

theorem after_apply {p : κ} (hcreateAnswer : ∀ p, P p → P (createAnswer p).after)
    (hsetLocal : ∀ p d, P p → P (setLocal p d).after) (hclear : ∀ p, P p → P (clearLocal p).after)
    (hrollback : ∀ p, P p → P (rollback p).after)
    (hsetRemote : ∀ p d, P p → P (setRemote p d).after) (d : Description) (h : P p) :
    P (apply p d).after := by
  have hroom : P (makeRoom p).after := after_makeRoom hclear hrollback h
  have hremote := hsetRemote (makeRoom p).after d hroom
  have hanswer : P (answer p d).after :=
    after_andThen hroom fun _ => after_andThen hremote fun _ =>
      after_andThen (hcreateAnswer _ hremote) fun a => hsetLocal _ a (hcreateAnswer _ hremote)
  unfold Connection.apply
  split
  · exact hanswer
  · exact hsetRemote p d h

/-- It is enough that each single operation leaves the property alone. -/
theorem Lasts.of_operations (haddTrack : ∀ p t, P p → P (Connection.addTrack p t))
    (hremoveTrack : ∀ p t, P p → P (Connection.removeTrack p t))
    (hcreateOffer : ∀ p, P p → P (createOffer p).after)
    (hcreateAnswer : ∀ p, P p → P (createAnswer p).after)
    (hsetLocal : ∀ p d, P p → P (setLocal p d).after) (hclear : ∀ p, P p → P (clearLocal p).after)
    (hrollback : ∀ p, P p → P (rollback p).after)
    (hsetRemote : ∀ p d, P p → P (setRemote p d).after) : Lasts P where
  addTrack := haddTrack
  removeTrack := hremoveTrack
  offer p h := after_andThen (hcreateOffer p h) fun d => hsetLocal _ d (hcreateOffer p h)
  apply _ d h := after_apply hcreateAnswer hsetLocal hclear hrollback hsetRemote d h

end Connection

namespace Peer

/-- Neither the candidates that a connection was given nor the state of its path change. -/
theorem lasts_applied (cs : List Candidate) :
    Connection.Lasts fun p : Peer => p.applied = cs ∧ p.ice.isDead = false := by
  refine .of_operations (fun _ _ => id) (fun _ _ => id) (fun _ => id) (fun _ => id) ?_ ?_ ?_ ?_
  · intro p d h
    rw [connection_setLocal, setLocal]
    split <;> exact h
  · intro p h
    rw [connection_clearLocal, clearLocal]
    split <;> exact h
  · intro p h
    rw [connection_rollback, rollback]
    split <;> exact h
  · intro p d h
    rw [connection_setRemote, setRemote]
    split <;> exact h

/-- A candidate is applied at once to an open connection with a remote description. -/
theorem applied_addCandidate {p : Peer} (c : Candidate) (hopen : p.signaling ≠ .closed)
    (hremote : p.currentRemote.isSome) (hlive : p.ice.isDead = false) :
    (Connection.addCandidate p c).after.applied = p.applied ++ [c] ∧
      (Connection.addCandidate p c).after.ice.isDead = false := by
  rw [connection_addCandidate, addCandidate, if_neg (by simpa [isOpen] using hopen),
    if_neg (by simp [Option.isSome_iff_ne_none.mp hremote])]
  dsimp only
  split
  · exact ⟨rfl, rfl⟩
  · exact ⟨rfl, hlive⟩

end Peer

namespace Link

variable {κ : Type} [Connection κ]

@[simp] theorem flush_peer (l : Link κ) : l.flush.1.peer = l.peer := by
  unfold flush; split <;> rfl

@[simp] theorem gather_peer (l : Link κ) (c : Candidate) : (l.gather c).1.peer = l.peer := by
  unfold gather; split
  · rfl
  · rw [flush_peer]

end Link

namespace Call

variable {κ : Type}

/-- The candidate of a participant that a call is handed in a step. -/
def handed (s : Setting κ) (r : String) : Input → Option Candidate
  | .session (.message m) =>
    if m.sender = r ∧ concerns s m then
      match m.event with
      | .signal e => if e.sdp.isNone then e.ice else none
      | _ => none
    else none
  | _ => none

/-- The connection to a participant, or else each one that can be made, has a property. -/
def Has (P : κ → Prop) (s : Setting κ) (r : String) (c : Call κ) : Prop :=
  ∀ l, Origin s r c l → P l.peer

/-- A step does not give the link to a participant up, and its connection keeps a property. -/
structure Upholds (P : κ → Prop) (s : Setting κ) (r : String) (c : Call κ) (t : Step κ) : Prop where
  stands : (c.links.find? r).isSome → (t.1.links.find? r).isSome
  keeps : c.Has P s r → t.1.Has P s r

variable {P : κ → Prop} {s : Setting κ} {r : String} {c : Call κ} {t : Step κ}

theorem Upholds.andThen {f : Call κ → Step κ} (h : Upholds P s r c t)
    (hf : Upholds P s r t.1 (f t.1)) : Upholds P s r c (t.andThen f) :=
  ⟨fun hsome => hf.stands (h.stands hsome), fun hhas => hf.keeps (h.keeps hhas)⟩

/-- Where no link stands after the step, none stood before. -/
theorem Upholds.absent (h : Upholds P s r c t) (hnone : t.1.links.find? r = none) :
    c.links.find? r = none := by
  refine Option.not_isSome_iff_eq_none.mp fun hsome => ?_
  have hstands := h.stands hsome
  rw [hnone] at hstands
  cases hstands

/-- A step that leaves the link alone. -/
theorem Upholds.of_find?_eq (h : t.1.links.find? r = c.links.find? r) : Upholds P s r c t := by
  refine ⟨fun hsome => h.symm ▸ hsome, fun hhas l hl => ?_⟩
  cases hl with
  | stands hl => exact hhas l (.stands (h ▸ hl))
  | @made n p hnone hp _ =>
      exact hhas ⟨r, c.serial + 1, .new, [], {}, p⟩
        (.made (h ▸ hnone) hp (Nat.lt_succ_self c.serial))

theorem Upholds.put {l k : Link κ} {effects : List CallEffect} (hl : c.links.find? r = some l)
    (hk : P l.peer → P k.peer) : Upholds P s r c (c.put r k, effects) := by
  refine ⟨fun _ => by rw [find?_put_self]; rfl, fun hhas l' hl' => ?_⟩
  cases hl' with
  | stands hl' =>
      rw [find?_put_self, Option.some.injEq] at hl'
      exact hl' ▸ hk (hhas l (.stands hl))
  | made hnone _ _ =>
      rw [find?_put_self] at hnone
      cases hnone

theorem Upholds.map {f : Link κ → Link κ} {c' : Call κ} {effects : List CallEffect}
    (hf : ∀ l : Link κ, P l.peer → P (f l).peer) (hlinks : c'.links = c.links.map fun _ l => f l) :
    Upholds P s r c (c', effects) := by
  have hfind : c'.links.find? r = (c.links.find? r).map f := by rw [hlinks, Table.find?_map]
  refine ⟨fun hsome => by rwa [hfind, Option.isSome_map], fun hhas l hl => ?_⟩
  cases hl with
  | stands hl =>
      obtain ⟨l, hl', rfl⟩ := Option.map_eq_some_iff.mp (hfind.symm.trans hl)
      exact hf l (hhas l (.stands hl'))
  | @made n p hnone hp _ =>
      have hnone := Option.map_eq_none_iff.mp (hfind.symm.trans hnone)
      exact hhas ⟨r, c.serial + 1, .new, [], {}, p⟩ (.made hnone hp (Nat.lt_succ_self c.serial))

theorem Upholds.updatePeer (hc : c.Proper) (remote : String) (serial : Nat) {f : κ → κ}
    {effects : List CallEffect} (hf : remote = r → ∀ p, P p → P (f p)) :
    Upholds P s r c (c.updatePeer remote serial f, effects) := by
  by_cases hr : remote = r
  · refine .map (f := fun l =>
      if l.remote = remote ∧ l.serial = serial then { l with peer := f l.peer } else l)
      (fun l hl => ?_) rfl
    split
    · exact hf hr l.peer hl
    · exact hl
  · refine .of_find?_eq ?_
    simp only [Call.updatePeer, Table.find?_map]
    cases hl : c.links.find? r with
    | none => rfl
    | some l =>
        have hremote : l.remote ≠ remote := fun heq => hr (heq ▸ hc.remote r l hl)
        exact congrArg some (if_neg fun h => hremote h.1)

variable [Connection κ] (hP : Connection.Lasts P)

include hP

/-! ## Dealings -/

omit hP [Connection κ] in
theorem Upholds.putAt {remote : String} {l k : Link κ} {effects : List CallEffect}
    (hl : c.links.find? remote = some l) (hk : remote = r → P l.peer → P k.peer) :
    Upholds P s r c (c.put remote k, effects) := by
  by_cases hr : r = remote
  · subst hr
    exact .put hl (hk rfl)
  · exact .of_find?_eq (find?_put_of_ne hr c k)

theorem upholds_make {remote : String} {p : κ} (hl : c.links.find? remote = none)
    (hp : s.connect remote = some p) {c' : Call κ} {effects : List CallEffect}
    (hlinks : c'.links = c.links.insert remote
      (({ remote, serial := c.serial + 1, peer := p } : Link κ).attach (c.held.getD {}))) :
    Upholds P s r c (c', effects) := by
  by_cases hr : r = remote
  · subst hr
    refine ⟨fun hsome => ?_, fun hhas l' hl' => ?_⟩
    · rw [hl] at hsome
      cases hsome
    · cases hl' with
      | stands hl' =>
          rw [hlinks, Table.find?_insert_self, Option.some.injEq] at hl'
          rw [← hl']
          exact hP.addTracks _ (hhas _ (.made hl hp (Nat.lt_succ_self c.serial)))
      | made hnone _ _ =>
          rw [hlinks, Table.find?_insert_self] at hnone
          cases hnone
  · refine .of_find?_eq ?_
    rw [hlinks, Table.find?_insert_of_ne _ _ hr]

theorem upholds_applyDescription {l k : Link κ} (hl : c.links.find? r = some l)
    (hk : k.peer = l.peer) (d : Description) : Upholds P s r c (c.applyDescription r k d) := by
  have hput : Upholds P s r c (c.putReported r k (Connection.apply k.peer d)) :=
    .put hl fun h => hP.apply _ d (hk.symm ▸ h)
  unfold applyDescription
  refine hput.andThen ?_
  split
  · exact .of_find?_eq rfl
  · refine .andThen (t := (_, _)) (.of_find?_eq rfl) (.put (find?_put_self ..) fun h => ?_)
    rwa [Link.flush_peer]

theorem upholds_of_dealing {heard : String → Envelope → Prop}
    (hheard : ∀ e, heard r e → e.sdp = none → e.ice = none) (h : Dealing s heard c t) :
    Upholds P s r c t := by
  cases h with
  | note _ _ => exact .of_find?_eq rfl
  | say _ => exact .of_find?_eq rfl
  | refuse _ _ => exact .of_find?_eq rfl
  | make hl hp => exact upholds_make hP hl hp rfl
  | offerFails hl _ => exact .putAt hl fun _ => hP.offer _
  | @offer remote l d hl _ =>
      have hput : Upholds P s r c
          (c.putReported remote l.negotiate (Connection.offer l.peer)) := .putAt hl fun _ => hP.offer _
      exact hput.andThen (.of_find?_eq rfl)
  | @apply remote l k e d _ _ hl _ hpeer =>
      by_cases hr : r = remote
      · subst hr
        exact upholds_applyDescription hP hl hpeer d
      · exact .of_find?_eq ((Confined.applyDescription k d).links r hr)
  | candidate he hsdp hx hl =>
      refine .putAt hl fun hr => ?_
      subst hr
      rw [hheard _ he hsdp] at hx
      cases hx
  | clear hl => exact .putAt hl fun _ => id

/-- Dealings in which no candidate of the participant is heard. -/
theorem upholds_of_deals {heard : String → Envelope → Prop}
    (hheard : ∀ e, heard r e → e.sdp = none → e.ice = none) (h : Deals s heard c t) :
    Upholds P s r c t :=
  of_deals h (fun _ => .of_find?_eq rfl) .andThen (upholds_of_dealing hP hheard)

theorem upholds_onSession {e : SessionEvent} (h : handed s r (.session e) = none) :
    Upholds P s r c (c.onSession s e) := by
  refine upholds_of_deals hP (fun envelope hutters hsdp => ?_) (deals_onSession s e c)
  obtain ⟨m, rfl, hsender, hconcerns, hevent⟩ := hutters
  simpa [handed, hsender, hconcerns, hevent, hsdp] using h

omit hP in
theorem upholds_onSignal (hc : c.Proper) {signal : PeerSignal}
    (h : signal.remote = r → ∀ l, c.links.find? r = some l → l.serial = signal.serial →
      signal.event.IsAlive) :
    Upholds P s r c (c.onSignal signal) := by
  by_cases hr : signal.remote = r
  · subst hr
    unfold onSignal
    split
    · exact .of_find?_eq rfl
    · split
      · exact .of_find?_eq rfl
      · rename_i l hl
        split
        · exact .of_find?_eq rfl
        · rename_i hserial
          split
          · exact .put hl fun h => by rwa [Link.gather_peer]
          · exact .put hl id
          · rename_i state he
            have hstate : state.isDead = false := h rfl l hl (by simpa using hserial) state he
            rw [hstate]
            exact .of_find?_eq rfl
  · exact .of_find?_eq ((confined_onSignal hc signal).links r (Ne.symm hr))

/-! ## Local media -/

theorem upholds_of_mediaOp (h : MediaOp c t) : Upholds P s r c t := by
  cases h with
  | control control => exact .of_find?_eq (by rw [setControl_links])
  | attach stream =>
      exact .map (f := fun l => l.attach stream) (fun _ => hP.addTracks stream.tracks) rfl
  | detach stream =>
      exact .map (f := fun l => l.detach stream) (fun _ => hP.removeTracks stream.tracks) rfl
  | epoch | release | acquire | say | notice => exact .of_find?_eq rfl

theorem upholds_of_builds (h : Builds (Deals s fun _ _ => False) c t) : Upholds P s r c t :=
  of_builds h (upholds_of_deals hP nofun) (upholds_of_mediaOp hP) .andThen

end Call

/-! ## Connections in memory -/

section

variable {P : Peer → Prop} (hP : Connection.Lasts P) {r : String} {s : Setting}

include hP

theorem Call.upholds_step {c : Call} (hc : c.Proper) {i : Input} (hi : handed s r i = none)
    (hcut : ¬ Cuts r c i) : Upholds P s r c (c.step s i) := by
  cases i with
  | session e => exact upholds_onSession hP hi
  | start video => exact upholds_of_builds hP (builds_startMedia video c)
  | leave => exact upholds_of_builds hP (builds_leave c)
  | teardown => exact absurd trivial hcut
  | media epoch result =>
      exact upholds_of_builds hP (builds_onMedia (deals_offerAll s) epoch result c)
  | signal signal =>
      refine upholds_onSignal hc fun hr l hl hserial => ?_
      exact Decidable.byContradiction fun hdead => hcut ⟨hr, hdead, l, hl, hserial⟩

namespace Agent

variable {a : Agent} {t : Turn}

omit hP in
theorem Fit.not_cuts (h : a.Fit r) (ht : t.endsCall = false) {i : Call.Input}
    (hi : a.input? t = some i) : ¬ Call.Cuts r a.call i := by
  obtain ⟨-, hgives⟩ := gives_of_input hi
  cases hgives with
  | session | start | leave | media => exact id
  | ends hends =>
      rw [ht] at hends
      cases hends
  | @signal x rest hsignals =>
      rintro ⟨hr, hdead, l, hl, hserial⟩
      rcases h.spared x (hsignals ▸ List.mem_cons_self) hr with halive | ⟨l', hl', hne⟩
      · exact hdead halive
      · rw [hl, Option.some.injEq] at hl'
        exact hne (hl' ▸ hserial)

omit hP in
theorem handed_of_spares (s : Setting) (ht : t.Spares r) {i : Call.Input}
    (hi : a.input? t = some i) : Call.handed s r i = none := by
  obtain ⟨-, hgives⟩ := gives_of_input hi
  cases hgives with
  | session e =>
      cases e with
      | message m => exact if_neg fun h => ht h.1
      | _ => rfl
  | start | leave | ends | signal | media => rfl

/-- A turn that hands no candidate over and does not end the call. -/
theorem Fit.upholds_input (h : a.Fit r) (hc : a.call.Proper) (ht : t.endsCall = false)
    {i : Call.Input} (hi : a.input? t = some i) (hhanded : Call.handed s r i = none) :
    Call.Upholds P s r a.call ((a.turn s t).1.call, (a.turn s t).2) := by
  rw [turn_of_input s hi]
  exact Call.upholds_step hP hc hhanded (h.not_cuts ht hi)

/-- A turn that spares the line to a participant, with a network that leaves the property alone. -/
theorem Fit.upholds_turn (h : a.Fit r) (hc : a.call.Proper) (ht : t.Spares r)
    (hnetwork : ∀ p (n : IceState), n.isDead = false → P p → P (Connection.network p n).1) :
    Call.Upholds P s r a.call ((a.turn s t).1.call, (a.turn s t).2) := by
  refine turn_cases s a t ?_ (.of_find?_eq rfl) ?_
  · intro i hi
    have hends : t.endsCall = false := by
      cases t with
      | sessionEnded | teardown | dropped => exact ht.elim
      | _ => rfl
    exact Call.upholds_step hP hc (handed_of_spares s ht hi) (h.not_cuts hends hi)
  · rintro remote serial n rfl
    exact .updatePeer hc remote serial fun hr p => hnetwork p n (ht hr)

end Agent

end

end Parley
