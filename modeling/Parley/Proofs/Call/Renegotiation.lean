import Parley.Proofs.Call.Published
import Parley.Proofs.Call.Views

/-!
# Answers of the devices

When a stream arrives in the epoch of its request, the links get its tracks and all of them are
negotiated anew, whether they are new, wait for an answer or are stable: the call looks each of them
up again after the offer before, and finds it as it was (`Call.offerAll_eq`). A failure in that
epoch only takes the control back, and of a stream that arrives later nobody hears.
-/

namespace Parley

/-- The link after its connection offered. What waits in its queue goes on waiting. -/
def Link.reoffer {κ : Type} [Connection κ] (l : Link κ) : Link κ :=
  { l.negotiate with peer := (Connection.offer l.peer).after }

namespace Call

/-! ## Offers on links that are there -/

section

variable {κ : Type} [Connection κ] {c : Call κ} {s : Setting κ} {d : Description}

/-- There is a link to a participant, and its connection offers `d` when it is asked to. -/
def Offers (d : Description) (c : Call κ) (r : String) : Prop :=
  ∃ l, c.links.find? r = some l ∧ (Connection.offer l.peer).result = .ok d

theorem offer_eq {r : String} {l : Link κ} (hl : c.links.find? r = some l)
    (hd : (Connection.offer l.peer).result = .ok d) :
    c.offer s r = (c.put r l.reoffer, (Connection.offer l.peer).events.map
      (fun e => .report (l.negotiate.tag e)) ++ [sendDescription r d]) := by
  simp only [offer, ensure, hl, hd]
  rfl

omit [Connection κ] in
@[simp] theorem told_reports (l : Link κ) (events : List PeerEvent) :
    told (events.map fun e => .report (l.tag e)) = [] := by
  simp [told]

omit [Connection κ] in
@[simp] theorem sent_reports (l : Link κ) (events : List PeerEvent) :
    Duet.sent (events.map fun e => .report (l.tag e)) = [] := by
  simp [Duet.sent]

/-- Every participant is sent the same offer, in turn, and each link offered once. -/
theorem offerAll_eq {remotes : List String} (hnodup : remotes.Nodup)
    (hoffers : ∀ r ∈ remotes, c.Offers d r) :
    (offerAll s remotes c).1 =
        { c with links := c.links.map fun r l => if r ∈ remotes then l.reoffer else l } ∧
      Duet.sent (offerAll s remotes c).2 =
        remotes.map (fun r => .signal (.ofDescription r d)) ∧
      told (offerAll s remotes c).2 = [] := by
  induction remotes generalizing c with
  | nil =>
      refine ⟨?_, rfl, rfl⟩
      have hlinks : (c.links.map fun r l => if r ∈ ([] : List String) then l.reoffer else l) =
          c.links := Table.ext_find? fun k => by simp
      rw [hlinks]
      rfl
  | cons r rest ih =>
      obtain ⟨hnot, hrest⟩ := List.nodup_cons.mp hnodup
      obtain ⟨l, hl, hd⟩ := hoffers r List.mem_cons_self
      have hothers : ∀ r' ∈ rest, (c.put r l.reoffer).Offers d r' := by
        intro r' hr'
        obtain ⟨l', hl', hd'⟩ := hoffers r' (List.mem_cons_of_mem _ hr')
        refine ⟨l', ?_, hd'⟩
        have hne : r' ≠ r := fun heq => hnot (heq ▸ hr')
        rwa [find?_put_of_ne hne]
      obtain ⟨hcall, hsent, htold⟩ := ih hrest hothers
      rw [offerAll, offer_eq hl hd, Step.andThen_call, Step.andThen_effects, hcall]
      refine ⟨?_, ?_, ?_⟩
      · -- The link that offered first is not among the others, which leave it alone.
        have hlinks : ((c.links.insert r l.reoffer).map fun r' l' =>
            if r' ∈ rest then l'.reoffer else l') =
              c.links.map fun r' l' => if r' ∈ r :: rest then l'.reoffer else l' := by
          refine Table.ext_find? fun k => ?_
          rw [Table.find?_map, Table.find?_map, Table.find?_insert]
          by_cases hk : k = r
          · subst hk
            simp [hl, hnot]
          · simp [hk]
        exact congrArg (fun links => { c with links }) hlinks
      · rw [Duet.sent_append, Duet.sent_append, sent_reports, hsent]
        rfl
      · rw [told_append, told_append, told_reports, htold]
        rfl

theorem offerAll_keys
    (hoffers : ∀ r l, c.links.find? r = some l → (Connection.offer l.peer).result = .ok d) :
    (offerAll s c.links.keys c).1 = { c with links := c.links.map fun _ l => l.reoffer } ∧
      Duet.sent (offerAll s c.links.keys c).2 =
        c.links.keys.map (fun r => .signal (.ofDescription r d)) ∧
      told (offerAll s c.links.keys c).2 = [] := by
  have hkeys : ∀ r ∈ c.links.keys, c.Offers d r := by
    intro r hr
    obtain ⟨⟨_, l⟩, hl, rfl⟩ := List.mem_map.mp hr
    have hfind := Table.find?_eq_some_iff.mpr hl
    exact ⟨l, hfind, hoffers _ l hfind⟩
  have hlinks : (c.links.map fun r l => if r ∈ c.links.keys then l.reoffer else l) =
      c.links.map fun _ l => l.reoffer := by
    refine Table.ext_find? fun k => ?_
    rw [Table.find?_map, Table.find?_map]
    cases hl : c.links.find? k with
    | none => rfl
    | some l =>
        have hk : k ∈ c.links.keys := List.mem_map_of_mem (Table.find?_eq_some_iff.mp hl)
        rw [Option.map_some, if_pos hk]
        rfl
  have hall := offerAll_eq (s := s) c.links.nodup_keys hkeys
  rwa [hlinks] at hall

/-- A stream is published with one offer to everyone there is a link to, in the order of the ids,
and one inquiry. -/
theorem publish_eq {stream : MediaStream} (hcontrol : c.control ≠ .stop)
    (hoffers : ∀ r l, c.links.find? r = some l →
      (Connection.offer (l.attach stream).peer).result = .ok d) :
    (c.publish s stream).1 =
        { c with
          links := c.links.map fun _ l => (l.attach stream).reoffer
          held := some stream, control := .stop } ∧
      Duet.sent (c.publish s stream).2 =
        c.links.keys.map (fun r => .signal (.ofDescription r d)) ++ [.streamInquiry none] ∧
      told (c.publish s stream).2 = [.controlChanged .stop] := by
  let attached : Call κ :=
    { c with links := c.links.map fun _ l => l.attach stream, held := some stream }
  have hattached : ∀ r l, attached.links.find? r = some l →
      (Connection.offer l.peer).result = .ok d := by
    intro r k hk
    rw [Table.find?_map] at hk
    obtain ⟨l, hl, rfl⟩ := Option.map_eq_some_iff.mp hk
    exact hoffers r l hl
  obtain ⟨hcall, hsent, htold⟩ := offerAll_keys (s := s) hattached
  have hkeys : attached.links.keys = c.links.keys :=
    Table.keys_eq_of_isSome fun k => by simp [attached]
  have hset : (offerAll s attached.links.keys attached).1.setControl .stop =
      ({ (offerAll s attached.links.keys attached).1 with control := .stop },
        [.tell (.controlChanged .stop)]) := if_neg (by rw [hcall]; exact hcontrol)
  change ((offerAll s attached.links.keys attached).1.setControl .stop).1 = _ ∧
    Duet.sent ((offerAll s attached.links.keys attached).2 ++ ([.send (.streamInquiry none)] ++
      ((offerAll s attached.links.keys attached).1.setControl .stop).2)) = _ ∧
    told ((offerAll s attached.links.keys attached).2 ++ ([.send (.streamInquiry none)] ++
      ((offerAll s attached.links.keys attached).1.setControl .stop).2)) = _
  rw [hset, hcall, Duet.sent_append, told_append, hsent, htold, hkeys]
  refine ⟨?_, rfl, rfl⟩
  have hlinks : (attached.links.map fun _ l => l.reoffer) =
      c.links.map fun _ l => (l.attach stream).reoffer :=
    Table.ext_find? fun k => by simp only [attached, Table.find?_map, Option.map_map]; rfl
  rw [hlinks]

end

/-! ## Connections in memory -/

variable {label : String} {c : Call} {l : Link} {stream : MediaStream}

/-- A link in whatever stance that takes up a stream offers just its tracks, and then waits for the
answer. What waits in its queue goes on waiting. -/
theorem reoffer_attach {st : Stance} (hst : l.Holds st) (hpeer : l.peer.Publishes label [])
    (hstream : stream.OpenedBy label) :
    let offer : Description := ⟨.offer, Sdp.text label "offer" stream.tracks⟩
    (Connection.offer (l.attach stream).peer).result = .ok offer ∧
      ∃ peer : Peer, peer.pendingLocal = some offer ∧
        (l.attach stream).reoffer = { l with phase := .negotiating, peer } := by
  intro offer
  have hattached := hst.attach stream
  obtain ⟨o, q, events, hoffer, hkind, hq, -⟩ := hattached.offer
  have hlists := (hstream.attach hpeer).offer.2 o (congrArg Reply.result hoffer)
  obtain rfl : o = offer := by
    cases hlists with
    | offer => rfl
    | answer => cases hkind
  refine ⟨by rw [hoffer], q, hq.peer.pendingLocal, ?_⟩
  rw [Link.reoffer, hattached.negotiate_eq, hoffer]
  rfl

theorem onMedia_current {s : Setting} {epoch : Nat} (hend : ¬ c.ended) (hepoch : epoch = c.epoch)
    (hcontrol : c.control = .pending) (result : Except MediaError MediaStream) :
    c.onMedia s epoch result =
      match result with
      | .error e => ({ c with control := .start },
          [.tell (.controlChanged .start), .tell (.notice (.failure e.message))])
      | .ok stream => c.publish s stream := by
  have hnow : ¬ (c.ended ∨ epoch ≠ c.epoch) := by simp [hend, hepoch]
  unfold onMedia
  rw [if_neg hnow]
  cases result with
  | ok stream => rfl
  | error e => simp [setControl, hcontrol, Step.andThen]

theorem onMedia_late {s : Setting} {epoch : Nat} (hepoch : epoch ≠ c.epoch)
    (result : Except MediaError MediaStream) :
    (c.onMedia s epoch result).1 = c ∧ Duet.sent (c.onMedia s epoch result).2 = [] ∧
      told (c.onMedia s epoch result).2 = [] := by
  unfold onMedia
  rw [if_pos (.inr hepoch)]
  cases result with
  | ok stream => exact ⟨rfl, by simp [Duet.sent, releaseAll], by simp [told, releaseAll]⟩
  | error e => exact ⟨rfl, rfl, rfl⟩

end Call

/-! ## Agents -/

theorem Setting.Loopback.fresh {label : String} {s : Setting} (h : s.Loopback label) : s.Fresh :=
  fun remote p hp => ⟨label, h remote p hp⟩

namespace Agent

variable {label : String}

/-- Whatever links there are and whatever phase each of them is in: if the stream that was asked for
in this epoch is taken, everyone there is a link to is sent one offer, in the order of the ids,
which lists the tracks of the stream, and then all are asked once whether they stream. Every link is
negotiated anew, with the candidates that waited, and the control offers to stop. If the devices
failed, nothing is sent, the links stay as they are, and the control and one notice tell of it.
What was asked for in an earlier epoch is not noticed. -/
theorem answer_renegotiates {history : List (Setting × Turn)}
    (hhistory : ∀ st ∈ history, st.1.Loopback label ∧ st.2.Loopback label) (s : Setting) :
    let a := (({} : Agent).run history).1
    let t := a.turn s .media
    ∀ epoch result answers, a.answers = (epoch, result) :: answers →
      (epoch = a.call.epoch → ∀ stream, result = .ok stream →
        let offer : Description := ⟨.offer, Sdp.text label "offer" stream.tracks⟩
        (Sdp.Plain label → Sdp.tracks offer.sdp = stream.tracks) ∧
        a.call.links.keys.Pairwise (· < ·) ∧
        Duet.sent t.2 =
          a.call.links.keys.map (fun r => .signal (.ofDescription r offer)) ++
            [.streamInquiry none] ∧
        t.1.call.links.keys = a.call.links.keys ∧
        (∀ r l, a.call.links.find? r = some l → ∃ peer : Peer, peer.pendingLocal = some offer ∧
          t.1.call.links.find? r = some { l with phase := .negotiating, peer }) ∧
        t.1.call.control = .stop ∧ Call.told t.2 = [.controlChanged .stop]) ∧
      (epoch = a.call.epoch → ∀ e, result = .error e →
        t.1.call = { a.call with control := .start } ∧
        t.2 = [.tell (.controlChanged .start), .tell (.notice (.failure e.message))]) ∧
      (epoch ≠ a.call.epoch →
        epoch < a.call.epoch ∧ t.1.call = a.call ∧ Duet.sent t.2 = [] ∧ Call.told t.2 = []) := by
  intro a t epoch result answers hanswers
  have hpublishes : a.Publishes label := Publishes.empty.run hhistory
  have hsound : a.Sound := Sound.empty.run fun st hst => (hhistory st hst).1.fresh
  obtain ⟨hrunning, hagrees⟩ := hpublishes.coherent.of_answer hanswers
  have hinput : a.input? .media = some (.media epoch result) := by
    simp [input?, hrunning, hanswers]
  have hstep : (t.1.call, t.2) = a.call.onMedia s epoch result := turn_of_input s hinput
  refine ⟨?_, ?_, ?_⟩
  · rintro hepoch stream rfl offer
    obtain ⟨hcontrol, -, hheld, hend⟩ := hagrees.answered hepoch
    have hstream := hpublishes.waiting epoch stream (hanswers ▸ List.mem_cons_self)
    have hlink : ∀ r l, a.call.links.find? r = some l →
        (Connection.offer (l.attach stream).peer).result = .ok offer ∧
          ∃ peer : Peer, peer.pendingLocal = some offer ∧
            (l.attach stream).reoffer = { l with phase := .negotiating, peer } := by
      intro r l hl
      obtain ⟨st, hst⟩ := hsound.lines r
      rw [Call.At, hl] at hst
      have hpeer := hpublishes.call.links r l hl
      rw [Call.published, show a.call.held = none from hheld] at hpeer
      exact Call.reoffer_attach hst hpeer hstream
    rw [Call.onMedia_current hend hepoch hcontrol] at hstep
    have hcall : t.1.call = (a.call.publish s stream).1 := congrArg Prod.fst hstep
    have heffects : t.2 = (a.call.publish s stream).2 := congrArg Prod.snd hstep
    obtain ⟨hafter, hsent, htold⟩ := Call.publish_eq (s := s) (c := a.call)
      (by rw [show a.call.control = .pending from hcontrol]; decide) fun r l hl => (hlink r l hl).1
    rw [hcall, heffects, hafter]
    refine ⟨fun hlabel => ?_, ?_, hsent, ?_, fun r l hl => ?_, rfl, htold⟩
    · exact Description.Lists.offer.tracks hlabel (hstream.plain hlabel)
    · exact List.pairwise_map.mpr a.call.links.ordered
    · exact Table.keys_eq_of_isSome fun k => by simp
    · obtain ⟨peer, hpending, heq⟩ := (hlink r l hl).2
      exact ⟨peer, hpending, by rw [Table.find?_map, hl, Option.map_some, heq]⟩
  · rintro hepoch e rfl
    obtain ⟨hcontrol, -, -, hend⟩ := hagrees.answered hepoch
    rw [Call.onMedia_current hend hepoch hcontrol] at hstep
    exact ⟨congrArg Prod.fst hstep, congrArg Prod.snd hstep⟩
  · intro hepoch
    obtain ⟨hafter, hsent, htold⟩ := Call.onMedia_late (s := s) hepoch result
    have hle : epoch ≤ a.call.epoch := hagrees.past epoch List.mem_cons_self
    have hcall : t.1.call = (a.call.onMedia s epoch result).1 := congrArg Prod.fst hstep
    have heffects : t.2 = (a.call.onMedia s epoch result).2 := congrArg Prod.snd hstep
    exact ⟨by omega, hcall.trans hafter, heffects ▸ hsent, heffects ▸ htold⟩

/-- A stream arrives for a call with a new link and one whose offer waits for its answer. -/
theorem answer_renegotiates_both :
    let s : Setting := { me := some "me", connect := fun _ => some { label := "me" } }
    let mic : Devices := { label := "me" }
    let hears (r : String) (e : Event) : Turn := .session (.message
      { topic := "room", sender := r, event := e })
    let history : List (Setting × Turn) := [(s, hears "zoe" (.streamInquiry none)),
      (s, hears "ann" (.startStream (some "me"))), (s, .start false),
      (s, .answered ⟨0, false, 0⟩ (mic.acquire false).1)]
    let a := (({} : Agent).run history).1
    let offer : Description := ⟨.offer, Sdp.text "me" "offer" [⟨"me-audio-1", .audio⟩]⟩
    a.call.links.values.map (·.phase) = [.negotiating, .new] ∧
      Duet.sent (a.turn s .media).2 =
        [.signal (.ofDescription "ann" offer), .signal (.ofDescription "zoe" offer),
          .streamInquiry none] := by
  intro s mic hears history a offer
  have hs : s.Loopback "me" := fun _ _ hp => (Option.some.inj hp).symm
  have hhistory : ∀ st ∈ history, st.1.Loopback "me" ∧ st.2.Loopback "me" := by
    intro st hst
    simp only [history, List.mem_cons, List.not_mem_nil, or_false] at hst
    rcases hst with rfl | rfl | rfl | rfl
    · exact ⟨hs, trivial⟩
    · exact ⟨hs, trivial⟩
    · exact ⟨hs, trivial⟩
    · exact ⟨hs, mic, rfl, rfl⟩
  have hanswers : a.answers = [(0, .ok ⟨[⟨"me-audio-1", .audio⟩]⟩)] := by decide +kernel
  have hepoch : 0 = a.call.epoch := by decide +kernel
  have hkeys : a.call.links.keys = ["ann", "zoe"] := by decide +kernel
  obtain ⟨hcurrent, -, -⟩ := answer_renegotiates hhistory s 0 _ [] hanswers
  obtain ⟨-, -, hsent, -⟩ := hcurrent hepoch _ rfl
  have hphases : a.call.links.values.map (·.phase) = [.negotiating, .new] := by decide +kernel
  rw [hkeys] at hsent
  exact ⟨hphases, hsent⟩

end Agent

end Parley
