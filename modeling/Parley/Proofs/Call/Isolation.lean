import Mathlib.Control.Monad.Basic
import Parley.Proofs.Call.Accounts
import Parley.Proofs.Call.Inputs
import Parley.Proofs.Call.Lockstep

/-!
# Participants do not disturb each other

What concerns one participant of a call are the messages it sends and what its connections report
and go through, and besides what concerns everyone: the commands of the user and the answers of the
devices. The link to the participant and what the participant is sent follow from these, in their
order, and from nothing else (`Agent.undisturbed_by_others`). Two runs are compared for that: each
turn either does not concern the participant, and then the call is alike before and after it, or is
taken by both runs together.
-/

namespace Parley

deriving instance DecidableEq for Call.Input

/-- What concerns a participant, where `ν` is what the network can do. A connection is told from
others to the participant by its place among them, as its number depends on all the links of the
call. -/
inductive Concern (ν : Type) where
  /-- The call is given a message, a command or an answer of the devices. -/
  | given (i : Call.Input)
  | report (place : Option Nat) (e : PeerEvent)
  | network (place : Option Nat) (n : ν)
  deriving DecidableEq

namespace Call

variable {κ : Type} [Connection κ] {r : String} {s s' : Setting κ} {c d : Call κ} {i j : Input}
  {x : Concern (Connection.Network κ)}

/-- A command or an answer of the devices, which concerns everyone. -/
def Input.isForAll : Input → Bool
  | .session _ | .signal _ => false
  | .start _ | .leave | .teardown | .media _ _ => true

/-- How an input concerns a participant, if it does. -/
def concern? (r : String) (c : Call κ) : Input → Option (Concern (Connection.Network κ))
  | .session (.message m) => if m.sender = r then some (.given (.session (.message m))) else none
  | .session _ => none
  | .signal x => if x.remote = r then some (.report (c.place r x.serial) x.event) else none
  | .start video => some (.given (.start video))
  | .leave => some (.given .leave)
  | .teardown => some (.given .teardown)
  | .media epoch result => some (.given (.media epoch result))

/-! ## Inputs -/

theorem apart_onSession (s : Setting κ) {e : SessionEvent} (h : c.concern? r (.session e) = none) :
    Apart r c (c.onSession s e) := by
  unfold onSession
  split
  · exact .nothing r c
  · cases e with
    | subscribed => exact ⟨⟨rfl, rfl, rfl⟩, rfl⟩
    | rosterUpdated roster =>
        dsimp only
        split
        · exact ⟨⟨rfl, rfl, rfl⟩, rfl⟩
        · exact .nothing r c
    | message m =>
        have hsender : m.sender ≠ r := by
          intro hm
          simp [concern?, hm] at h
        exact .of_confined (confined_onMessage s m c) hsender.symm
    | participantLeft => exact .nothing r c
    | moreHistory => exact .nothing r c

/-- What does not concern a participant leaves the call as it is for the participant. -/
theorem apart_step (hc : c.Proper) (s : Setting κ) (h : c.concern? r i = none) :
    Apart r c (c.step s i) := by
  cases i with
  | session e => exact apart_onSession s h
  | signal x =>
      have hremote : x.remote ≠ r := by
        intro hx
        simp [concern?, hx] at h
      exact .of_confined (confined_onSignal hc x) hremote.symm
  | start | leave | teardown | media => cases h

theorem Together.onSession {m : Message} (h : Alike m.sender c d)
    (hs : Setting.Alike m.sender s s') :
    Together m.sender (c.onSession s (.message m)) (d.onSession s' (.message m)) := by
  unfold Call.onSession
  rw [← h.ended]
  split
  · exact .nothing h
  · exact .onMessage h hs

/-- An input concerns a participant by itself, or as the report of one of its connections. -/
theorem concern_cases (h : c.concern? r i = some x) :
    (x = .given i ∧ ((∃ m, i = .session (.message m) ∧ m.sender = r) ∨ i.isForAll)) ∨
    ∃ n e, i = .signal ⟨r, n, e⟩ ∧ x = .report (c.place r n) e := by
  cases i with
  | session e =>
      cases e with
      | message m =>
          rw [concern?, Option.ite_none_right_eq_some] at h
          exact .inl ⟨(Option.some.inj h.2).symm, .inl ⟨m, rfl, h.1⟩⟩
      | subscribed | rosterUpdated | participantLeft | moreHistory => cases h
  | signal y =>
      rw [concern?, Option.ite_none_right_eq_some] at h
      obtain ⟨rfl, hx⟩ := h
      exact .inr ⟨y.serial, y.event, rfl, (Option.some.inj hx).symm⟩
  | start | leave | teardown | media =>
      cases h
      exact .inl ⟨rfl, .inr rfl⟩

/-- What the network does is given to no call. -/
theorem concern_ne_network (place : Option Nat) (n : Connection.Network κ) :
    c.concern? r i ≠ some (.network place n) := by
  intro h
  rcases concern_cases h with ⟨hgiven, -⟩ | ⟨_, _, _, hreport⟩
  · cases hgiven
  · cases hreport

/-- What concerns a participant alike does the same to calls that are alike. -/
theorem together_step (h : Alike r c d) (hs : Setting.Alike r s s') (hc : c.Proper) (hd : d.Proper)
    (hi : c.concern? r i = some x) (hj : d.concern? r j = some x) :
    Together r (c.step s i) (d.step s' j) := by
  rcases concern_cases hi with ⟨rfl, hown⟩ | ⟨m, e, rfl, rfl⟩
  · rcases concern_cases hj with ⟨hsame, -⟩ | ⟨_, _, _, hreport⟩
    · cases hsame
      rcases hown with ⟨m, rfl, rfl⟩ | hall
      · exact .onSession h hs
      · cases i with
        | session | signal => cases hall
        | start video => exact .startMedia h video
        | leave => exact .leave h
        | teardown => exact .teardown h hc hd
        | media epoch result => exact .onMedia h hs epoch result
    · cases hreport
  · rcases concern_cases hj with ⟨hgiven, -⟩ | ⟨n, e', rfl, hreport⟩
    · cases hgiven
    · obtain ⟨hplace, rfl⟩ := Concern.report.inj hreport
      exact .onSignal h hc hd hplace e

/-! ## The network -/

omit [Connection κ] in
theorem length_earlier_updatePeer (remote : String) (serial : Nat) (f : κ → κ) (c : Call κ) :
    ((c.updatePeer remote serial f).earlier r).length = (c.earlier r).length := by
  unfold earlier updatePeer
  rw [List.filter_map, List.length_map]
  congr 1
  refine List.filter_congr fun l _ => ?_
  dsimp only [Function.comp]
  split <;> rfl

end Call

namespace Agent

variable {κ : Type} [Connection κ] {r : String} {s s' : Setting κ} {a b : Agent κ} {t u : Turn κ}
  {x : Concern (Connection.Network κ)}

/-- The network reaches a link that stands by its number. -/
theorem find?_disturb (h : a.call.Proper) (remote : String) (serial : Nat)
    (n : Connection.Network κ) :
    (a.disturb remote serial n).call.links.find? r = (a.call.links.find? r).map fun l =>
      if r = remote ∧ l.serial = serial then { l with peer := (Connection.network l.peer n).1 }
      else l := by
  unfold disturb
  cases hl : a.call.links.find? r with
  | none =>
      split
      · exact hl
      · change (Table.map _ a.call.links).find? r = _
        rw [Table.find?_map, hl]
        rfl
  | some l =>
      have hremote : l.remote = r := h.remote r l hl
      split
      · rename_i hnone
        have hnot : ¬ (r = remote ∧ l.serial = serial) := by
          rintro ⟨rfl, hserial⟩
          have hmade : l ∈ a.call.made r := by
            rw [Call.made, hl]
            exact List.mem_append_right _ List.mem_cons_self
          exact absurd (by simpa using hserial) (List.find?_eq_none.mp hnone l hmade)
        rw [Option.map_some, if_neg hnot]
        exact hl
      · change (Table.map _ a.call.links).find? r = _
        rw [Table.find?_map, hl, Option.map_some, Option.map_some, ← hremote]

theorem booth_disturb (remote : String) (serial : Nat) (n : Connection.Network κ) :
    (a.disturb remote serial n).call.booth = a.call.booth := by
  unfold disturb
  split <;> rfl

theorem length_earlier_disturb (remote : String) (serial : Nat) (n : Connection.Network κ) :
    ((a.disturb remote serial n).call.earlier r).length = (a.call.earlier r).length := by
  unfold disturb
  split
  · rfl
  · exact Call.length_earlier_updatePeer _ _ _ _

theorem disturb_apart (h : a.call.Proper) {remote : String} (hr : r ≠ remote) (serial : Nat)
    (n : Connection.Network κ) : Call.Alike r a.call (a.disturb remote serial n).call where
  booth := (booth_disturb remote serial n).symm
  link := by
    rw [find?_disturb h]
    simp [hr]
  earlier := (length_earlier_disturb remote serial n).symm

theorem disturb_together (h : Call.Alike r a.call b.call) (ha : a.call.Proper)
    (hb : b.call.Proper) {m m' : Nat} (hplace : a.call.place r m = b.call.place r m')
    (n : Connection.Network κ) :
    Call.Alike r (a.disturb r m n).call (b.disturb r m' n).call where
  booth := by rw [booth_disturb, booth_disturb, h.booth]
  link := by
    rw [find?_disturb ha, find?_disturb hb]
    rcases h.find? with ⟨hal, hbl⟩ | ⟨l, k, hal, hbl⟩
    · rw [hal, hbl]
      rfl
    · have hsame : l.serial = m ↔ k = m' := by
        rw [← Call.place_eq_iff ha hal, hplace, h.earlier]
        exact Call.place_eq_iff hb hbl m'
      rw [hal, hbl]
      by_cases hm : l.serial = m
      · simp [hm, hsame.mp hm, Link.bare, Link.number]
      · simp [hm, mt hsame.mpr hm, Link.bare, Link.number]
  earlier := by rw [length_earlier_disturb, length_earlier_disturb, h.earlier]

/-! ## Turns -/

/-- How a turn concerns a participant, if it does. -/
def concern? (r : String) (a : Agent κ) (t : Turn κ) : Option (Concern (Connection.Network κ)) :=
  match a.input? t with
  | some i => a.call.concern? r i
  | none =>
    match t with
    | .network remote serial n =>
      if remote = r then some (.network (a.call.place r serial) n) else none
    | _ => none

theorem apart_turn (h : a.call.Proper) (s : Setting κ) (ht : a.concern? r t = none) :
    Call.Apart r a.call ((a.turn s t).1.call, (a.turn s t).2) := by
  unfold concern? at ht
  cases hi : a.input? t with
  | some i =>
      rw [hi] at ht
      rw [turn_of_input s hi]
      exact Call.apart_step h s ht
  | none =>
      rw [hi] at ht
      obtain ⟨hquiet, hcall⟩ := turn_of_no_input s hi
      rw [hquiet, hcall]
      cases t with
      | network remote serial n =>
          have hremote : remote ≠ r := by
            intro hr
            simp [hr] at ht
          exact ⟨disturb_apart h hremote.symm serial n, rfl⟩
      | session | sessionEnded | start | leave | teardown | dropped | signal | media | answered =>
          exact .nothing r a.call

/-- A turn concerns a participant by what it gives to the call, or by what the network does. -/
theorem concern_turn_cases (h : a.concern? r t = some x) :
    (∃ i, a.input? t = some i ∧ a.call.concern? r i = some x) ∨
      ∃ serial n, t = .network r serial n ∧ x = .network (a.call.place r serial) n := by
  unfold concern? at h
  cases hi : a.input? t with
  | some i =>
      rw [hi] at h
      exact .inl ⟨i, rfl, h⟩
  | none =>
      rw [hi] at h
      cases t with
      | network remote serial n =>
          dsimp only at h
          rw [Option.ite_none_right_eq_some] at h
          obtain ⟨rfl, hx⟩ := h
          exact .inr ⟨serial, n, rfl, (Option.some.inj hx).symm⟩
      | session | sessionEnded | start | leave | teardown | dropped | signal | media | answered =>
          cases h

theorem together_turn (h : Call.Alike r a.call b.call) (hs : Setting.Alike r s s')
    (ha : a.call.Proper) (hb : b.call.Proper) (ht : a.concern? r t = some x)
    (hu : b.concern? r u = some x) :
    Call.Together r ((a.turn s t).1.call, (a.turn s t).2)
      ((b.turn s' u).1.call, (b.turn s' u).2) := by
  rcases concern_turn_cases ht with ⟨i, hti, hi⟩ | ⟨m, n, rfl, rfl⟩
  · rcases concern_turn_cases hu with ⟨j, huj, hj⟩ | ⟨_, _, _, rfl⟩
    · rw [turn_of_input s hti, turn_of_input s' huj]
      exact Call.together_step h hs ha hb hi hj
    · exact absurd hi (Call.concern_ne_network _ _)
  · rcases concern_turn_cases hu with ⟨j, _, hj⟩ | ⟨m', n', rfl, hnetwork⟩
    · exact absurd hj (Call.concern_ne_network _ _)
    · obtain ⟨hplace, rfl⟩ := Concern.network.inj hnetwork
      exact ⟨disturb_together h ha hb hplace n, rfl⟩

/-! ## Runs -/

/-- What concerns a participant in a run, with the own connection id at the time and the connection
that could be made to the participant. -/
def course (r : String) (a : Agent κ) :
    List (Setting κ × Turn κ) → List (Option String × Option κ × Concern (Connection.Network κ))
  | [] => []
  | (s, t) :: rest =>
    ((a.concern? r t).map fun x => (s.me, s.connect r, x)).toList ++ (a.turn s t).1.course r rest

theorem course_cons_of_none (h : a.concern? r t = none) (s : Setting κ)
    (rest : List (Setting κ × Turn κ)) :
    a.course r ((s, t) :: rest) = (a.turn s t).1.course r rest := by
  rw [course, h]
  rfl

theorem course_cons_of_some (h : a.concern? r t = some x) (s : Setting κ)
    (rest : List (Setting κ × Turn κ)) :
    a.course r ((s, t) :: rest) = (s.me, s.connect r, x) :: (a.turn s t).1.course r rest := by
  rw [course, h]
  rfl

/-- The call and the effects of a run. -/
def outcome (a : Agent κ) (history : List (Setting κ × Turn κ)) : Call.Step κ :=
  ((a.run history).1.call, (a.run history).2)

theorem outcome_cons (a : Agent κ) (s : Setting κ) (t : Turn κ)
    (rest : List (Setting κ × Turn κ)) :
    a.outcome ((s, t) :: rest) =
      Call.Step.andThen ((a.turn s t).1.call, (a.turn s t).2) fun _ =>
        (a.turn s t).1.outcome rest := rfl

/-- The participant does not see a turn that does not concern it. -/
theorem outcome_cons_apart (h : a.call.Proper) (ht : a.concern? r t = none) (s : Setting κ)
    (rest : List (Setting κ × Turn κ)) :
    Call.Together r (a.outcome ((s, t) :: rest)) ((a.turn s t).1.outcome rest) :=
  .after_apart (f := fun _ => (a.turn s t).1.outcome rest) (apart_turn h s ht) ⟨.refl r _, rfl⟩

/-- Runs in which the same concerns a participant lead to calls that are alike, and send the
participant the same. -/
theorem together_run (ha : a.Orderly) (hb : b.Orderly) (h : Call.Alike r a.call b.call)
    {history history' : List (Setting κ × Turn κ)}
    (hcourse : a.course r history = b.course r history') :
    Call.Together r (a.outcome history) (b.outcome history') := by
  induction history generalizing a b history' with
  | nil =>
      induction history' generalizing b with
      | nil => exact ⟨h, rfl⟩
      | cons p rest ih =>
          obtain ⟨s, u⟩ := p
          cases hu : b.concern? r u with
          | some x =>
              rw [course_cons_of_some hu] at hcourse
              cases hcourse
          | none =>
              rw [course_cons_of_none hu] at hcourse
              have hapart := apart_turn hb.proper s hu
              have hrest := ih (hb.turn s u).orderly (h.trans hapart.alike) hcourse
              exact hrest.trans (outcome_cons_apart hb.proper hu s rest).symm
  | cons p rest ih =>
      obtain ⟨s, t⟩ := p
      cases ht : a.concern? r t with
      | none =>
          rw [course_cons_of_none ht] at hcourse
          have hapart := apart_turn ha.proper s ht
          have hrest := ih (ha.turn s t).orderly hb (hapart.alike.symm.trans h) hcourse
          exact (outcome_cons_apart ha.proper ht s rest).trans hrest
      | some x =>
          rw [course_cons_of_some ht] at hcourse
          -- The other run comes to the same after turns that do not concern the participant.
          induction history' generalizing b with
          | nil => cases hcourse
          | cons p' rest' ih' =>
              obtain ⟨s', u⟩ := p'
              cases hu : b.concern? r u with
              | none =>
                  rw [course_cons_of_none hu] at hcourse
                  have hapart := apart_turn hb.proper s' hu
                  have hrest := ih' (hb.turn s' u).orderly (h.trans hapart.alike) hcourse
                  exact hrest.trans (outcome_cons_apart hb.proper hu s' rest').symm
              | some y =>
                  rw [course_cons_of_some hu, List.cons.injEq, Prod.mk.injEq, Prod.mk.injEq]
                    at hcourse
                  obtain ⟨⟨hme, hconnect, rfl⟩, hrest⟩ := hcourse
                  have hturn := together_turn h ⟨hme, hconnect⟩ ha.proper hb.proper ht hu
                  rw [outcome_cons, outcome_cons]
                  exact hturn.andThen (f := fun _ => (a.turn s t).1.outcome rest)
                    (g := fun _ => (b.turn s' u).1.outcome rest') fun h =>
                      ih (ha.turn s t).orderly (hb.turn s' u).orderly h hrest

/-! ## Others -/

/-- A message of this client itself, for somebody else, or for everyone and no request, does nothing
to an agent. -/
theorem turn_of_not_concerns {m : Message} (h : Call.concerns s m = false) (a : Agent κ) :
    a.turn s (.session (.message m)) = (a, []) := by
  have hstep : a.call.step s (.session (.message m)) = (a.call, []) := by
    change a.call.onSession s (.message m) = _
    unfold Call.onSession
    split
    · rfl
    · exact Call.onMessage_of_not_concerns h a.call
  cases hrunning : a.running with
  | false =>
      change a.perform s (.session (.message m)) = _
      exact perform_of_not_running s _ hrunning
  | true =>
      change a.perform s (.session (.message m)) = _
      rw [perform_of_running s _ hrunning, hstep]
      simp [reports, requested]

/-- Take two runs of an agent in which a participant does the same, the user does, and the devices
do, whatever the others do and whatever happens to their connections. The link to the participant
is the same after both but for its number, and the participant was sent the same by both. Of what
others say, much is passed over altogether: what this client sent itself, what is for somebody
else, and what is for everyone and neither asks for streams nor says that one stopped. -/
theorem undisturbed_by_others (r : String) (history history' : List (Setting κ × Turn κ)) :
    (({} : Agent κ).course r history = ({} : Agent κ).course r history' →
      let one := ({} : Agent κ).run history
      let other := ({} : Agent κ).run history'
      (one.1.call.links.find? r).map Link.bare = (other.1.call.links.find? r).map Link.bare ∧
        Call.sentTo r one.2 = Call.sentTo r other.2) ∧
    ∀ (s : Setting κ) (a : Agent κ) (m : Message),
      s.me = some m.sender ∨ (∃ target, m.target = some target ∧ s.me ≠ some target) ∨
        (m.target = none ∧ m.action ∉ [.streamInquiry, .pingChannel, .stopStream]) →
      a.turn s (.session (.message m)) = (a, []) := by
  constructor
  · intro hcourse
    have htogether := together_run .empty .empty (.refl r _) hcourse
    exact ⟨htogether.alike.link, htogether.sent⟩
  · intro s a m hm
    refine turn_of_not_concerns ?_ a
    unfold Call.concerns
    rcases hm with hown | ⟨target, htarget, hother⟩ | ⟨htarget, haction⟩
    · rw [if_pos hown]
    · rw [htarget]
      simp [hother]
    · simp only [List.mem_cons, List.not_mem_nil, not_or] at haction
      obtain ⟨hinquiry, hping, hstop, -⟩ := haction
      rw [htarget]
      split
      · rfl
      · dsimp only
        split <;> first | contradiction | rfl

instance : DecidableEq (Connection.Network Peer) := inferInstanceAs (DecidableEq IceState)

/-- A third participant asks for streams first, so that the link to the second one has another
number, and its connection fails before this client publishes a stream. -/
theorem undisturbed_by_others_third :
    let s : Setting := ⟨some "bob", fun _ => some { label := "bob" }, 0⟩
    let hear (sender : String) (e : Event) : Setting × Turn :=
      (s, .session (.message { topic := "room", sender, event := e }))
    let publish : List (Setting × Turn) :=
      [(s, .start true), (s, .answered ⟨0, true, 0⟩ (.ok ⟨[⟨"cam", .video⟩]⟩)), (s, .media)]
    let history := hear "ann" (.startStream (some "bob")) :: (s, .signal) :: publish
    let history' := hear "zoe" (.streamInquiry none) :: hear "ann" (.startStream (some "bob")) ::
      (s, .network "zoe" 1 .failed) :: (s, .signal) :: publish ++ [hear "zoe" (.stopStream none)]
    let overheard : Message := { sender := "zoe", event := .startStream (some "ann") }
    ({} : Agent).course "ann" history = ({} : Agent).course "ann" history' ∧
      ((({} : Agent).run history).1.call.links.find? "ann").map (·.serial) = some 1 ∧
      ((({} : Agent).run history').1.call.links.find? "ann").map (·.serial) = some 2 ∧
      ((({} : Agent).run history).1.call.links.find? "ann").map Link.bare =
        ((({} : Agent).run history').1.call.links.find? "ann").map Link.bare ∧
      (Call.sentTo "ann" (({} : Agent).run history).2).length = 2 ∧
      Call.sentTo "ann" (({} : Agent).run history).2 =
        Call.sentTo "ann" (({} : Agent).run history').2 ∧
      ({} : Agent).turn s (.session (.message overheard)) = ({}, []) := by
  intro s hear publish history history' overheard
  have hcourse : ({} : Agent).course "ann" history = ({} : Agent).course "ann" history' := by
    decide +kernel
  obtain ⟨hsame, hpassed⟩ := undisturbed_by_others "ann" history history'
  obtain ⟨hlink, hsent⟩ := hsame hcourse
  refine ⟨hcourse, by decide +kernel, by decide +kernel, hlink, by decide +kernel, hsent, ?_⟩
  exact hpassed s {} overheard (.inr (.inl ⟨"ann", rfl, by decide⟩))

end Agent

end Parley
