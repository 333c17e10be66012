import Parley.Proofs.Call.Accounts
import Parley.Proofs.Call.Reception

/-!
# Senders that stopped

When a participant stops sending, its link is left without remote tracks, and the user interface is
told so. What the connection reported of tracks before may still wait for the call, and nothing ties
these reports to the sending that stopped: those that are taken later bring their tracks back. These
are all tracks that come back until a description of the participant is applied
(`Agent.stopped_receives_what_waits`), so a participant of whom no track waits is silent.
-/

namespace Parley.Agent

section

variable {κ : Type} [Connection κ]

/-- The remote media of the link to a participant. -/
def mediaOf (r : String) (a : Agent κ) : MediaStream :=
  ((a.call.links.find? r).map (·.media)).getD {}

/-- The tracks of the link to a participant whose reports the agent has not taken. -/
def tracksWaiting (r : String) (a : Agent κ) : List Track :=
  ((a.call.links.find? r).map fun l => tracksIn (Call.eventsFrom r l.serial a.signals)).getD []

omit [Connection κ] in
theorem tracksWaiting_eq {a : Agent κ} {r : String} {l : Link κ}
    (hl : a.call.links.find? r = some l) :
    a.tracksWaiting r = tracksIn (Call.eventsFrom r l.serial a.signals) := by
  rw [tracksWaiting, hl]
  rfl

omit [Connection κ] in
/-- Reports of a link bring no tracks but these if each of them does. -/
theorem tracksIn_subset_iff {r : String} {n : Nat} {signals : List PeerSignal}
    {ts : List Track} :
    tracksIn (Call.eventsFrom r n signals) ⊆ ts ↔
      ∀ x ∈ signals, x.remote = r → x.serial = n → tracksIn [x.event] ⊆ ts := by
  constructor
  · intro h x hx hr hn t ht
    obtain ⟨e, he, ht⟩ := List.mem_filterMap.mp ht
    obtain rfl := List.mem_singleton.mp he
    refine h (List.mem_filterMap.mpr ⟨x.event, ?_, ht⟩)
    exact List.mem_map_of_mem (List.mem_filter.mpr ⟨hx, by simp [hr, hn]⟩)
  · intro h t ht
    obtain ⟨e, he, ht⟩ := List.mem_filterMap.mp ht
    obtain ⟨x, hx, rfl⟩ := List.mem_map.mp he
    obtain ⟨hx, heq⟩ := List.mem_filter.mp hx
    obtain ⟨hr, hn⟩ := of_decide_eq_true heq
    exact h x hx hr hn (List.mem_filterMap.mpr ⟨x.event, List.mem_cons_self, ht⟩)

theorem mem_signals_perform {s : Setting κ} {i : Call.Input} {a : Agent κ} {x : PeerSignal}
    (h : x ∈ (a.perform s i).1.signals) : x ∈ a.signals ∨ x ∈ reports (a.perform s i).2 := by
  unfold perform at h ⊢
  split at h
  · exact .inl h
  · rename_i hrunning
    rw [if_neg hrunning]
    exact List.mem_append.mp h

/-- A report waits since this turn or since before. -/
theorem mem_signals_turn {s : Setting κ} {a : Agent κ} {t : Turn κ} {x : PeerSignal}
    (h : x ∈ (a.turn s t).1.signals) :
    x ∈ a.signals ∨ x ∈ reports (a.turn s t).2 ∨
      ∃ remote serial n p, t = .network remote serial n ∧
        x.event ∈ (Connection.network p n).2 := by
  cases t with
  | session | sessionEnded | start | leave => exact (mem_signals_perform h).imp_right .inl
  | teardown | dropped => cases h
  | signal =>
      change x ∈ (a.takeSignal s).1.signals at h
      change x ∈ a.signals ∨ x ∈ reports (a.takeSignal s).2 ∨ _
      unfold takeSignal at h ⊢
      split at h
      · exact .inl h
      · rename_i y signals hsignals
        rcases mem_signals_perform h with hold | hnew
        · exact .inl (hsignals ▸ List.mem_cons_of_mem y hold)
        · rw [hsignals]
          exact .inr (.inl hnew)
  | media =>
      change x ∈ (a.takeAnswer s).1.signals at h
      change x ∈ a.signals ∨ x ∈ reports (a.takeAnswer s).2 ∨ _
      unfold takeAnswer at h ⊢
      split at h
      · exact .inl h
      · rcases mem_signals_perform h with hold | hnew
        · exact .inl hold
        · exact .inr (.inl hnew)
  | answered q result =>
      change x ∈ (a.answer q result).signals at h
      unfold Agent.answer at h
      split at h <;> exact .inl h
  | network remote serial n =>
      change x ∈ (a.disturb remote serial n).signals at h
      unfold disturb at h
      split at h
      · exact .inl h
      · rename_i l _
        dsimp only at h
        split at h
        · rcases List.mem_append.mp h with hold | hnew
          · exact .inl hold
          · obtain ⟨e, he, rfl⟩ := List.mem_map.mp hnew
            exact .inr (.inr ⟨remote, serial, n, l.peer, rfl, he⟩)
        · exact .inl h

end

/-! ## Turns without descriptions -/

/-- Whether the call applies a description of a participant in a turn. -/
def applies (s : Setting) (r : String) (a : Agent) (t : Turn) : Bool :=
  (a.input? t).any fun i => a.call.applies s r i

/-- A history in which no description of a participant is applied. -/
def Undescribed (r : String) : Agent → List (Setting × Turn) → Prop
  | _, [] => True
  | a, (s, t) :: rest => a.applies s r t = false ∧ Undescribed r (a.turn s t).1 rest

instance decidableUndescribed (r : String) :
    (a : Agent) → (history : List (Setting × Turn)) → Decidable (Undescribed r a history)
  | _, [] => inferInstanceAs (Decidable True)
  | a, (s, t) :: rest =>
    have := decidableUndescribed r (a.turn s t).1 rest
    inferInstanceAs (Decidable (_ ∧ _))

/-- The link to a participant receives none but these tracks, and no report of another track of it
waits. -/
structure Plays (r : String) (ts : List Track) (a : Agent) : Prop where
  orderly : a.Orderly
  media : ∀ l, a.call.links.find? r = some l → l.media.tracks ⊆ ts
  waiting : a.tracksWaiting r ⊆ ts

namespace Plays

variable {r : String} {ts : List Track} {a : Agent} {s : Setting} {t : Turn}

theorem call (h : a.Plays r ts) : a.call.Plays r ts := ⟨h.orderly.proper.remote, h.media⟩

/-- The signal that a turn takes is one that waited. -/
theorem of_input (h : a.Plays r ts) {x : PeerSignal} (hi : a.input? t = some (.signal x))
    (hr : x.remote = r) {l : Link} (hl : a.call.links.find? r = some l)
    (hserial : l.serial = x.serial) : tracksIn [x.event] ⊆ ts := by
  have hmem : x ∈ a.signals := by
    obtain ⟨-, hgives⟩ := gives_of_input hi
    cases hgives with
    | signal hsignals => exact hsignals ▸ List.mem_cons_self
  have hwaiting := h.waiting
  rw [tracksWaiting_eq hl] at hwaiting
  exact tracksIn_subset_iff.mp hwaiting x hmem hr hserial.symm

theorem limits_turn (h : a.Plays r ts) (ht : a.applies s r t = false) :
    Call.Limits r ts ((a.turn s t).1.call, (a.turn s t).2) := by
  refine turn_cases s a t ?_ (.nothing h.call) ?_
  · intro i hi
    refine Call.limits_step h.call ?_ fun x hx hr l hl hserial => ?_
    · simpa [applies, hi] using ht
    · subst hx
      exact h.of_input hi hr hl hserial
  · intro remote serial n _
    refine .nothing (h.call.follow ?_)
    intro r' k hk
    obtain ⟨l, hl, rfl⟩ := Call.find?_of_updatePeer hk
    refine ⟨l, hl, ?_⟩
    split
    · exact ⟨rfl, rfl, rfl⟩
    · exact .rfl

/-- Of a link that was just made no report waited, and no connection to the participant reports a
track. -/
theorem turn (h : a.Plays r ts) (ht : a.applies s r t = false) :
    (a.turn s t).1.Plays r ts := by
  have hlimits := h.limits_turn ht
  have hturned := h.orderly.turn s t
  refine ⟨hturned.orderly, hlimits.plays.media, ?_⟩
  cases hk : (a.turn s t).1.call.links.find? r with
  | none =>
      rw [tracksWaiting, hk]
      exact List.nil_subset ts
  | some k =>
      obtain ⟨l, horigin, hserial, -⟩ := hturned.carries r k hk
      rw [tracksWaiting_eq hk, tracksIn_subset_iff]
      intro x hx hr hn
      have hnone : x.event.track? = none → tracksIn [x.event] ⊆ ts := by
        intro hnone
        rw [tracksIn_eq_nil_iff.mpr (by simpa using hnone)]
        exact List.nil_subset ts
      rcases mem_signals_turn hx with hold | hnew | ⟨_, _, n, p, -, hevent⟩
      · cases horigin with
        | stands hl =>
            have hwaiting := h.waiting
            rw [tracksWaiting_eq hl] at hwaiting
            exact tracksIn_subset_iff.mp hwaiting x hold hr (hn.trans hserial)
        | made _ _ hmade =>
            have hpast := h.orderly.past x hold
            dsimp only at hserial
            omega
      · exact hnone (hlimits.reports x hnew hr)
      · have hice : x.event = .iceChanged n := List.mem_singleton.mp hevent
        exact hnone (by rw [hice]; rfl)

theorem run (h : a.Plays r ts) {history : List (Setting × Turn)}
    (hhistory : Undescribed r a history) :
    (a.run history).1.Plays r ts ∧
      ∀ m ∈ Call.mediaTold r (a.run history).2, m.isEmpty = false ∧ m.tracks ⊆ ts := by
  induction history generalizing a with
  | nil => exact ⟨h, nofun⟩
  | cons st rest ih =>
      obtain ⟨ht, hrest⟩ := hhistory
      obtain ⟨hplays, htold⟩ := ih (h.turn ht) hrest
      refine ⟨hplays, ?_⟩
      intro m hm
      change m ∈ Call.mediaTold r ((a.turn st.1 st.2).2 ++ _) at hm
      rw [Call.mediaTold_append] at hm
      rcases List.mem_append.mp hm with hm | hm
      · exact (h.limits_turn ht).told m hm
      · exact htold m hm

end Plays

/-! ## The stop -/

/-- When a stop is taken, the link of its sender is left without remote tracks and nothing is told
of it. What waits goes on waiting. -/
theorem Orderly.stop {a : Agent} (h : a.Orderly) {s : Setting} {m : Message}
    {target : Option String} (hm : Call.concerns s m = true) (hstop : m.event = .stopStream target) :
    Call.mediaTold m.sender (a.turn s (.session (.message m))).2 = [] ∧
      (a.turn s (.session (.message m))).1.mediaOf m.sender = {} ∧
      (a.turn s (.session (.message m))).1.Plays m.sender (a.tracksWaiting m.sender) := by
  obtain ⟨htold, hreports, hlink⟩ := Call.onSession_stop a.call hm hstop h.ended
  have horderly := (h.turn s (.session (.message m))).orderly
  have hturn : a.turn s (.session (.message m)) = a.perform s (.session (.message m)) := rfl
  cases hrunning : a.running with
  | false =>
      have hnone : a.call.links.find? m.sender = none := by
        rw [h.ended (h.stopped hrunning)]
        exact Table.find?_empty ..
      rw [hturn, perform_of_not_running s _ hrunning]
      refine ⟨rfl, by rw [mediaOf, hnone]; rfl, h, fun l hl => ?_, List.Subset.refl _⟩
      rw [hnone] at hl
      cases hl
  | true =>
      rw [hturn, perform_of_running s _ hrunning] at horderly ⊢
      let c := (a.call.onSession s (.message m)).1
      have hlink : c.links.find? m.sender = _ := hlink
      refine ⟨htold, ?_, horderly, fun k hk => ?_, ?_⟩
      · change ((c.links.find? m.sender).map (·.media)).getD {} = {}
        rw [hlink]
        cases a.call.links.find? m.sender <;> rfl
      · obtain ⟨l, -, rfl⟩ := Option.map_eq_some_iff.mp (hlink.symm.trans hk)
        exact List.nil_subset _
      · change ((c.links.find? m.sender).map fun l => tracksIn (Call.eventsFrom m.sender l.serial
          (a.signals ++ reports (a.call.onSession s (.message m)).2))).getD [] ⊆ _
        rw [hlink, hreports, List.append_nil, Option.map_map]
        exact List.Subset.refl _

/-- Whatever an agent lived through, let it take the stop of a participant and go on, in any order
and without applying a description of this participant. The stop leaves the link without remote
tracks and the participant out of the streams that are told of. After that only tracks of which a
report waited when the stop was taken are on the link, or in what is told of the participant. If
none waited, the link stays without remote tracks and the participant is in no streams. -/
theorem stopped_receives_what_waits (before : List (Setting × Turn)) (s : Setting) {m : Message}
    {target : Option String} (concerns : Call.concerns s m = true)
    (stops : m.event = .stopStream target) {after : List (Setting × Turn)}
    (undescribed : Undescribed m.sender ((run {} before).1.turn s (.session (.message m))).1 after) :
    let a := (run {} before).1
    let b := a.turn s (.session (.message m))
    let c := b.1.run after
    let ts := a.tracksWaiting m.sender
    Call.mediaTold m.sender b.2 = [] ∧ b.1.mediaOf m.sender = {} ∧
      (c.1.mediaOf m.sender).tracks ⊆ ts ∧
      (∀ media ∈ Call.mediaTold m.sender c.2, media.isEmpty = false ∧ media.tracks ⊆ ts) ∧
      (ts = [] → c.1.mediaOf m.sender = {} ∧ Call.mediaTold m.sender c.2 = []) := by
  intro a b c ts
  obtain ⟨hquiet, hcleared, hb⟩ := (Orderly.empty.run before).stop concerns stops
  obtain ⟨hc, htold⟩ := hb.run undescribed
  have hmedia : (c.1.mediaOf m.sender).tracks ⊆ ts := by
    unfold mediaOf
    cases hl : c.1.call.links.find? m.sender with
    | none => exact List.nil_subset ts
    | some l => exact hc.media l hl
  refine ⟨hquiet, hcleared, hmedia, htold, ?_⟩
  intro hnone
  rw [hnone] at hmedia
  refine ⟨congrArg MediaStream.mk (List.subset_nil.mp hmedia), ?_⟩
  rw [List.eq_nil_iff_forall_not_mem]
  intro media hm
  obtain ⟨hfull, hsubset⟩ := htold media hm
  rw [show a.tracksWaiting m.sender = [] from hnone] at hsubset
  rw [MediaStream.isEmpty, List.subset_nil.mp hsubset] at hfull
  cases hfull

/-- All reports were taken before the stop, which takes the track back. Then another participant
sends one, and the streams that are told of have its track alone. -/
theorem stopped_receives_what_waits_taken :
    let s : Setting := { me := some "me", connect := fun _ => some { label := "me" } }
    let say (sender : String) (e : Event) : Message := { sender, event := e }
    let offer (track : String) : Event :=
      .signal (.ofDescription "me" ⟨.offer, "a=track:" ++ track ++ " video"⟩)
    let before : List (Setting × Turn) :=
      [(s, .session (.message (say "peer" (offer "p")))), (s, .signal), (s, .signal), (s, .signal)]
    let a := (run {} before).1
    let b := (a.turn s (.session (.message (say "peer" (.stopStream none))))).1
    let after : List (Setting × Turn) :=
      [(s, .session (.message (say "zoe" (offer "z")))), (s, .signal)]
    a.mediaOf "peer" = ⟨[⟨"p", .video⟩]⟩ ∧ a.tracksWaiting "peer" = [] ∧
      Call.told (b.run after).2 = [.streamsUpdated [("zoe", ⟨[⟨"z", .video⟩]⟩)]] ∧
      (b.run after).1.mediaOf "peer" = {} ∧ Call.mediaTold "peer" (b.run after).2 = [] := by
  intro s say offer before a b after
  have hnone : a.tracksWaiting "peer" = [] := by decide
  have undescribed : Undescribed "peer" b after := by decide
  have hsilent : (b.run after).1.mediaOf "peer" = {} ∧
      Call.mediaTold "peer" (b.run after).2 = [] :=
    (stopped_receives_what_waits before s (m := say "peer" (.stopStream none)) (by decide) rfl
      undescribed).2.2.2.2 hnone
  refine ⟨by decide, hnone, ?_, hsilent⟩
  decide

/-- Here the report of the track waits when the stop is taken, and the next turn brings the track
back. -/
theorem stopped_track_comes_back :
    let s : Setting := { me := some "me", connect := fun _ => some { label := "me" } }
    let say (e : Event) : Message := { sender := "peer", event := e }
    let offer : Event := .signal (.ofDescription "me" ⟨.offer, "a=track:p video"⟩)
    let a := (run {} [(s, .session (.message (say offer)))]).1
    let b := (a.turn s (.session (.message (say (.stopStream none))))).1
    Call.concerns s (say (.stopStream none)) = true ∧ a.tracksWaiting "peer" = [⟨"p", .video⟩] ∧
      Undescribed "peer" b [(s, .signal)] ∧
      Call.told (b.turn s .signal).2 = [.streamsUpdated [("peer", ⟨[⟨"p", .video⟩]⟩)]] ∧
      (b.turn s .signal).1.mediaOf "peer" = ⟨[⟨"p", .video⟩]⟩ := by
  intro s say offer a b
  exact ⟨by decide, by decide, by decide, by decide, by decide⟩

end Parley.Agent
