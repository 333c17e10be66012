import Parley.Proofs.Client.Handlers
import Parley.Proofs.Client.Register

/-!
# What a client does to its sessions

Only the opening and the closing of a session change the register of a client and its listeners;
whatever else happens leaves both as they are (`Client.SameSessions`). So a client whose listeners
were made by sessions keeps a router that holds its live sessions (`Client.Registered`), and what a
session asks for when it opens and when it closes is told by whether the topic had a live session
before and has one afterwards.
-/

namespace Parley

namespace Session

variable (me : Option String) (palette : Palette) (m : Message) (s : Session)

/-- What a session hears changes neither its topic nor its subscription. -/
theorem hear_place : (s.hear me palette m).1.topic = s.topic ∧
    (s.hear me palette m).1.subscription = s.subscription := by
  unfold hear
  split
  · exact ⟨rfl, rfl⟩
  · dsimp only
    split <;> exact ⟨rfl, rfl⟩
  all_goals exact ⟨rfl, rfl⟩

end Session

namespace Client

variable {σ : Type}

/-! ## What leaves sessions as they are -/

def register (c : Client σ) : Register := c.sessions.map fun s => (s.topic, s.subscription)

/-- Whether a session on the topic is live. -/
def isMember (c : Client σ) (topic : String) : Bool :=
  c.sessions.any fun s => s.topic = topic && s.isLive

theorem isMember_iff_exists {c : Client σ} {topic : String} :
    c.isMember topic = true ↔ ∃ s ∈ c.sessions, s.topic = topic ∧ s.isLive = true := by
  simp only [isMember, List.any_eq_true, Bool.and_eq_true, decide_eq_true_eq]

theorem isMember_eq_true_iff {c : Client σ} {topic : String} :
    c.isMember topic = true ↔
      ∃ (i : Nat) (u : Subscription), c.register[i]? = some (topic, some u) := by
  simp only [isMember, List.any_eq_true, Bool.and_eq_true, decide_eq_true_eq, register,
    List.getElem?_map, Option.map_eq_some_iff, Session.isLive, Option.isSome_iff_exists,
    List.mem_iff_getElem?, Prod.mk.injEq]
  constructor
  · rintro ⟨s, ⟨i, hs⟩, htopic, u, hu⟩
    exact ⟨i, u, s, hs, htopic, hu⟩
  · rintro ⟨i, u, s, hs, htopic, hu⟩
    exact ⟨s, ⟨i, hs⟩, htopic, u, hu⟩

/-- The second client has the listeners of the first, and its sessions on the same topics. -/
structure SameSessions (c c' : Client σ) : Prop where
  router : c'.router = c.router
  hooks : c'.hooks = c.hooks
  register : c'.register = c.register

namespace SameSessions

theorem refl (c : Client σ) : SameSessions c c := ⟨rfl, rfl, rfl⟩

theorem trans {c d e : Client σ} (h : SameSessions c d) (h' : SameSessions d e) :
    SameSessions c e :=
  ⟨h'.router.trans h.router, h'.hooks.trans h.hooks, h'.register.trans h.register⟩

theorem foldl {α : Type} {f : Client σ → α → Client σ} (h : ∀ c a, SameSessions c (f c a))
    (l : List α) (c : Client σ) : SameSessions c (l.foldl f c) := by
  induction l generalizing c with
  | nil => exact .refl c
  | cons a rest ih => exact (h c a).trans (ih _)

end SameSessions

theorem isMember_congr {c c' : Client σ} (h : SameSessions c c') (topic : String) :
    c'.isMember topic = c.isMember topic := by
  rw [Bool.eq_iff_iff, isMember_eq_true_iff, isMember_eq_true_iff, h.register]

/-- A session that keeps its topic and its subscription keeps its place in the register. -/
theorem sameSessions_set {c : Client σ} {i : Nat} {s s' : Session} (hs : c.sessions[i]? = some s)
    (htopic : s'.topic = s.topic) (hsubscription : s'.subscription = s.subscription)
    (palette : Palette) :
    SameSessions c { c with sessions := c.sessions.set i s', palette } := by
  refine ⟨rfl, rfl, List.ext_getElem? fun j => ?_⟩
  rw [register, register, List.map_set, List.getElem?_set]
  split
  · rename_i hj
    subst hj
    obtain ⟨hlt, -⟩ := List.getElem?_eq_some_iff.mp hs
    rw [List.length_map, if_pos hlt, List.getElem?_map, hs, htopic, hsubscription]
    rfl
  · rfl

theorem sameSessions_transmit (c : Client σ) (store : Bool) (topic : String) (e : Event) :
    SameSessions c (c.transmit store topic e).2 := by
  unfold transmit
  split <;> exact ⟨rfl, rfl, rfl⟩

theorem sameSessions_transmitAll (c : Client σ) (topic : String) (es : List Event) :
    SameSessions c (c.transmitAll topic es) :=
  .foldl (fun c e => c.sameSessions_transmit false topic e) es c

theorem sameSessions_resubscribe (c : Client σ) : SameSessions c c.resubscribe :=
  .foldl (fun c topic => c.sameSessions_transmit false topic .subscribe) _ c

theorem sameSessions_loadMore (c : Client σ) (index : Nat) :
    SameSessions c (c.loadMore index).2 := by
  unfold loadMore
  split
  · exact .refl c
  · rename_i s hs
    have hset : SameSessions c { c with sessions := c.sessions.set index s.loadMore.1 } :=
      sameSessions_set hs (by rfl) (by rfl) c.palette
    exact hset.trans (sameSessions_transmitAll _ _ _)

theorem sameSessions_hear (l : Listener) (m : Message) (c : Client σ) :
    SameSessions c (hear l m c).2 := by
  unfold hear
  split
  · exact ⟨rfl, rfl, rfl⟩
  · split
    · exact .refl c
    · rename_i s hs
      obtain ⟨htopic, hsubscription⟩ := s.hear_place c.connectionId c.palette m
      exact (sameSessions_set hs htopic hsubscription _).trans (sameSessions_transmitAll _ _ _)

theorem sameSessions_callAll (m : Message) (ls : List Listener) (c : Client σ) :
    SameSessions c (Router.callAll hear m ls c).2 := by
  induction ls generalizing c with
  | nil => exact .refl c
  | cons l rest ih => exact (sameSessions_hear l m c).trans (ih _)

theorem sameSessions_receive (bytes : List UInt8) (c : Client σ) :
    SameSessions c (receive bytes c).1 := by
  unfold receive
  split
  · exact .refl c
  · split
    · exact ⟨rfl, rfl, rfl⟩
    · split
      · exact .refl c
      · split
        · exact .refl c
        · exact sameSessions_callAll _ _ c

/-! ## Registered sessions -/

/-- Whether a turn makes no listener and neither opens nor closes a session. -/
def Turn.keepsSessions : Turn σ → Bool
  | .input (.addHook ..) | .input (.openSession ..) | .input (.closeSession _) => false
  | _ => true

theorem Turn.of_keepsSessions_eq_false {t : Turn σ} (h : t.keepsSessions = false) :
    (∃ name topic outcome, t = .input (.addHook name topic outcome)) ∨
    (∃ topic pageSize, t = .input (.openSession topic pageSize)) ∨
    ∃ index, t = .input (.closeSession index) := by
  cases t with
  | clock | markers => cases h
  | input i =>
    cases i with
    | addHook name topic outcome => exact .inl ⟨name, topic, outcome, rfl⟩
    | openSession topic pageSize => exact .inr (.inl ⟨topic, pageSize, rfl⟩)
    | closeSession index => exact .inr (.inr ⟨index, rfl⟩)
    | _ => cases h

/-- Listeners were made by sessions only. -/
structure Registered (c : Client σ) : Prop where
  noHooks : c.hooks = .empty
  roll : Roll c.router c.register

namespace Registered

theorem create (config : ClientConfig) (markers : σ) : (Client.create config markers).Registered :=
  ⟨rfl, .empty⟩

theorem congr {c c' : Client σ} (h : SameSessions c c') (hc : c.Registered) : c'.Registered where
  noHooks := h.hooks.trans hc.noHooks
  roll := by
    rw [h.router, h.register]
    exact hc.roll

/-- A topic has a live session if it has a listener. -/
theorem isMember_eq {c : Client σ} (hc : c.Registered) (topic : String) :
    c.isMember topic = !(c.router.entries topic).isEmpty := by
  rw [Bool.eq_iff_iff, isMember_eq_true_iff, ← hc.roll.entries_ne_nil_iff]
  simp

/-- A session takes a place of its own. -/
theorem enter {c : Client σ} (hc : c.Registered) {topic : String} {u : Subscription}
    {router : Router Listener}
    (hsubscribe : c.router.subscribe topic (.session c.sessions.length) = (u, router))
    {s : Session} (hs : (s.topic, s.subscription) = (topic, some u)) :
    let d : Client σ := { c with router, sessions := c.sessions ++ [s] }
    d.Registered ∧ d.isMember topic = true ∧
      ∀ topic', topic' ≠ topic → d.isMember topic' = c.isMember topic' := by
  intro d
  have hroll := hc.roll.enter topic
  rw [show c.register.length = c.sessions.length from List.length_map _, hsubscribe] at hroll
  have hd : d.Registered := by
    refine ⟨hc.noHooks, ?_⟩
    rw [register, List.map_append, List.map_singleton, hs]
    exact hroll
  have hentries := Router.entries_subscribe c.router topic (l := .session c.sessions.length)
  rw [hsubscribe] at hentries
  refine ⟨hd, ?_, fun topic' htopic => ?_⟩
  · rw [hd.isMember_eq, hentries, if_pos rfl]
    simp
  · rw [hd.isMember_eq, hentries, if_neg htopic, hc.isMember_eq]

/-- A session gives up its place; whether it was the last one of its topic is known by then. -/
theorem leave {c : Client σ} (hc : c.Registered) {index : Nat} {s : Session} {u : Subscription}
    (hs : c.sessions[index]? = some s) (hu : s.subscription = some u) {last : Bool}
    {router : Router Listener} (hrelease : c.router.release u = (last, router)) :
    let d : Client σ := { c with router, sessions := c.sessions.set index s.close }
    d.Registered ∧ c.isMember s.topic = true ∧ last = !d.isMember s.topic ∧
      ∀ topic, topic ≠ s.topic → d.isMember topic = c.isMember topic := by
  intro d
  have hplace : c.register[index]? = some (s.topic, some u) := by
    rw [register, List.getElem?_map, hs, Option.map_some, hu]
  have hroll := hc.roll.leave hplace
  have hlast := hc.roll.last_iff hplace
  have hentries := Router.entries_release c.router u
  rw [hrelease] at hroll hlast hentries
  have hd : d.Registered := by
    refine ⟨hc.noHooks, ?_⟩
    rw [register, List.map_set]
    exact hroll
  refine ⟨hd, isMember_eq_true_iff.mpr ⟨index, u, hplace⟩, ?_, fun topic htopic => ?_⟩
  · rw [hd.isMember_eq, Bool.not_not, Bool.eq_iff_iff, hlast, List.isEmpty_iff]
  · rw [hd.isMember_eq, hentries, hc.roll.topic hplace, if_neg htopic, hc.isMember_eq]

/-- A session that opens takes its place before it asks for anything. -/
theorem openSession {c : Client σ} (hc : c.Registered) (topic : String) (pageSize : UInt32) :
    ∃ router sessions, let d : Client σ := { c with router, sessions }
      d.Registered ∧ d.isMember topic = true ∧
      (∀ topic', topic' ≠ topic → d.isMember topic' = c.isMember topic') ∧
      (c.openSession topic pageSize).2 =
        d.transmitAll topic
          (if c.isMember topic then [Session.rosterRequest] else [.subscribe]) := by
  cases hsubscribe : c.router.subscribe topic (.session c.sessions.length) with
  | mk u router =>
    obtain ⟨s, hs, hrequests⟩ : ∃ s : Session, (s.topic, s.subscription) = (topic, some u) ∧
        Session.create topic pageSize u =
          (s, if c.isMember topic then [Session.rosterRequest] else [.subscribe]) := by
      have hfirst : u.first = !c.isMember topic := by
        rw [hc.isMember_eq, Bool.not_not]
        cases hsubscribe
        rfl
      rw [Session.create, hfirst]
      cases c.isMember topic <;> exact ⟨_, rfl, rfl⟩
    obtain ⟨hd, hjoined, hother⟩ := hc.enter hsubscribe hs
    refine ⟨router, c.sessions ++ [s], hd, hjoined, hother, ?_⟩
    rw [Client.openSession]
    dsimp only
    rw [hsubscribe, hrequests]

/-- A session that closes gives up its place before it asks for anything. -/
theorem closeSession {c : Client σ} (hc : c.Registered) (index : Nat) :
    c.closeSession index = c ∨ ∃ router sessions topic,
      let d : Client σ := { c with router, sessions }
      d.Registered ∧ c.isMember topic = true ∧
      (∀ topic', topic' ≠ topic → d.isMember topic' = c.isMember topic') ∧
      c.closeSession index =
        d.transmitAll topic (if d.isMember topic then [] else [.unsubscribe]) := by
  unfold Client.closeSession
  cases hs : c.sessions[index]? with
  | none => exact .inl rfl
  | some s =>
    dsimp only
    cases hu : s.subscription with
    | none => exact .inl rfl
    | some u =>
      dsimp only
      cases hrelease : c.router.release u with
      | mk last router =>
        obtain ⟨hd, hmember, hlast, hother⟩ := hc.leave hs hu hrelease
        refine .inr ⟨router, c.sessions.set index s.close, s.topic, hd, hmember, hother, ?_⟩
        dsimp only
        rw [hlast]
        cases Client.isMember _ s.topic <;> rfl

variable [MarkerStore σ]

theorem sameSessions_turn {c : Client σ} {t : Turn σ} (hc : c.Registered)
    (hkeeps : t.keepsSessions = true) : SameSessions c (c.turn t).1 := by
  have hhandling := handling_turn c t
  generalize c.turn t = s at hhandling ⊢
  cases hhandling with
  | supervised hs => exact ⟨hs.router, hs.hooks, by rw [register, hs.sessions, register]⟩
  | @opened k =>
      have h := sameSessions_resubscribe
        { c with connectionId := some k.connectionId, outbound := some [] }
      exact ⟨h.router, h.hooks, h.register⟩
  | @received bytes => exact sameSessions_receive bytes c
  | flushed => exact ⟨rfl, rfl, rfl⟩
  | transmitted store topic e => exact c.sameSessions_transmit store topic e
  | unhooked name =>
      rw [removeHook, hc.noHooks, Table.find?_empty]
      exact .refl c
  | dispatched m => exact sameSessions_callAll m _ c
  | asked index => exact c.sameSessions_loadMore index
  | hooked | joined | left => cases hkeeps

theorem turn {c : Client σ} {t : Turn σ} (hc : c.Registered)
    (hhook : ∀ name topic outcome, t ≠ .input (.addHook name topic outcome)) :
    (c.turn t).1.Registered := by
  cases hkeeps : t.keepsSessions with
  | true => exact hc.congr (hc.sameSessions_turn hkeeps)
  | false =>
    rcases Turn.of_keepsSessions_eq_false hkeeps with
      ⟨name, topic, outcome, rfl⟩ | ⟨topic, pageSize, rfl⟩ | ⟨index, rfl⟩
    · exact absurd rfl (hhook name topic outcome)
    · obtain ⟨router, sessions, hd, -, -, heq⟩ := hc.openSession topic pageSize
      change (c.openSession topic pageSize).2.Registered
      rw [heq]
      exact hd.congr (sameSessions_transmitAll ..)
    · change (c.closeSession index).Registered
      rcases hc.closeSession index with heq | ⟨router, sessions, topic, hd, -, -, heq⟩
      · rw [heq]
        exact hc
      · rw [heq]
        exact hd.congr (sameSessions_transmitAll ..)

theorem run {c : Client σ} {ts : List (Turn σ)} (hc : c.Registered)
    (hhook : ∀ name topic outcome, .input (.addHook name topic outcome) ∉ ts) :
    (c.run ts).1.Registered := by
  induction ts generalizing c with
  | nil => exact hc
  | cons t rest ih =>
      refine ih (hc.turn fun name topic outcome ht => ?_) fun name topic outcome ht => ?_
      · exact hhook name topic outcome (ht ▸ List.mem_cons_self)
      · exact hhook name topic outcome (List.mem_cons_of_mem _ ht)

end Registered

end Client

end Parley
