import Parley.Proofs.Client.Handlers

/-!
# The life of a session

Much happens to a client of which one of its sessions learns nothing. What is left is its life: it
hears the messages on its topic, it asks for more of its backlog and it is closed, and with each of
these it may ask for something, which is sent or not. The life that a session has in a run of the
client (`Client.life`) is all that there is to say about it: what the session was when it was opened
and what it does in its life give what it is afterwards (`Client.lives_run`). Whatever is said about
sessions is then said about lives, and the client is of no concern any more.
-/

namespace Parley

namespace Session

/-! ## Lives -/

/-- What may happen to a session. -/
inductive Act where
  /-- A message is heard under the own connection id. -/
  | hears (me : Option String) (palette : Palette) (m : Message)
  | asksMore
  | closes

/-- A session after an act, and what it asks for. -/
def act (s : Session) : Act → Session × List Event
  | .hears me palette m => ((s.hear me palette m).1, (s.hear me palette m).2.2)
  | .asksMore => (s.loadMore.1, [s.loadMore.2])
  | .closes =>
    match s.subscription with
    | none => (s, [])
    | some _ => (s.close, [])

/-- An act, and what was asked for with it; true if that was sent. -/
structure Deed where
  act : Act
  requests : List (Event × Bool)

/-- A session, what happens to it, and what it is afterwards. -/
inductive Lives : Session → List Deed → Session → Prop
  | rest (s : Session) : Lives s [] s
  | act {s s' : Session} {d : Deed} {ds : List Deed} :
      d.requests.map Prod.fst = (s.act d.act).2 → Lives (s.act d.act).1 ds s' →
      Lives s (d :: ds) s'

namespace Lives

variable {s t u : Session} {d : Deed} {ds es : List Deed}

theorem single (h : d.requests.map Prod.fst = (s.act d.act).2) :
    Lives s [d] (s.act d.act).1 := .act h (.rest _)

theorem append (h : Lives s ds t) (h' : Lives t es u) : Lives s (ds ++ es) u := by
  induction h with
  | rest => exact h'
  | act hd _ ih => exact .act hd (ih h')

/-- What every act keeps, a life keeps. -/
theorem induct {motive : Session → Prop} (h : Lives s ds t) (base : motive s)
    (step : ∀ s a, motive s → motive (s.act a).1) : motive t := by
  induction h with
  | rest => exact base
  | act _ _ ih => exact ih (step _ _ base)

end Lives

end Session

namespace Client

variable {σ : Type}

/-! ## What a turn brings to a session -/

/-- The message in the bytes of the socket that goes to listeners, if there is one. -/
def message? (bytes : List UInt8) : Option Message :=
  match Frame.decode bytes with
  | .error _ => none
  | .ok f =>
    if f.isHeartbeat then none
    else if f.action = .roleCall then none
    else (Message.ofFrame f).toOption

/-- The message that a turn brings to the listeners of its topic. -/
def heard? (c : Client σ) : Turn σ → Option Message
  | .input (.dispatch m) => some m
  | .input (.received bytes) => if c.phase.isRunning then message? bytes else none
  | _ => none

/-- An act of the session; what it asks for goes out on its topic. -/
def deed (c : Client σ) (i : Nat) (a : Session.Act) : Session.Deed where
  act := a
  requests := match c.sessions[i]? with
    | none => []
    | some s => (s.act a).2.map fun e => (e, (c.transmit false s.topic e).1)

/-- What happens to the session while a message is brought to listeners, one after the other. -/
def deedsHearing (i : Nat) (m : Message) : List Listener → Client σ → List Session.Deed
  | [], _ => []
  | l :: rest, c =>
    (if l = .session i then [c.deed i (.hears c.connectionId c.palette m)] else []) ++
      deedsHearing i m rest (hear l m c).2

/-- What happens to the session in a turn. -/
def deeds (c : Client σ) (i : Nat) (t : Turn σ) : List Session.Deed :=
  match c.heard? t, t with
  | some m, _ => deedsHearing i m (c.router.listeners m.topic) c
  | none, .input (.loadMore j) => if j = i then [c.deed i .asksMore] else []
  | none, .input (.closeSession j) => if j = i then [c.deed i .closes] else []
  | none, _ => []

/-- What happens to the session in a run. -/
def life [MarkerStore σ] (c : Client σ) (i : Nat) : List (Turn σ) → List Session.Deed
  | [] => []
  | t :: rest => c.deeds i t ++ (c.turn t).1.life i rest

/-! ## Sessions are not touched otherwise -/

@[simp] theorem sessions_transmit (c : Client σ) (store : Bool) (topic : String) (e : Event) :
    (c.transmit store topic e).2.sessions = c.sessions := by
  unfold transmit
  split <;> rfl

theorem sessions_foldl {α : Type} {f : Client σ → α → Client σ}
    (h : ∀ c a, (f c a).sessions = c.sessions) (l : List α) (c : Client σ) :
    (l.foldl f c).sessions = c.sessions := by
  induction l generalizing c with
  | nil => rfl
  | cons a rest ih => rw [List.foldl_cons, ih, h]

@[simp] theorem sessions_transmitAll (c : Client σ) (topic : String) (es : List Event) :
    (c.transmitAll topic es).sessions = c.sessions :=
  sessions_foldl (fun c e => c.sessions_transmit false topic e) es c

@[simp] theorem sessions_resubscribe (c : Client σ) : c.resubscribe.sessions = c.sessions :=
  sessions_foldl (fun c topic => c.sessions_transmit false topic .subscribe) _ c

@[simp] theorem sessions_removeHook (c : Client σ) (name : String) :
    (c.removeHook name).2.sessions = c.sessions := by
  unfold removeHook
  split <;> rfl

@[simp] theorem sessions_openSession (c : Client σ) (topic : String) (pageSize : UInt32) :
    (c.openSession topic pageSize).2.sessions =
      c.sessions ++
        [(Session.create topic pageSize
          (c.router.subscribe topic (.session c.sessions.length)).1).1] :=
  sessions_transmitAll _ _ _

/-- The session that is opened. -/
theorem session_opened (c : Client σ) (topic : String) (pageSize : UInt32) :
    (c.openSession topic pageSize).2.sessions[(c.openSession topic pageSize).1]? =
      some (Session.create topic pageSize
        (c.router.subscribe topic (.session c.sessions.length)).1).1 := by
  rw [sessions_openSession]
  exact List.getElem?_concat_length

theorem receive_of_message? {bytes : List UInt8} {m : Message} (h : message? bytes = some m)
    (c : Client σ) : (receive bytes c).1 = (dispatch m c).2 := by
  unfold message? at h
  unfold receive
  cases hf : Frame.decode bytes with
  | error e =>
      rw [hf] at h
      cases h
  | ok f =>
      rw [hf] at h
      dsimp only at h ⊢
      split at h
      · cases h
      · rename_i hheartbeat
        rw [if_neg hheartbeat]
        split at h
        · cases h
        · rename_i haction
          rw [if_neg haction]
          cases hm : Message.ofFrame f with
          | error e =>
              rw [hm] at h
              cases h
          | ok m' =>
              rw [hm] at h
              cases h
              rfl

theorem sessions_receive_of_none {bytes : List UInt8} (h : message? bytes = none)
    (c : Client σ) : (receive bytes c).1.sessions = c.sessions := by
  unfold message? at h
  unfold receive
  split
  · rfl
  · rename_i f hf
    rw [hf] at h
    dsimp only at h
    split
    · rfl
    · rename_i hheartbeat
      rw [if_neg hheartbeat] at h
      split
      · rfl
      · rename_i haction
        rw [if_neg haction] at h
        cases hm : Message.ofFrame f with
        | error e => rfl
        | ok m =>
            rw [hm] at h
            cases h

/-! ## One session -/

section One

variable {c : Client σ} {i : Nat} {s : Session}

theorem requests_deed (hs : c.sessions[i]? = some s) (a : Session.Act) :
    (c.deed i a).requests.map Prod.fst = (s.act a).2 := by
  rw [deed, hs]
  dsimp only
  rw [List.map_map]
  exact List.map_id _

theorem sessions_hear (hs : c.sessions[i]? = some s) (l : Listener) (m : Message) :
    (hear l m c).2.sessions[i]? =
      some (if l = .session i then (s.act (.hears c.connectionId c.palette m)).1 else s) := by
  obtain ⟨hlt, -⟩ := List.getElem?_eq_some_iff.mp hs
  cases l with
  | hook name outcome => exact hs
  | session j =>
      rw [hear]
      dsimp only
      by_cases hj : j = i
      · subst hj
        rw [hs, if_pos rfl]
        dsimp only
        rw [sessions_transmitAll, List.getElem?_set_self hlt]
        rfl
      · rw [if_neg (by simpa using hj)]
        split
        · exact hs
        · dsimp only
          rw [sessions_transmitAll, List.getElem?_set_ne hj]
          exact hs

theorem sessions_loadMore (hs : c.sessions[i]? = some s) (j : Nat) :
    (c.loadMore j).2.sessions[i]? = some (if j = i then (s.act .asksMore).1 else s) := by
  obtain ⟨hlt, -⟩ := List.getElem?_eq_some_iff.mp hs
  unfold loadMore
  by_cases hj : j = i
  · subst hj
    rw [hs, if_pos rfl]
    dsimp only
    rw [sessions_transmitAll, List.getElem?_set_self hlt]
    rfl
  · rw [if_neg hj]
    split
    · exact hs
    · dsimp only
      rw [sessions_transmitAll, List.getElem?_set_ne hj, hs]

theorem sessions_closeSession (hs : c.sessions[i]? = some s) (j : Nat) :
    (c.closeSession j).sessions[i]? = some (if j = i then (s.act .closes).1 else s) := by
  obtain ⟨hlt, -⟩ := List.getElem?_eq_some_iff.mp hs
  unfold closeSession
  by_cases hj : j = i
  · subst hj
    rw [hs, if_pos rfl, Session.act]
    dsimp only
    cases s.subscription with
    | none => exact hs
    | some u =>
        dsimp only
        rw [sessions_transmitAll, List.getElem?_set_self hlt]
  · rw [if_neg hj]
    split
    · exact hs
    · split
      · exact hs
      · dsimp only
        rw [sessions_transmitAll, List.getElem?_set_ne hj, hs]

/-- An act of the session, or none. -/
theorem lives_ite (hs : c.sessions[i]? = some s) (a : Session.Act) (p : Prop) [Decidable p] :
    Session.Lives s (if p then [c.deed i a] else []) (if p then (s.act a).1 else s) := by
  split
  · exact .single (requests_deed hs a)
  · exact .rest s

theorem lives_callAll (m : Message) (ls : List Listener) (hs : c.sessions[i]? = some s) :
    ∃ s', (Router.callAll hear m ls c).2.sessions[i]? = some s' ∧
      Session.Lives s (deedsHearing i m ls c) s' := by
  induction ls generalizing c s with
  | nil => exact ⟨s, hs, .rest s⟩
  | cons l rest ih =>
      have hnext := sessions_hear hs l m
      obtain ⟨s', hs', hlives⟩ := ih hnext
      exact ⟨s', hs', (lives_ite hs _ _).append hlives⟩

end One

/-! ## Turns -/

variable [MarkerStore σ]

/-- A turn touches sessions if it brings a message to listeners, opens a session, closes one or asks
one for more. -/
theorem sessions_turn {c : Client σ} {t : Turn σ} (h : c.heard? t = none)
    (hopen : ∀ topic pageSize, t ≠ .input (.openSession topic pageSize))
    (hclose : ∀ j, t ≠ .input (.closeSession j)) (hmore : ∀ j, t ≠ .input (.loadMore j)) :
    (c.turn t).1.sessions = c.sessions := by
  have hhandling := handling_turn c t
  generalize c.turn t = s at hhandling ⊢
  cases hhandling with
  | supervised hs => exact hs.sessions
  | opened => exact sessions_resubscribe _
  | received hphase =>
      refine sessions_receive_of_none ?_ c
      rwa [heard?, hphase] at h
  | flushed | hooked => rfl
  | transmitted store topic e => exact c.sessions_transmit store topic e
  | unhooked name => exact c.sessions_removeHook name
  | dispatched m => cases h
  | joined topic pageSize => exact absurd rfl (hopen topic pageSize)
  | left j => exact absurd rfl (hclose j)
  | asked j => exact absurd rfl (hmore j)

/-- A message that a turn brings is heard by the listeners of its topic; nothing else happens. -/
theorem turn_of_heard {c : Client σ} {t : Turn σ} {m : Message} (h : c.heard? t = some m) :
    (c.turn t).1 = (dispatch m c).2 := by
  cases t with
  | clock | markers => cases h
  | input i =>
    cases i with
    | dispatch m' =>
        cases h
        rfl
    | received bytes =>
        unfold heard? at h
        dsimp only at h
        split at h
        · rename_i hrunning
          change (c.onReceived bytes).1 = _
          unfold onReceived
          split
          · exact receive_of_message? h c
          · rename_i hnot
            cases hphase : c.phase with
            | running k => exact absurd hphase (hnot k)
            | _ => rw [hphase] at hrunning; cases hrunning
        · cases h
    | _ => cases h

/-! ## Lives in runs -/

variable {c : Client σ} {i : Nat} {s : Session}

theorem lives_turn (t : Turn σ) (hs : c.sessions[i]? = some s) :
    ∃ s', (c.turn t).1.sessions[i]? = some s' ∧ Session.Lives s (c.deeds i t) s' := by
  unfold deeds
  split
  · rename_i m hheard
    rw [turn_of_heard hheard]
    exact lives_callAll m _ hs
  · rename_i j _
    exact ⟨_, sessions_loadMore hs j, lives_ite hs .asksMore _⟩
  · rename_i j _
    exact ⟨_, sessions_closeSession hs j, lives_ite hs .closes _⟩
  · rename_i t _ _ hmore hclose hheard
    refine ⟨s, ?_, .rest s⟩
    by_cases hopen : ∃ topic pageSize, t = .input (.openSession topic pageSize)
    · obtain ⟨topic, pageSize, rfl⟩ := hopen
      obtain ⟨hlt, -⟩ := List.getElem?_eq_some_iff.mp hs
      change (c.openSession topic pageSize).2.sessions[i]? = _
      rw [sessions_openSession, List.getElem?_append_left hlt, hs]
    · have hopen : ∀ topic pageSize, t ≠ .input (.openSession topic pageSize) :=
        fun topic pageSize h => hopen ⟨topic, pageSize, h⟩
      rw [sessions_turn hheard hopen hclose hmore]
      exact hs

/-- What a session is after a run is what it makes of its life. -/
theorem lives_run (ts : List (Turn σ)) (hs : c.sessions[i]? = some s) :
    ∃ s', (c.run ts).1.sessions[i]? = some s' ∧ Session.Lives s (c.life i ts) s' := by
  induction ts generalizing c s with
  | nil => exact ⟨s, hs, .rest s⟩
  | cons t rest ih =>
      obtain ⟨s', hs', hturn⟩ := lives_turn t hs
      obtain ⟨s'', hs'', hrest⟩ := ih hs'
      exact ⟨s'', hs'', hturn.append hrest⟩

end Client

end Parley
