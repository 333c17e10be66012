import Parley.Proofs.Call.Confinement
import Parley.Proofs.Call.Inputs

/-!
# Asking whether anyone streams

A call asks its topic once whether anyone streams: when it hears of a roster with another
participant on it, and was told before that the subscription is acknowledged. It goes by what it is
told, in the order in which it is told; what else happens to it neither asks nor makes it forget
(`Call.Tacit`). So whether an agent has asked can be read off the events that its session gave it
(`Agent.pings_eq_one_iff`).
-/

namespace Parley

def CallEffect.isPing : CallEffect → Bool
  | .send (.pingChannel _) => true
  | _ => false

/-- How often the topic is asked. -/
def pings (effects : List CallEffect) : Nat := effects.countP CallEffect.isPing

@[simp] theorem pings_nil : pings [] = 0 := rfl

@[simp] theorem pings_append (xs ys : List CallEffect) : pings (xs ++ ys) = pings xs + pings ys :=
  List.countP_append

theorem pings_eq_zero {effects : List CallEffect}
    (h : ∀ e, .send e ∈ effects → ∀ t, e ≠ .pingChannel t) : pings effects = 0 := by
  rw [pings, List.countP_eq_zero]
  intro x hx
  unfold CallEffect.isPing
  split
  · rename_i t
    exact absurd rfl (h _ hx t)
  · exact Bool.false_ne_true

/-! ## What a session tells -/

/-- Someone else was seen on the topic after the subscription was acknowledged. -/
def Joined (es : List SessionEvent) : Prop :=
  ∃ before r after, es = before ++ .rosterUpdated r :: after ∧ 2 ≤ r.size ∧ .subscribed ∈ before

theorem not_joined_nil : ¬ Joined [] := by
  rintro ⟨before, r, after, h, -⟩
  cases before <;> cases h

theorem joined_concat {es : List SessionEvent} {e : SessionEvent} :
    Joined (es ++ [e]) ↔
      Joined es ∨ ∃ r, e = .rosterUpdated r ∧ 2 ≤ r.size ∧ .subscribed ∈ es := by
  constructor
  · rintro ⟨before, r, after, h, hsize, hmem⟩
    rcases List.eq_nil_or_concat after with rfl | ⟨rest, e', rfl⟩
    · obtain ⟨rfl, he⟩ := List.append_inj' h rfl
      exact .inr ⟨r, List.singleton_inj.mp he, hsize, hmem⟩
    · rw [List.concat_eq_append, ← List.cons_append, ← List.append_assoc] at h
      obtain ⟨rfl, -⟩ := List.append_inj' h rfl
      exact .inl ⟨before, r, rest, rfl, hsize, hmem⟩
  · rintro (⟨before, r, after, rfl, hsize, hmem⟩ | ⟨r, rfl, hsize, hmem⟩)
    · exact ⟨before, r, after ++ [e], by simp, hsize, hmem⟩
    · exact ⟨es, r, [], rfl, hsize, hmem⟩

theorem joined_iff {es : List SessionEvent} :
    Joined es ↔ ∃ k r, es[k]? = some (.rosterUpdated r) ∧ 2 ≤ r.size ∧
      .subscribed ∈ es.take k := by
  constructor
  · rintro ⟨before, r, after, rfl, hsize, hmem⟩
    exact ⟨before.length, r, by simp, hsize, by simpa using hmem⟩
  · rintro ⟨k, r, hroster, hsize, hmem⟩
    obtain ⟨hk, hroster⟩ := List.getElem?_eq_some_iff.mp hroster
    refine ⟨es.take k, r, es.drop (k + 1), ?_, hsize, hmem⟩
    rw [← hroster, ← List.drop_eq_getElem_cons hk, List.take_append_drop]

namespace Call

variable {κ : Type}

/-! ## Steps that do not ask -/

/-- A step that neither asks nor changes what the session told. -/
structure Tacit (c : Call κ) (t : Step κ) : Prop where
  subscribed : t.1.subscribed = c.subscribed
  pinged : t.1.pinged = c.pinged
  silent : pings t.2 = 0

namespace Tacit

variable {c : Call κ} {t : Step κ}

theorem nothing (c : Call κ) : Tacit c (c, []) := ⟨rfl, rfl, rfl⟩

theorem andThen {f : Call κ → Step κ} (h : Tacit c t) (hf : Tacit t.1 (f t.1)) :
    Tacit c (t.andThen f) where
  subscribed := hf.subscribed.trans h.subscribed
  pinged := hf.pinged.trans h.pinged
  silent := by rw [Step.andThen_effects, pings_append, h.silent, hf.silent]

theorem of_confined {r : String} (h : Confined r c t)
    (hsends : ∀ e, .send e ∈ t.2 → ∀ t, e ≠ .pingChannel t) : Tacit c t :=
  ⟨h.subscribed, h.pinged, pings_eq_zero hsends⟩

theorem setControl (control : Control) (c : Call κ) : Tacit c (c.setControl control) := by
  unfold Call.setControl
  split <;> exact ⟨rfl, rfl, rfl⟩

theorem pings_tellStreams (c : Call κ) : pings c.tellStreams = 0 := rfl

theorem pings_releaseAll (s : MediaStream) : pings (releaseAll s) = 0 := by
  refine pings_eq_zero fun e he => ?_
  obtain ⟨t, -, ht⟩ := List.mem_map.mp he
  cases ht

theorem withdraw [Connection κ] (c : Call κ) : Tacit c c.withdraw := by
  unfold Call.withdraw
  split
  · exact nothing c
  · exact ⟨rfl, rfl, pings_releaseAll _⟩

theorem farewell (c : Call κ) : Tacit c c.farewell :=
  andThen (t := (c, _)) ⟨rfl, rfl, rfl⟩ (setControl .start c)

theorem startMedia (video : Bool) (c : Call κ) : Tacit c (c.startMedia video) := by
  unfold Call.startMedia
  split
  · exact nothing c
  · exact (setControl .pending c).andThen ⟨rfl, rfl, rfl⟩

theorem putReady (r : String) (k : Link κ × List Candidate) (c : Call κ) :
    Tacit c (c.putReady r k) := by
  refine .of_confined (.putReady k) fun e he => ?_
  obtain ⟨x, -, hx⟩ := List.mem_map.mp he
  cases hx
  nofun

variable [Connection κ]

theorem leave (c : Call κ) : Tacit c c.leave := by
  unfold Call.leave
  split
  · exact nothing c
  · have h := withdraw { c with epoch := c.epoch + 1 }
    exact andThen ⟨h.subscribed, h.pinged, h.silent⟩ (farewell _)

theorem teardown (c : Call κ) : Tacit c c.teardown := by
  unfold Call.teardown
  split
  · exact nothing c
  · exact andThen (t := (_, _)) ⟨rfl, rfl, pings_releaseAll _⟩
      ((setControl .start _).andThen ⟨rfl, rfl, pings_tellStreams _⟩)

theorem offerAll (s : Setting κ) (remotes : List String) (c : Call κ) :
    Tacit c (offerAll s remotes c) := by
  induction remotes generalizing c with
  | nil => exact nothing c
  | cons remote rest ih =>
      refine andThen (.of_confined (.offer s) fun e he => ?_) (ih _)
      rcases (ops_offer (q := fun _ => False) remote c).sends he with hnone | ⟨_, _, rfl⟩
      · exact hnone.elim
      · nofun

theorem onMedia (s : Setting κ) (epoch : Nat) (result : Except MediaError MediaStream)
    (c : Call κ) : Tacit c (c.onMedia s epoch result) := by
  unfold Call.onMedia
  split
  · cases result with
    | ok stream => exact ⟨rfl, rfl, pings_releaseAll stream⟩
    | error e => exact nothing c
  · cases result with
    | error e => exact (setControl .start c).andThen ⟨rfl, rfl, rfl⟩
    | ok stream =>
        unfold publish
        have h := offerAll s (c.links.map fun _ l => l.attach stream).keys
          { c with links := c.links.map fun _ l => l.attach stream, held := some stream }
        exact andThen ⟨h.subscribed, h.pinged, h.silent⟩
          (andThen (t := (_, _)) ⟨rfl, rfl, rfl⟩ (setControl .stop _))

theorem onMessage (s : Setting κ) (m : Message) (c : Call κ) : Tacit c (c.onMessage s m) := by
  refine .of_confined (confined_onMessage s m c) fun e he => ?_
  have hreacts := reacts_onMessage (s := s) (q := fun e => e = .startStream (some m.sender))
    (m := m) (fun _ => rfl) c
  rcases hreacts.sends he with rfl | ⟨_, _, rfl⟩ | ⟨_, _, rfl⟩ <;> nofun

theorem onSignal (signal : PeerSignal) (c : Call κ) : Tacit c (c.onSignal signal) := by
  unfold Call.onSignal
  split
  · exact nothing c
  · rename_i hlive
    split
    · exact nothing c
    · split
      · exact nothing c
      · split
        · exact putReady _ _ c
        · exact ⟨rfl, rfl, pings_tellStreams _⟩
        · split
          · unfold remove
            split
            · exact nothing c
            · exact ⟨rfl, rfl, pings_tellStreams _⟩
          · exact nothing c

end Tacit

/-! ## Steps that may ask -/

/-- What a call knows after its session told it something. -/
structure Knows (c : Call κ) (es : List SessionEvent) : Prop where
  subscribed : c.subscribed = true ↔ .subscribed ∈ es
  pinged : c.pinged = true ↔ Joined es

theorem Knows.tacit {c : Call κ} {t : Step κ} {es : List SessionEvent} (h : c.Knows es)
    (ht : Tacit c t) : t.1.Knows es where
  subscribed := by rw [ht.subscribed, h.subscribed]
  pinged := by rw [ht.pinged, h.pinged]

variable [Connection κ] (s : Setting κ)

/-- Only what the session reports makes a call ask. -/
theorem tacit_step (c : Call κ) {i : Input} (hi : ∀ e, i ≠ .session e) : Tacit c (c.step s i) := by
  cases i with
  | session e => exact absurd rfl (hi e)
  | start video => exact .startMedia video c
  | leave => exact .leave c
  | teardown => exact .teardown c
  | signal signal => exact .onSignal signal c
  | media epoch result => exact .onMedia s epoch result c

theorem onSession_of_ended {c : Call κ} (hended : c.ended) (e : SessionEvent) :
    c.onSession s e = (c, []) := if_pos hended

theorem onSession_subscribed {c : Call κ} (hlive : ¬ c.ended) :
    c.onSession s .subscribed = ({ c with subscribed := true }, []) := by
  rw [onSession, if_neg hlive]

theorem onSession_roster {c : Call κ} (hlive : ¬ c.ended) (r : Roster) :
    c.onSession s (.rosterUpdated r) =
      if c.subscribed ∧ c.pinged = false ∧ 2 ≤ r.size then
        ({ c with pinged := true }, [.send (.pingChannel none)])
      else (c, []) := by
  rw [onSession, if_neg hlive]

/-- Of the reports of its session, a call only minds acknowledgements and rosters. -/
theorem tacit_onSession (c : Call κ) {e : SessionEvent} (hsubscribed : e ≠ .subscribed)
    (hroster : ∀ r, e ≠ .rosterUpdated r) : Tacit c (c.onSession s e) := by
  unfold onSession
  split
  · exact .nothing c
  · split
    · exact absurd rfl hsubscribed
    · exact absurd rfl (hroster _)
    · exact .onMessage s _ c
    · exact .nothing c
    · exact .nothing c

/-- A call asks in the step in which it notes that it has asked. -/
theorem pings_step (c : Call κ) (i : Input) :
    pings (c.step s i).2 + c.pinged.toNat = (c.step s i).1.pinged.toNat := by
  have htacit {t : Step κ} (h : Tacit c t) :
      pings t.2 + c.pinged.toNat = t.1.pinged.toNat := by
    rw [h.silent, h.pinged, Nat.zero_add]
  by_cases hi : ∃ e, i = .session e
  · obtain ⟨e, rfl⟩ := hi
    change pings (c.onSession s e).2 + c.pinged.toNat = (c.onSession s e).1.pinged.toNat
    by_cases hlive : c.ended
    · rw [onSession_of_ended s hlive]
      exact Nat.zero_add _
    · by_cases hroster : ∃ r, e = .rosterUpdated r
      · obtain ⟨r, rfl⟩ := hroster
        rw [onSession_roster s hlive]
        split
        · rename_i h
          rw [h.2.1]
          rfl
        · exact Nat.zero_add _
      · by_cases hsubscribed : e = .subscribed
        · rw [hsubscribed, onSession_subscribed s hlive]
          exact Nat.zero_add _
        · exact htacit (tacit_onSession s c hsubscribed fun r h => hroster ⟨r, h⟩)
  · exact htacit (tacit_step s c fun e h => hi ⟨e, h⟩)

theorem Knows.hear {c : Call κ} {es : List SessionEvent} (h : c.Knows es) (hlive : ¬ c.ended)
    (e : SessionEvent) : (c.onSession s e).1.Knows (es ++ [e]) := by
  by_cases hsubscribed : e = .subscribed
  · subst hsubscribed
    rw [onSession_subscribed s hlive]
    refine ⟨by simp, ?_⟩
    rw [joined_concat]
    simpa using h.pinged
  · have hmem : SessionEvent.subscribed ∈ es ++ [e] ↔ SessionEvent.subscribed ∈ es := by
      simp [Ne.symm hsubscribed]
    by_cases hroster : ∃ r, e = .rosterUpdated r
    · obtain ⟨r, rfl⟩ := hroster
      rw [onSession_roster s hlive]
      have hjoined : Joined (es ++ [.rosterUpdated r]) ↔
          Joined es ∨ 2 ≤ r.size ∧ .subscribed ∈ es := by
        rw [joined_concat]
        simp
      split
      · rename_i hasks
        exact ⟨by rw [hmem, ← h.subscribed], iff_of_true rfl
          (hjoined.mpr (.inr ⟨hasks.2.2, h.subscribed.mp hasks.1⟩))⟩
      · rename_i hpasses
        refine ⟨by rw [hmem, h.subscribed], ?_⟩
        rw [hjoined, ← h.pinged, or_iff_left_of_imp]
        rintro ⟨hsize, hsub⟩
        cases hpinged : c.pinged with
        | true => rfl
        | false => exact absurd ⟨h.subscribed.mpr hsub, hpinged, hsize⟩ hpasses
    · have hkept := h.tacit (tacit_onSession s c hsubscribed fun r hr => hroster ⟨r, hr⟩)
      refine ⟨by rw [hmem, hkept.subscribed], ?_⟩
      rw [joined_concat, hkept.pinged, or_iff_left_of_imp]
      rintro ⟨r, rfl, -⟩
      exact absurd ⟨r, rfl⟩ hroster

end Call

namespace Agent

variable {κ : Type} [Connection κ]

/-! ## An agent and its session -/

/-- What the session tells in a turn. -/
def Turn.tells : Turn κ → List SessionEvent
  | .session e => [e]
  | _ => []

/-- What the session tells in a history. -/
def heard (history : List (Setting κ × Turn κ)) : List SessionEvent :=
  history.flatMap fun p => p.2.tells

theorem input_tells {a : Agent κ} {t : Turn κ} {e : SessionEvent}
    (h : a.input? t = some (.session e)) : t.tells = [e] := by
  obtain ⟨-, hgives⟩ := gives_of_input h
  cases hgives
  rfl

theorem tells_eq_nil {a : Agent κ} {t : Turn κ} (hrunning : a.running = true)
    (h : ∀ e, a.input? t ≠ some (.session e)) : t.tells = [] := by
  cases t with
  | session e =>
      refine absurd ?_ (h e)
      unfold input?
      rw [if_neg (by simp [hrunning])]
  | _ => rfl

theorem not_teardown_of_input {a : Agent κ} {t : Turn κ} {i : Call.Input}
    (h : a.input? t = some i) (ht : t.endsCall = false) : i ≠ .teardown := by
  rintro rfl
  obtain ⟨-, hgives⟩ := gives_of_input h
  cases hgives with
  | ends hends =>
      rw [ht] at hends
      cases hends

/-- The network changes nothing that a call keeps in mind. -/
theorem disturbed_notes (a : Agent κ) (t : Turn κ) :
    (a.disturbed t).ended = a.call.ended ∧ Call.Tacit a.call (a.disturbed t, []) := by
  unfold disturbed
  split
  · unfold disturb
    split <;> exact ⟨rfl, rfl, rfl, rfl⟩
  · exact ⟨rfl, rfl, rfl, rfl⟩

theorem pings_turn (s : Setting κ) (a : Agent κ) (t : Turn κ) :
    pings (a.turn s t).2 + a.call.pinged.toNat = (a.turn s t).1.call.pinged.toNat := by
  cases hinput : a.input? t with
  | some i =>
      have hstep := turn_of_input s hinput
      have hpings := Call.pings_step s a.call i
      rwa [← hstep] at hpings
  | none =>
      obtain ⟨heffects, hcall⟩ := turn_of_no_input s hinput
      rw [heffects, hcall, (disturbed_notes a t).2.pinged, pings_nil, Nat.zero_add]

/-- An agent has asked as often as it has noted: once or never. -/
theorem pings_run (a : Agent κ) (history : List (Setting κ × Turn κ)) :
    pings (a.run history).2 + a.call.pinged.toNat = (a.run history).1.call.pinged.toNat := by
  induction history generalizing a with
  | nil => exact Nat.zero_add _
  | cons p rest ih =>
      have hturn := pings_turn p.1 a p.2
      have hrest := ih (a.turn p.1 p.2).1
      have hrun : pings (a.run (p :: rest)).2 =
          pings (a.turn p.1 p.2).2 + pings ((a.turn p.1 p.2).1.run rest).2 := pings_append _ _
      change _ = ((a.turn p.1 p.2).1.run rest).1.call.pinged.toNat
      omega

/-- An agent that takes turns and knows what its session told. -/
structure Attends (a : Agent κ) (es : List SessionEvent) : Prop where
  running : a.running = true
  live : ¬ a.call.ended
  knows : a.call.Knows es

namespace Attends

variable {a : Agent κ} {es : List SessionEvent}

omit [Connection κ] in
theorem empty : ({} : Agent κ).Attends [] where
  running := rfl
  live := Bool.false_ne_true
  knows := ⟨by simp, iff_of_false Bool.false_ne_true not_joined_nil⟩

theorem turn (h : a.Attends es) (s : Setting κ) {t : Turn κ} (ht : t.endsCall = false) :
    (a.turn s t).1.Attends (es ++ t.tells) := by
  have hrunning : (a.turn s t).1.running = true := by
    rw [running_turn]
    cases t with
    | teardown | dropped => cases ht
    | _ => exact h.running
  cases hinput : a.input? t with
  | none =>
      obtain ⟨-, hcall⟩ := turn_of_no_input s hinput
      obtain ⟨hended, htacit⟩ := disturbed_notes a t
      rw [tells_eq_nil h.running (by simp [hinput]), List.append_nil]
      refine ⟨hrunning, ?_, ?_⟩
      · rw [hcall, hended]
        exact h.live
      · rw [hcall]
        exact h.knows.tacit htacit
  | some i =>
      have hcall : (a.turn s t).1.call = (a.call.step s i).1 :=
        congrArg Prod.fst (turn_of_input s hinput)
      refine ⟨hrunning, ?_, ?_⟩
      · rw [hcall, Call.step_ended s a.call (not_teardown_of_input hinput ht)]
        exact h.live
      · rw [hcall]
        by_cases hi : ∃ e, i = .session e
        · obtain ⟨e, rfl⟩ := hi
          rw [input_tells hinput]
          exact h.knows.hear s h.live e
        · have htacit := Call.tacit_step s a.call fun e he => hi ⟨e, he⟩
          rw [tells_eq_nil h.running fun e he => hi ⟨e, Option.some.inj (hinput.symm.trans he)⟩,
            List.append_nil]
          exact h.knows.tacit htacit

theorem run (h : a.Attends es) {history : List (Setting κ × Turn κ)}
    (halive : ∀ p ∈ history, p.2.endsCall = false) :
    (a.run history).1.Attends (es ++ heard history) := by
  induction history generalizing a es with
  | nil =>
      rw [heard, List.flatMap_nil, List.append_nil]
      exact h
  | cons p rest ih =>
      rw [List.forall_mem_cons] at halive
      have hrest := ih (h.turn p.1 halive.1) halive.2
      rwa [List.append_assoc] at hrest

end Attends

theorem pings_le_one (history : List (Setting κ × Turn κ)) :
    pings (({} : Agent κ).run history).2 ≤ 1 := by
  have h := pings_run {} history
  have hle := (({} : Agent κ).run history).1.call.pinged.toNat_le
  omega

/-- As long as its call is not torn down, an agent has asked its topic exactly if its session told
it of a roster with someone else on it after it had told it of the acknowledgement. -/
theorem pings_eq_one_iff {history : List (Setting κ × Turn κ)}
    (halive : ∀ p ∈ history, p.2.endsCall = false) :
    pings (({} : Agent κ).run history).2 = 1 ↔ Joined (heard history) := by
  have hknows := (Attends.empty.run halive).knows
  rw [List.nil_append] at hknows
  have h := pings_run {} history
  rw [← hknows.pinged]
  change pings (({} : Agent κ).run history).2 =
    (({} : Agent κ).run history).1.call.pinged.toNat at h
  rw [h]
  cases (({} : Agent κ).run history).1.call.pinged <;> decide

end Agent

end Parley
