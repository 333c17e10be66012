import Parley.Proofs.Call.Reactions

/-!
# Candidates leave on settled links

A candidate is of use to the other side only while both descriptions of the connection are current.
Candidates leave a call in two places: when a connection reports one, and when a description was
applied to its link. Both pass through `Link.flush`, which looks at the connection before it lets
anything out, so that no history of the call matters: whatever a turn does, the candidates it sends
are its last effects, they are all for one participant, and the link to that participant is live and
settled when they leave.
-/

namespace Parley.Call

variable {κ : Type}

/-! ## Effects without candidates -/

/-- No candidate is sent. -/
def Quiet (effects : List CallEffect) : Prop :=
  ∀ e, .send (.signal e) ∈ effects → e.ice = none

@[simp] theorem quiet_nil : Quiet [] := by simp [Quiet]

@[simp] theorem quiet_append {xs ys : List CallEffect} :
    Quiet (xs ++ ys) ↔ Quiet xs ∧ Quiet ys := by
  simp only [Quiet, List.mem_append]
  exact ⟨fun h => ⟨fun e he => h e (.inl he), fun e he => h e (.inr he)⟩,
    fun h e he => he.elim (h.1 e) (h.2 e)⟩

@[simp] theorem quiet_releaseAll (s : MediaStream) : Quiet (releaseAll s) := by
  simp [Quiet, releaseAll]

@[simp] theorem quiet_setControl (control : Control) (c : Call κ) :
    Quiet (c.setControl control).2 := by
  unfold setControl; split <;> simp [Quiet]

theorem quiet_startMedia (video : Bool) (c : Call κ) : Quiet (c.startMedia video).2 := by
  unfold startMedia
  split
  · exact quiet_nil
  · rw [Step.andThen_effects, quiet_append]
    exact ⟨quiet_setControl _ _, by simp [Quiet]⟩

variable [Connection κ]

/-- Requests and descriptions carry no candidates. -/
theorem quiet_of_ops {s : Setting κ} {q : Event → Prop} (hq : ∀ e, q e → e.Invites)
    {c : Call κ} {t : Step κ} (h : Ops s q c t) : Quiet t.2 := by
  intro e he
  rcases h.sends he with hsaid | ⟨remote, d, hd⟩
  · exact absurd (hq _ hsaid) id
  · rw [Event.signal.injEq] at hd
    rw [hd]
    rfl

theorem quiet_offerAll (s : Setting κ) (remotes : List String) (c : Call κ) :
    Quiet (offerAll s remotes c).2 :=
  quiet_of_ops (q := fun _ => False) (fun _ h => h.elim) (ops_offerAll remotes c)

theorem quiet_onMedia (s : Setting κ) (epoch : Nat) (result : Except MediaError MediaStream)
    (c : Call κ) : Quiet (c.onMedia s epoch result).2 := by
  unfold onMedia
  split
  · split
    · exact quiet_releaseAll _
    · exact quiet_nil
  · split
    · rw [Step.andThen_effects, quiet_append]
      exact ⟨quiet_setControl _ _, by simp [Quiet]⟩
    · simp only [publish, Step.andThen_effects, quiet_append]
      exact ⟨quiet_offerAll _ _ _, by simp [Quiet], quiet_setControl _ _⟩

theorem quiet_leave (c : Call κ) : Quiet c.leave.2 := by
  unfold leave
  split
  · exact quiet_nil
  · simp only [farewell, Step.andThen_effects, quiet_append]
    refine ⟨?_, by simp [Quiet], quiet_setControl _ _⟩
    unfold withdraw
    split
    · exact quiet_nil
    · exact quiet_releaseAll _

theorem quiet_teardown (c : Call κ) : Quiet c.teardown.2 := by
  unfold teardown
  split
  · exact quiet_nil
  · simp only [Step.andThen_effects, quiet_append]
    exact ⟨quiet_releaseAll _, quiet_setControl _ _, by simp [Quiet, tellStreams]⟩

/-! ## Candidates come last -/

/-- The candidates that a step sends are its last effects, and the link they are for is live and
settled in the call that the step leaves. -/
def Punctual (t : Step κ) : Prop :=
  ∃ before remote ready, t.2 = before ++ ready.map (sendCandidate remote) ∧ Quiet before ∧
    (ready ≠ [] → ∃ l, t.1.links.find? remote = some l ∧ l.phase ≠ .closed ∧
      (Connection.descriptions l.peer).isSettled = true)

theorem Punctual.of_quiet {t : Step κ} (h : Quiet t.2) : Punctual t :=
  ⟨t.2, "", [], by simp, h, by simp⟩

theorem Punctual.andThen {t : Step κ} {f : Call κ → Step κ} (h : Quiet t.2)
    (hf : Punctual (f t.1)) : Punctual (t.andThen f) := by
  obtain ⟨before, remote, ready, heq, hquiet, hready⟩ := hf
  refine ⟨t.2 ++ before, remote, ready, ?_, quiet_append.mpr ⟨h, hquiet⟩, hready⟩
  rw [Step.andThen_effects, heq, List.append_assoc]

theorem punctual_of_reacts {s : Setting κ} {q : Event → Prop} (hq : ∀ e, q e → e.Invites)
    {c : Call κ} {t : Step κ} (h : Reacts s q c t) : Punctual t := by
  induction h with
  | ops h => exact .of_quiet (quiet_of_ops hq h)
  | @ready _ remote _ k _ _ hlive =>
      exact ⟨[], remote, k.2, rfl, quiet_nil, fun hne => ⟨k.1, find?_put_self .., hlive hne⟩⟩
  | andThen h hf ih => exact .andThen (quiet_of_ops hq h) ih

theorem punctual_step (s : Setting κ) (c : Call κ) (i : Input) : Punctual (c.step s i) := by
  cases i with
  | session e => exact punctual_of_reacts (fun _ h => h.invites) (reacts_onSession s e c)
  | start video => exact .of_quiet (quiet_startMedia video c)
  | leave => exact .of_quiet (quiet_leave c)
  | teardown => exact .of_quiet (quiet_teardown c)
  | signal signal =>
      exact punctual_of_reacts (fun _ h => h.elim) (reacts_onSignal s (fun _ => False) signal c)
  | media epoch result => exact .of_quiet (quiet_onMedia s epoch result c)

end Parley.Call

namespace Parley.Agent

variable {κ : Type} [Connection κ]

theorem punctual_perform (s : Setting κ) (i : Call.Input) (a : Agent κ) :
    Call.Punctual ((a.perform s i).1.call, (a.perform s i).2) := by
  unfold perform
  split
  · exact .of_quiet Call.quiet_nil
  · exact Call.punctual_step s a.call i

theorem punctual_turn (s : Setting κ) (a : Agent κ) (t : Turn κ) :
    Call.Punctual ((a.turn s t).1.call, (a.turn s t).2) := by
  cases t with
  | session e => exact punctual_perform s (.session e) a
  | sessionEnded => exact punctual_perform s .teardown a
  | start video => exact punctual_perform s (.start video) a
  | leave => exact punctual_perform s .leave a
  | teardown => exact punctual_perform s .teardown a
  | dropped => exact punctual_perform s .teardown a
  | signal =>
      change Call.Punctual ((a.takeSignal s).1.call, (a.takeSignal s).2)
      unfold takeSignal
      split
      · exact .of_quiet Call.quiet_nil
      · exact punctual_perform ..
  | media =>
      change Call.Punctual ((a.takeAnswer s).1.call, (a.takeAnswer s).2)
      unfold takeAnswer
      split
      · exact .of_quiet Call.quiet_nil
      · exact punctual_perform ..
  | answered q result => exact .of_quiet Call.quiet_nil
  | network remote serial n => exact .of_quiet Call.quiet_nil

/-- Whatever an agent lived through, each candidate that it sends in its next turn is for a
participant to whom it holds a live link with both descriptions current and none pending. What the
turn does from the first candidate on is to send candidates to that participant, so that the link
is as it was when the candidate left. -/
theorem candidates_leave_on_settled_links (history : List (Setting κ × Turn κ)) (s : Setting κ)
    (t : Turn κ) {e : Envelope} (sent : .send (.signal e) ∈ ((run {} history).1.turn s t).2)
    (carries : e.ice.isSome) :
    ∃ remote before, ∃ ready : List Candidate, ∃ l,
      ((run {} history).1.turn s t).2 = before ++ ready.map (Call.sendCandidate remote) ∧
      Call.Quiet before ∧ e.target = some remote ∧
      ((run {} history).1.turn s t).1.call.links.find? remote = some l ∧ l.phase ≠ .closed ∧
      (Connection.descriptions l.peer).isSettled = true := by
  obtain ⟨before, remote, ready, heq, hquiet, hready⟩ := punctual_turn s (run {} history).1 t
  have hmem := heq ▸ sent
  rcases List.mem_append.mp hmem with hbefore | hlast
  · rw [hquiet e hbefore] at carries
    cases carries
  · obtain ⟨x, hx, he⟩ := List.mem_map.mp hlast
    obtain ⟨l, hl, hlive, hsettled⟩ := hready (List.ne_nil_of_mem hx)
    refine ⟨remote, before, ready, l, heq, hquiet, ?_, hl, hlive, hsettled⟩
    simp only [Call.sendCandidate, CallEffect.send.injEq, Event.signal.injEq] at he
    rw [← he]; rfl

/-- A participant's offer is answered, and the first candidate gathered for the answer leaves in
the next turn. -/
theorem candidates_leave_on_settled_links_answered :
    let s : Setting := { me := some "me", connect := fun _ => some { label := "me" } }
    let offered : SessionEvent := .message
      { topic := "room", sender := "peer", event := .signal (.ofDescription "me" ⟨.offer, "v=0"⟩) }
    let a := (run {} [(s, .session offered)]).1
    let e := Envelope.ofCandidate "peer" (Peer.candidate "me" 0)
    .send (.signal e) ∈ (a.turn s .signal).2 ∧ e.ice.isSome ∧
      ∃ remote before, ∃ ready : List Candidate, ∃ l : Link,
        (a.turn s .signal).2 = before ++ ready.map (Call.sendCandidate remote) ∧
        Call.Quiet before ∧ e.target = some remote ∧
        (a.turn s .signal).1.call.links.find? remote = some l ∧ l.phase ≠ .closed ∧
        (Connection.descriptions l.peer).isSettled = true := by
  intro s offered a e
  have sent : .send (.signal e) ∈ (a.turn s .signal).2 := by decide
  exact ⟨sent, by decide, candidates_leave_on_settled_links [(s, .session offered)] s .signal sent
    (by decide)⟩

end Parley.Agent
