import Parley.Proofs.Call.Ledger

/-!
# Calls that are over

When a call is torn down it has no links, publishes nothing and offers to start. It stays like that:
each handler looks at once whether the call is over, and then only media that still arrive are given
back (`Call.step_of_ended`). After that no turn does more (`Call.Still`), whether the agent goes on,
as it does when only the session ended, or is over with its call. The network may still act on the
connections, but all of them are closed.
-/

namespace Parley

namespace Call

variable {κ : Type}

/-- A call that is over and left nothing behind. -/
structure Over (c : Call κ) : Prop where
  ended : c.ended
  links : c.links = .empty
  held : c.held = none
  control : c.control = .start

/-- A step that changes nothing of a call but what the network does to closed connections, and only
gives tracks back. -/
structure Still (c : Call κ) (t : Step κ) : Prop where
  call : t.1 = { c with retired := t.1.retired }
  closed : t.1.closed = c.closed
  effects : ∀ e ∈ t.2, ∃ track, e = .release track

theorem Over.of_still {c : Call κ} {t : Step κ} (hc : c.Over) (h : Still c t) : t.1.Over := by
  rw [h.call]
  exact ⟨hc.ended, hc.links, hc.held, hc.control⟩

namespace Still

variable {c : Call κ} {t : Step κ}

theorem andThen {f : Call κ → Step κ} (h : Still c t) (hf : Still t.1 (f t.1)) :
    Still c (t.andThen f) where
  call := calc
    (f t.1).1 = { t.1 with retired := (f t.1).1.retired } := hf.call
    _ = { c with retired := (f t.1).1.retired } := by rw [h.call]
  closed := hf.closed.trans h.closed
  effects e he := (List.mem_append.mp he).elim (h.effects e) (hf.effects e)

theorem nothing (c : Call κ) : Still c (c, []) := ⟨rfl, rfl, nofun⟩

variable [Connection κ]

theorem step (s : Setting κ) (hended : c.ended) (i : Input) : Still c (c.step s i) := by
  rw [step_of_ended s i hended]
  refine ⟨rfl, rfl, fun e he => ?_⟩
  unfold Input.surplus at he
  split at he
  · obtain ⟨track, -, rfl⟩ := List.mem_map.mp he
    exact ⟨track, rfl⟩
  · cases he

/-- The network finds no link that is live. -/
theorem network (hlinks : c.links = .empty) (remote : String) (serial : Nat)
    (n : Connection.Network κ) :
    Still c (c.updatePeer remote serial fun p => (Connection.network p n).1, []) := by
  let c' := c.updatePeer remote serial fun p => (Connection.network p n).1
  have hsame : c'.links = c.links := by
    simp only [c', updatePeer, hlinks]
    rfl
  exact ⟨congrArg (fun links => { c with links, retired := c'.retired }) hsame,
    (c.names_updatePeer ..).2, List.forall_mem_nil _⟩

end Still

end Call

namespace Agent

variable {κ : Type} [Connection κ]

omit [Connection κ] in
theorem Coherent.over {a : Agent κ} (h : a.Coherent) (ho : a.Orderly) (hended : a.call.ended) :
    a.call.Over where
  ended := hended
  links := ho.ended hended
  held := h.agrees.held_eq_none (by rw [h.agrees.ended hended]; decide)
  control := h.agrees.ended hended

/-- The call is over after a turn that tears it down, if it was not before. -/
theorem ended_turn {a : Agent κ} (h : a.running = false → a.call.ended) (s : Setting κ)
    {t : Turn κ} (ht : t.endsCall = true) : (a.turn s t).1.call.ended := by
  cases t with
  | sessionEnded => exact ended_perform_teardown s h
  | teardown | dropped => exact ended_perform_teardown s h
  | _ => cases ht

theorem still_run {a : Agent κ} (h : a.call.Over) (later : List (Setting κ × Turn κ)) :
    Call.Still a.call ((a.run later).1.call, (a.run later).2) := by
  refine run_of_steps (R := fun c t => c.Over → Call.Still c t) (fun c _ => .nothing c)
    (fun h hf hc => (h hc).andThen (hf (hc.of_still (h hc))))
    (fun s _ i hc => .step s hc.ended i)
    (fun _ remote serial n hc => .network hc.links remote serial n) a later h

/-- Whatever an agent lived through before its call was torn down, by a command or because the
session ended: no link is left, all connections that were ever made are closed, nothing is published
and the control offers to start. Whatever comes later, in any order, it stays like that, and nothing
is done but to give media back that still arrive: no link is made, nothing is sent or told, and no
input changes anything of the call. -/
theorem torn_down_for_good (history : List (Setting κ × Turn κ)) (s : Setting κ) {t : Turn κ}
    (ends : t.endsCall = true) (later : List (Setting κ × Turn κ)) :
    let down := ((run {} history).1.turn s t).1
    let made := Call.openings ((run {} history).2 ++ ((run {} history).1.turn s t).2)
    let after := (down.run later).1
    down.call.Over ∧ down.call.closed.Perm made ∧
      Call.Still down.call (after.call, (down.run later).2) ∧
      (∀ k ∈ after.call.retired, Connection.Closed k.peer) ∧
      ∀ s i, after.call.step s i = (after.call, i.surplus) := by
  intro down made after
  have horderly := Orderly.empty.run history
  have hover : down.call.Over := (coherent_empty.run history |>.turn s t).over
    (horderly.turn s t).orderly (ended_turn horderly.stopped s ends)
  have hstill := still_run hover later
  have hbooks : Call.Books {} (down.call, (run {} history).2 ++ ((run {} history).1.turn s t).2) :=
    (books_run {} history).andThen (f := fun _ => (down.call, ((run {} history).1.turn s t).2))
      (turn_of_steps .nothing .step .network (run {} history).1 s t)
  have hclosed : down.call.closed.Perm made := by
    have hledger : down.call.ledger.Perm (made ++ []) := hbooks.ledger
    rwa [List.append_nil, Call.ledger, Call.standing, hover.links] at hledger
  have hlater := hbooks.andThen (f := fun _ => (after.call, (down.run later).2))
    (books_run down later)
  exact ⟨hover, hclosed, hstill, hlater.closed (List.forall_mem_nil _),
    fun s i => Call.step_of_ended s i (hover.of_still hstill).ended⟩

/-- The session ends while a link to a participant offers and the devices are asked for a microphone.
They hand it out, the candidates of the closed connection are reported and the participant offers as
well. All that comes of it is that the microphone is stopped. -/
theorem torn_down_for_good_session_ended :
    let s : Setting := { me := some "me", connect := fun _ => some { label := "me" } }
    let say (e : Event) : SessionEvent := .message { sender := "peer", event := e }
    let history : List (Setting × Turn) :=
      [(s, .session (say (.startStream (some "me")))), (s, .start false)]
    let ends : Turn := .sessionEnded
    let later : List (Setting × Turn) :=
      [(s, .answered ⟨0, false, 0⟩ (.ok ⟨[⟨"mic", .audio⟩]⟩)), (s, .media), (s, .signal),
        (s, .session (say (.signal (.ofDescription "me" ⟨.offer, "v=0"⟩)))), (s, .teardown)]
    let down := ((run {} history).1.turn s ends).1
    ends.endsCall = true ∧ down.running = true ∧ down.signals ≠ [] ∧ down.call.Over ∧
      down.call.closed = [("peer", 1)] ∧ (down.run later).2 = [.release ⟨"mic", .audio⟩] ∧
      Call.Still down.call ((down.run later).1.call, (down.run later).2) := by
  intro s say history ends later down
  have hends : ends.endsCall = true := rfl
  obtain ⟨hover, -, hstill, -, -⟩ := torn_down_for_good history s hends later
  exact ⟨hends, by decide, by decide, hover, by decide, by decide, hstill⟩

end Agent

end Parley
