import Parley.Proofs.Call.Reactions

/-!
# Local media apart from links

What a call does with the devices depends on a small part of it, its booth: the stream it publishes,
the control, the epoch, and whether it was torn down. No link, no setting and nothing that the
session or a connection reports has a say in it. `Booth.step` says how the booth moves, and
`booth_step` that it moves like that in every step of a call, with the requests and the stopped
tracks of that step. `Booth.Agrees` is what the moves of a booth keep of it and of the requests that
are out.
-/

namespace Parley

/-- The part of a call that deals with the devices. -/
structure Booth where
  held : Option MediaStream
  control : Control
  epoch : Nat
  ended : Bool

namespace Booth

/-- A booth after a step, the tracks that the step stopped, and the epochs of its requests. -/
abbrev Step := Booth × List Track × List Nat

def start (b : Booth) : Step :=
  if b.ended ∨ b.control ≠ .start ∨ b.held.isSome then (b, [], [])
  else ({ b with control := .pending }, [], [b.epoch])

def leave (b : Booth) : Step :=
  if b.ended then (b, [], [])
  else
    ({ b with held := none, control := .start, epoch := b.epoch + 1 }, (b.held.getD {}).tracks, [])

def teardown (b : Booth) : Step :=
  if b.ended then (b, [], [])
  else
    ({ held := none, control := .start, epoch := b.epoch + 1, ended := true },
      (b.held.getD {}).tracks, [])

def media (b : Booth) (epoch : Nat) (result : Except MediaError MediaStream) : Step :=
  if b.ended ∨ epoch ≠ b.epoch then (b, (result.toOption.getD {}).tracks, [])
  else
    match result with
    | .error _ => ({ b with control := .start }, [], [])
    | .ok stream => ({ b with held := some stream, control := .stop }, [], [])

def step (b : Booth) : Call.Input → Step
  | .session _ | .signal _ => (b, [], [])
  | .start _ => b.start
  | .leave => b.leave
  | .teardown => b.teardown
  | .media epoch result => b.media epoch result

@[simp] theorem leave_asked (b : Booth) : b.leave.2.2 = [] := by
  unfold leave; split <;> rfl

@[simp] theorem teardown_asked (b : Booth) : b.teardown.2.2 = [] := by
  unfold teardown; split <;> rfl

@[simp] theorem media_asked (b : Booth) (epoch : Nat) (result : Except MediaError MediaStream) :
    (b.media epoch result).2.2 = [] := by
  unfold media
  split
  · rfl
  · cases result <;> rfl

theorem teardown_ended (b : Booth) : b.teardown.1.ended := by
  unfold teardown
  split
  · assumption
  · rfl

def tracks (b : Booth) : List Track := (b.held.getD {}).tracks

/-! ## What is out -/

/-- The booth agrees with the epochs of the requests that are out, which are those that were not
answered and those whose answers were not taken: one request of the current epoch is out while the
control is pending and none otherwise, and the control offers to stop while a stream is
published. -/
structure Agrees (b : Booth) (out : List Nat) : Prop where
  past : ∀ e ∈ out, e ≤ b.epoch
  pending : out.count b.epoch = if b.control = .pending then 1 else 0
  holds : b.held.isSome ↔ b.control = .stop
  ended : b.ended → b.control = .start

namespace Agrees

variable {b : Booth} {out : List Nat}

theorem perm (h : b.Agrees out) {out' : List Nat} (hp : out.Perm out') : b.Agrees out' :=
  ⟨fun e he => h.past e (hp.mem_iff.mpr he), (hp.count_eq _).symm.trans h.pending, h.holds, h.ended⟩

theorem held_eq_none (h : b.Agrees out) (hc : b.control ≠ .stop) : b.held = none := by
  rw [← Option.not_isSome_iff_eq_none, h.holds]
  exact hc

/-- A booth that is over waits for nothing, so it does not matter what gets lost. -/
theorem lose (h : b.Agrees out) (hend : b.ended) {out' : List Nat} (hs : out'.Sublist out) :
    b.Agrees out' where
  past e he := h.past e (hs.subset he)
  pending := by
    have hcontrol := h.ended hend
    have hcount := h.pending
    have hle := hs.count_le b.epoch
    simp only [hcontrol, reduceCtorEq, if_false] at hcount ⊢
    omega
  holds := h.holds
  ended := h.ended

theorem start (h : b.Agrees out) : b.start.1.Agrees (out ++ b.start.2.2) := by
  unfold Booth.start
  split
  · rw [List.append_nil]
    exact h
  · rename_i hidle
    simp only [not_or, ne_eq, Decidable.not_not] at hidle
    obtain ⟨hend, hcontrol, hheld⟩ := hidle
    have hcount := h.pending
    simp only [hcontrol, reduceCtorEq, if_false] at hcount
    refine ⟨?_, ?_, ?_, fun he => absurd he hend⟩
    · intro e he
      rcases List.mem_append.mp he with hout | hnew
      · exact h.past e hout
      · exact Nat.le_of_eq (List.mem_singleton.mp hnew)
    · simp [hcount]
    · simpa using hheld

/-- Nothing that is out belongs to the next epoch. -/
theorem next (h : b.Agrees out) (ended : Bool) :
    (Booth.mk none .start (b.epoch + 1) ended).Agrees out where
  past e he := Nat.le_succ_of_le (h.past e he)
  pending := by
    have hnot : b.epoch + 1 ∉ out := fun hmem => absurd (h.past _ hmem) (by omega)
    simp [List.count_eq_zero.mpr hnot]
  holds := by simp
  ended _ := rfl

theorem leave (h : b.Agrees out) : b.leave.1.Agrees out := by
  unfold Booth.leave
  split
  · exact h
  · exact h.next b.ended

theorem teardown (h : b.Agrees out) : b.teardown.1.Agrees out := by
  unfold Booth.teardown
  split
  · exact h
  · exact h.next true

/-- An answer in the current epoch is the only one, and nothing is published yet. -/
theorem answered {e : Nat} (h : b.Agrees (e :: out)) (he : e = b.epoch) :
    b.control = .pending ∧ out.count b.epoch = 0 ∧ b.held = none ∧ ¬ b.ended := by
  have hcount := h.pending
  rw [← he, List.count_cons_self] at hcount
  have hpending : b.control = .pending := by
    refine Decidable.byContradiction fun hc => ?_
    rw [if_neg hc] at hcount
    omega
  rw [if_pos hpending] at hcount
  refine ⟨hpending, by rw [← he]; omega, h.held_eq_none (by simp [hpending]), fun hend => ?_⟩
  have hstart := h.ended hend
  rw [hpending] at hstart
  cases hstart

theorem media {e : Nat} (h : b.Agrees (e :: out)) (result : Except MediaError MediaStream) :
    (b.media e result).1.Agrees out := by
  have hpast : ∀ e ∈ out, e ≤ b.epoch := fun e he => h.past e (List.mem_cons_of_mem _ he)
  by_cases he : e = b.epoch
  · obtain ⟨hpending, hcount, hheld, hend⟩ := h.answered he
    have hnow : ¬ (b.ended ∨ e ≠ b.epoch) := by simp [hend, he]
    unfold Booth.media
    rw [if_neg hnow]
    cases result with
    | error _ => exact ⟨hpast, by simp [hcount], by simp [hheld], fun _ => rfl⟩
    | ok stream => exact ⟨hpast, by simp [hcount], by simp, fun hend' => absurd hend' hend⟩
  · unfold Booth.media
    rw [if_pos (.inr he)]
    refine ⟨hpast, ?_, h.holds, h.ended⟩
    rw [← h.pending, List.count_cons_of_ne he]

end Agrees

end Booth

namespace Call

variable {κ : Type}

def booth (c : Call κ) : Booth := ⟨c.held, c.control, c.epoch, c.ended⟩

@[simp] theorem booth_empty : ({} : Call κ).booth = ⟨none, .start, 0, false⟩ := rfl

@[simp] theorem booth_held (c : Call κ) : c.booth.held = c.held := rfl

@[simp] theorem booth_control (c : Call κ) : c.booth.control = c.control := rfl

@[simp] theorem booth_epoch (c : Call κ) : c.booth.epoch = c.epoch := rfl

@[simp] theorem booth_ended (c : Call κ) : c.booth.ended = c.ended := rfl

/-- The tracks that effects stop. -/
def released (effects : List CallEffect) : List Track :=
  effects.filterMap fun
    | .release t => some t
    | _ => none

def asked (effects : List CallEffect) : List Nat :=
  effects.filterMap fun
    | .acquire _ epoch => some epoch
    | _ => none

@[simp] theorem released_append (xs ys : List CallEffect) :
    released (xs ++ ys) = released xs ++ released ys := List.filterMap_append

@[simp] theorem asked_append (xs ys : List CallEffect) :
    asked (xs ++ ys) = asked xs ++ asked ys := List.filterMap_append

@[simp] theorem released_send (e : Event) (xs : List CallEffect) :
    released (.send e :: xs) = released xs := rfl

@[simp] theorem released_tell (e : CallEvent) (xs : List CallEffect) :
    released (.tell e :: xs) = released xs := rfl

@[simp] theorem released_acquire (video : Bool) (epoch : Nat) (xs : List CallEffect) :
    released (.acquire video epoch :: xs) = released xs := rfl

@[simp] theorem asked_acquire (video : Bool) (epoch : Nat) (xs : List CallEffect) :
    asked (.acquire video epoch :: xs) = epoch :: asked xs := rfl

@[simp] theorem asked_send (e : Event) (xs : List CallEffect) :
    asked (.send e :: xs) = asked xs := rfl

@[simp] theorem asked_tell (e : CallEvent) (xs : List CallEffect) :
    asked (.tell e :: xs) = asked xs := rfl

@[simp] theorem released_nil : released [] = [] := rfl

@[simp] theorem asked_nil : asked [] = [] := rfl

@[simp] theorem released_releaseAll (s : MediaStream) : released (releaseAll s) = s.tracks := by
  rw [released, releaseAll, List.filterMap_map]
  exact List.filterMap_some

@[simp] theorem asked_releaseAll (s : MediaStream) : asked (releaseAll s) = [] := by
  simp [asked, releaseAll]

@[simp] theorem setControl_booth (control : Control) (c : Call κ) :
    (c.setControl control).1.booth = { c.booth with control } := by
  unfold setControl
  split
  · rename_i h
    rw [← h]; rfl
  · rfl

@[simp] theorem released_setControl (control : Control) (c : Call κ) :
    released (c.setControl control).2 = [] := by
  unfold setControl; split <;> rfl

@[simp] theorem asked_setControl (control : Control) (c : Call κ) :
    asked (c.setControl control).2 = [] := by
  unfold setControl; split <;> rfl

/-! ## Steps aside -/

/-- A step that has nothing to do with the devices. -/
structure Aside (c : Call κ) (t : Step κ) : Prop where
  booth : t.1.booth = c.booth
  released : released t.2 = []
  asked : asked t.2 = []

namespace Aside

variable {c : Call κ} {t : Step κ}

theorem andThen {f : Call κ → Step κ} (h : Aside c t) (hf : Aside t.1 (f t.1)) :
    Aside c (t.andThen f) where
  booth := hf.booth.trans h.booth
  released := by rw [Step.andThen_effects, released_append, h.released, hf.released]; rfl
  asked := by rw [Step.andThen_effects, asked_append, h.asked, hf.asked]; rfl

theorem nothing (c : Call κ) : Aside c (c, []) := ⟨rfl, rfl, rfl⟩

end Aside

theorem booth_of_aside {c : Call κ} {t : Step κ} (h : Aside c t) :
    (t.1.booth, released t.2, asked t.2) = (c.booth, [], []) := by
  rw [h.booth, h.released, h.asked]

theorem booth_startMedia (video : Bool) (c : Call κ) :
    ((c.startMedia video).1.booth, released (c.startMedia video).2, asked (c.startMedia video).2) =
      c.booth.start := by
  unfold startMedia Booth.start
  by_cases h : c.ended ∨ c.control ≠ .start ∨ c.held.isSome
  · have hb : c.booth.ended ∨ c.booth.control ≠ .start ∨ c.booth.held.isSome := h
    rw [if_pos h, if_pos hb]
    rfl
  · have hb : ¬ (c.booth.ended ∨ c.booth.control ≠ .start ∨ c.booth.held.isSome) := h
    rw [if_neg h, if_neg hb]
    have hepoch : (c.setControl .pending).1.epoch = c.epoch :=
      congrArg Booth.epoch (setControl_booth .pending c)
    simp [hepoch]

variable [Connection κ]

theorem aside_of_op {s : Setting κ} {q : Event → Prop} {c : Call κ} {t : Step κ}
    (h : Op s q c t) : Aside c t := by
  cases h with
  | note _ _ => exact ⟨rfl, rfl, rfl⟩
  | say _ => exact ⟨rfl, rfl, rfl⟩
  | refuse _ _ => exact ⟨rfl, rfl, rfl⟩
  | make _ _ => exact ⟨rfl, rfl, rfl⟩
  | report o _ _ => exact ⟨rfl, by simp [putReported, released], by simp [putReported, asked]⟩
  | describe _ _ =>
      exact ⟨rfl, by simp [sendDescription, released], by simp [sendDescription, asked]⟩
  | track _ _ => exact ⟨rfl, rfl, rfl⟩
  | clear _ => split <;> exact ⟨rfl, rfl, rfl⟩
  | remove hl =>
      rw [remove, hl]
      exact ⟨rfl, rfl, rfl⟩

theorem aside_of_ops {s : Setting κ} {q : Event → Prop} {c : Call κ} {t : Step κ}
    (h : Ops s q c t) : Aside c t := by
  induction h with
  | nothing c => exact .nothing c
  | op h => exact aside_of_op h
  | andThen h hf ih ihf => exact ih.andThen ihf

/-- No reaction to the session or to a connection has to do with the devices. -/
theorem aside_of_reacts {s : Setting κ} {q : Event → Prop} {c : Call κ} {t : Step κ}
    (h : Reacts s q c t) : Aside c t := by
  induction h with
  | ops h => exact aside_of_ops h
  | ready _ _ _ =>
      exact ⟨rfl, by simp [putReady, sendCandidate, released],
        by simp [putReady, sendCandidate, asked]⟩
  | andThen h hf ih => exact (aside_of_ops h).andThen ih

/-! ## Every step -/

theorem booth_publish (s : Setting κ) (stream : MediaStream) (c : Call κ) :
    ((c.publish s stream).1.booth, released (c.publish s stream).2, asked (c.publish s stream).2) =
      ({ c.booth with held := some stream, control := .stop }, [], []) := by
  unfold publish
  have haside := aside_of_ops (ops_offerAll (s := s) (q := fun _ => False)
    (c.links.map fun _ l => l.attach stream).keys
    { c with links := c.links.map fun _ l => l.attach stream, held := some stream })
  simp only [Step.andThen_call, Step.andThen_effects, released_append, asked_append,
    haside.released, haside.asked]
  simp only [setControl_booth, haside.booth]
  simp [booth]

theorem booth_onMedia (s : Setting κ) (epoch : Nat) (result : Except MediaError MediaStream)
    (c : Call κ) :
    ((c.onMedia s epoch result).1.booth, released (c.onMedia s epoch result).2,
      asked (c.onMedia s epoch result).2) = c.booth.media epoch result := by
  unfold onMedia Booth.media
  by_cases h : c.ended ∨ epoch ≠ c.epoch
  · have hb : c.booth.ended ∨ epoch ≠ c.booth.epoch := h
    rw [if_pos h, if_pos hb]
    cases result <;> simp [Except.toOption]
  · have hb : ¬ (c.booth.ended ∨ epoch ≠ c.booth.epoch) := h
    rw [if_neg h, if_neg hb]
    cases result with
    | error e => simp
    | ok stream => exact booth_publish s stream c

theorem booth_leave (c : Call κ) :
    (c.leave.1.booth, released c.leave.2, asked c.leave.2) = c.booth.leave := by
  unfold leave Booth.leave
  by_cases h : c.ended
  · have hb : c.booth.ended := h
    rw [if_pos h, if_pos hb]
    rfl
  · have hb : ¬ c.booth.ended := h
    rw [if_neg h, if_neg hb]
    simp only [farewell, withdraw, Step.andThen_call, Step.andThen_effects, setControl_booth]
    cases hheld : c.held <;> simp [booth, hheld]

theorem booth_teardown (c : Call κ) :
    (c.teardown.1.booth, released c.teardown.2, asked c.teardown.2) = c.booth.teardown := by
  unfold teardown Booth.teardown
  by_cases h : c.ended
  · have hb : c.booth.ended := h
    rw [if_pos h, if_pos hb]
    rfl
  · have hb : ¬ c.booth.ended := h
    rw [if_neg h, if_neg hb]
    simp only [Step.andThen_call, Step.andThen_effects, setControl_booth]
    simp [tellStreams, booth]

/-- In every step the booth moves by itself, with the requests and the stopped tracks of the
step. -/
theorem booth_step (s : Setting κ) (c : Call κ) (i : Input) :
    ((c.step s i).1.booth, released (c.step s i).2, asked (c.step s i).2) = c.booth.step i := by
  cases i with
  | session e => exact booth_of_aside (aside_of_reacts (reacts_onSession s e c))
  | start video => exact booth_startMedia video c
  | leave => exact booth_leave c
  | teardown => exact booth_teardown c
  | signal signal =>
      exact booth_of_aside (aside_of_reacts (reacts_onSignal s (fun _ => False) signal c))
  | media epoch result => exact booth_onMedia s epoch result c

end Call

end Parley
