import Parley.Proofs.Call.Reactions

/-!
# The operations that steps are made of

What a call does about its own media is made of few operations (`Call.MediaOp`), as its reactions are
made of theirs; among them it may offer to participants (`Call.Builds`). Every step that does not
end the call is made of both (`Call.makes_step`). What all of them keep, and what can go on, every
such step keeps.
-/

namespace Parley.Call

variable {κ : Type} [Connection κ]

/-- One operation about local media. -/
inductive MediaOp (c : Call κ) : Step κ → Prop where
  | control (control : Control) : MediaOp c (c.setControl control)
  | epoch : MediaOp c ({ c with epoch := c.epoch + 1 }, [])
  | attach (stream : MediaStream) :
      MediaOp c ({ c with links := c.links.map fun _ l => l.attach stream, held := some stream }, [])
  | detach (stream : MediaStream) :
      MediaOp c ({ c with held := none, links := c.links.map fun _ l => l.detach stream },
        releaseAll stream)
  | release (stream : MediaStream) : MediaOp c (c, releaseAll stream)
  | acquire (video : Bool) (epoch : Nat) : MediaOp c (c, [.acquire video epoch])
  | say (e : Event) : MediaOp c (c, [.send e])
  | notice (n : Notice) : MediaOp c (c, [.tell (.notice n)])

/-- Steps of one kind and operations about local media, one after the other. -/
inductive Builds (D : Call κ → Step κ → Prop) : Call κ → Step κ → Prop where
  | step {c : Call κ} {t : Step κ} (h : D c t) : Builds D c t
  | media {c : Call κ} {t : Step κ} (h : MediaOp c t) : Builds D c t
  | andThen {c : Call κ} {t : Step κ} {f : Call κ → Step κ} (h : Builds D c t)
      (hf : Builds D t.1 (f t.1)) : Builds D c (t.andThen f)

section

variable {D : Call κ → Step κ → Prop}

/-- What can go on and every step of the kind and every operation keeps, all of them keep. -/
theorem of_builds {R : Call κ → Step κ → Prop} {c : Call κ} {t : Step κ} (h : Builds D c t)
    (step : ∀ {c t}, D c t → R c t) (media : ∀ {c t}, MediaOp c t → R c t)
    (andThen : ∀ {c t} {f : Call κ → Step κ}, R c t → R t.1 (f t.1) → R c (t.andThen f)) :
    R c t := by
  induction h with
  | step h => exact step h
  | media h => exact media h
  | andThen _ _ ih ihf => exact andThen ih ihf

theorem Builds.nothing (c : Call κ) : Builds D c (c, []) := .media (.release {})

theorem builds_startMedia (video : Bool) (c : Call κ) : Builds D c (c.startMedia video) := by
  unfold startMedia
  split
  · exact .nothing c
  · exact (Builds.media (.control .pending)).andThen (f := fun c => (c, [_]))
      (.media (.acquire video _))

theorem builds_leave (c : Call κ) : Builds D c c.leave := by
  unfold leave
  split
  · exact .nothing c
  · have hwithdraw : ∀ c : Call κ, Builds D c c.withdraw := by
      intro c
      unfold withdraw
      split
      · exact .nothing c
      · exact .media (.detach _)
    refine (Builds.media .epoch).andThen (f := fun c => c.withdraw.andThen farewell) ?_
    exact (hwithdraw _).andThen ((Builds.media (.say _)).andThen (.media (.control .start)))

variable {s : Setting κ} (hoffers : ∀ remotes c, D c (offerAll s remotes c))

include hoffers

theorem builds_publish (stream : MediaStream) (c : Call κ) : Builds D c (c.publish s stream) := by
  let c' : Call κ := { c with links := c.links.map fun _ l => l.attach stream, held := some stream }
  have hrest : Builds D c' (c.publish s stream) :=
    (Builds.step (hoffers c'.links.keys c')).andThen
      (f := fun c => Step.andThen (c, [_]) (setControl .stop))
      ((Builds.media (.say _)).andThen (.media (.control .stop)))
  exact (Builds.media (.attach stream)).andThen (f := fun _ => c.publish s stream) hrest

theorem builds_onMedia (epoch : Nat) (result : Except MediaError MediaStream) (c : Call κ) :
    Builds D c (c.onMedia s epoch result) := by
  unfold onMedia
  split
  · split
    · exact .media (.release _)
    · exact .nothing c
  · split
    · exact (Builds.media (.control .start)).andThen (f := fun c => (c, [_])) (.media (.notice _))
    · exact builds_publish hoffers _ c

end

/-- Reactions and operations about local media, one after the other. -/
inductive Makes (s : Setting κ) : Call κ → Step κ → Prop where
  | reacts {q : Event → Prop} {c : Call κ} {t : Step κ} (h : Reacts s q c t) : Makes s c t
  | media {c : Call κ} {t : Step κ} (h : MediaOp c t) : Makes s c t
  | andThen {c : Call κ} {t : Step κ} {f : Call κ → Step κ} (h : Makes s c t)
      (hf : Makes s t.1 (f t.1)) : Makes s c (t.andThen f)

variable {s : Setting κ} {c : Call κ}

theorem Makes.of_builds {t : Step κ} (h : Builds (Makes s) c t) : Makes s c t :=
  Call.of_builds h id .media .andThen

theorem makes_offerAll (remotes : List String) (c : Call κ) :
    Makes s c (offerAll s remotes c) :=
  .reacts (q := fun _ => False) (.ops (ops_offerAll remotes c))

/-- Every step but the one that ends the call. -/
theorem makes_step {i : Input} (hi : i ≠ .teardown) (s : Setting κ) (c : Call κ) :
    Makes s c (c.step s i) := by
  cases i with
  | session e => exact .reacts (reacts_onSession s e c)
  | start video => exact .of_builds (builds_startMedia video c)
  | leave => exact .of_builds (builds_leave c)
  | teardown => exact absurd rfl hi
  | signal signal => exact .reacts (reacts_onSignal s (fun _ => False) signal c)
  | media epoch result => exact .of_builds (builds_onMedia makes_offerAll epoch result c)

section

variable {R : Call κ → Step κ → Prop}
  (andThen : ∀ {c t} {f : Call κ → Step κ}, R c t → R t.1 (f t.1) → R c (t.andThen f))
  (nothing : ∀ c, R c (c, [])) (op : ∀ {s q c t}, Op s q c t → R c t)

include andThen nothing op

theorem of_ops {q : Event → Prop} {t : Step κ} (h : Ops s q c t) : R c t := by
  induction h with
  | nothing c => exact nothing c
  | op h => exact op h
  | andThen _ _ ih ihf => exact andThen ih ihf

variable (ready : ∀ {c : Call κ} {remote l} {k : Link κ × List Candidate},
    c.links.find? remote = some l → k.1.Follows l → R c (c.putReady remote k))
  (media : ∀ {c t}, MediaOp c t → R c t)

include ready media

/-- What can go on and every operation keeps, every step keeps that does not end the call. -/
theorem of_makes {t : Step κ} (h : Makes s c t) : R c t := by
  induction h with
  | @reacts q c t h =>
      induction h with
      | ops h => exact of_ops andThen nothing op h
      | ready hl hk _ => exact ready hl hk
      | andThen h _ ih => exact andThen (of_ops andThen nothing op h) ih
  | media h => exact media h
  | andThen _ _ ih ihf => exact andThen ih ihf

end

end Parley.Call
