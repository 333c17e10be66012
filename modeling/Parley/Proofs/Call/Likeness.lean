import Parley.Proofs.Call.Confinement

/-!
# Calls that are alike to one participant

Two calls are alike to a participant if they publish the same and have the same link to the
participant but for its number, and closed as many links to the participant before. The number
cannot count: it tells how many links were made to anyone (`Call.Alike`).

Whatever is confined to somebody else leads to a call that is alike and sends the participant
nothing (`Call.Apart`). Whatever two calls that are alike do together, they are alike afterwards,
and the participant was sent the same by both (`Call.Together`).
-/

namespace Parley

/-! ## Links but for their numbers -/

namespace Link

variable {κ : Type}

/-- The link with another number. -/
def number (n : Nat) (l : Link κ) : Link κ := { l with serial := n }

/-- The link as if it had no number. -/
def bare (l : Link κ) : Link κ := l.number 0

@[simp] theorem number_peer (n : Nat) (l : Link κ) : (l.number n).peer = l.peer := rfl

@[simp] theorem number_phase (n : Nat) (l : Link κ) : (l.number n).phase = l.phase := rfl

@[simp] theorem number_serial (n : Nat) (l : Link κ) : (l.number n).serial = n := rfl

@[simp] theorem bare_number (n : Nat) (l : Link κ) : (l.number n).bare = l.bare := rfl

theorem eq_number_of_bare_eq {l k : Link κ} (h : l.bare = k.bare) : k = l.number k.serial :=
  calc k = k.bare.number k.serial := rfl
    _ = l.bare.number k.serial := by rw [h]
    _ = l.number k.serial := rfl

theorem negotiate_number (n : Nat) (l : Link κ) :
    (l.number n).negotiate = l.negotiate.number n := by
  unfold negotiate
  rw [number_phase]
  split <;> rfl

variable [Connection κ]

theorem flush_number (n : Nat) (l : Link κ) :
    (l.number n).flush = (l.flush.1.number n, l.flush.2) := by
  unfold flush
  rw [number_phase, number_peer]
  split <;> rfl

theorem gather_number (n : Nat) (c : Candidate) (l : Link κ) :
    (l.number n).gather c = ((l.gather c).1.number n, (l.gather c).2) := by
  unfold gather
  rw [number_phase]
  split
  · rfl
  · exact flush_number n { l with queue := l.queue ++ [c] }

end Link

/-- Two settings in which a call finds the same when it deals with a participant. -/
structure Setting.Alike {κ : Type} (r : String) (s s' : Setting κ) : Prop where
  me : s.me = s'.me
  connect : s.connect r = s'.connect r

namespace Call

variable {κ : Type} {r : String} {c d : Call κ}

/-! ## What a participant is sent -/

/-- The events for a participant, in the order in which they are sent. -/
def sentTo (r : String) (effects : List CallEffect) : List Event :=
  effects.filterMap fun
    | .send e => if e.target = some r then some e else none
    | _ => none

@[simp] theorem sentTo_append (r : String) (xs ys : List CallEffect) :
    sentTo r (xs ++ ys) = sentTo r xs ++ sentTo r ys := List.filterMap_append

theorem sentTo_eq_nil {effects : List CallEffect}
    (h : ∀ e, .send e ∈ effects → e.target ≠ some r) : sentTo r effects = [] := by
  refine List.filterMap_eq_nil_iff.mpr fun effect heffect => ?_
  cases effect with
  | send e => exact if_neg (h e heffect)
  | tell | report | opened | acquire | release => rfl

theorem sentTo_reports (l : Link κ) (events : List PeerEvent) :
    sentTo r (events.map fun e => .report (l.tag e)) = [] := by
  refine sentTo_eq_nil fun e he => ?_
  obtain ⟨_, -, hreport⟩ := List.mem_map.mp he
  cases hreport

theorem sentTo_setControl (control : Control) (c : Call κ) :
    sentTo r (c.setControl control).2 = [] := by
  unfold setControl
  split <;> rfl

/-! ## Alike -/

/-- Two calls that a participant cannot tell apart. -/
structure Alike (r : String) (c d : Call κ) : Prop where
  booth : c.booth = d.booth
  link : (c.links.find? r).map Link.bare = (d.links.find? r).map Link.bare
  earlier : (c.earlier r).length = (d.earlier r).length

/-- A step after which the call is alike, and that sends the participant nothing. -/
structure Apart (r : String) (c : Call κ) (t : Step κ) : Prop where
  alike : Alike r c t.1
  silent : sentTo r t.2 = []

/-- Two steps after which the calls are alike, and that send the participant the same. -/
structure Together (r : String) (t u : Step κ) : Prop where
  alike : Alike r t.1 u.1
  sent : sentTo r t.2 = sentTo r u.2

namespace Alike

theorem refl (r : String) (c : Call κ) : Alike r c c := ⟨rfl, rfl, rfl⟩

theorem symm (h : Alike r c d) : Alike r d c := ⟨h.booth.symm, h.link.symm, h.earlier.symm⟩

theorem trans {e : Call κ} (h : Alike r c d) (h' : Alike r d e) : Alike r c e :=
  ⟨h.booth.trans h'.booth, h.link.trans h'.link, h.earlier.trans h'.earlier⟩

theorem held (h : Alike r c d) : c.held = d.held := congrArg Booth.held h.booth

theorem control (h : Alike r c d) : c.control = d.control := congrArg Booth.control h.booth

theorem epoch (h : Alike r c d) : c.epoch = d.epoch := congrArg Booth.epoch h.booth

theorem ended (h : Alike r c d) : c.ended = d.ended := congrArg Booth.ended h.booth

/-- The two links are one but for the number, or there are none. -/
theorem find? (h : Alike r c d) :
    (c.links.find? r = none ∧ d.links.find? r = none) ∨
      ∃ l n, c.links.find? r = some l ∧ d.links.find? r = some (l.number n) := by
  have hlink := h.link
  cases hl : c.links.find? r with
  | none =>
      rw [hl, Option.map_none, eq_comm, Option.map_eq_none_iff] at hlink
      exact .inl ⟨rfl, hlink⟩
  | some l =>
      rw [hl, Option.map_some, eq_comm, Option.map_eq_some_iff] at hlink
      obtain ⟨k, hk, hbare⟩ := hlink
      refine .inr ⟨l, k.serial, rfl, ?_⟩
      rw [hk, ← Link.eq_number_of_bare_eq hbare.symm]

theorem put (h : Alike r c d) (l : Link κ) (n : Nat) :
    Alike r (c.put r l) (d.put r (l.number n)) where
  booth := h.booth
  link := by rw [find?_put_self, find?_put_self, Option.map_some, Option.map_some, Link.bare_number]
  earlier := h.earlier

/-- Links may change alike, and what is published with them. -/
theorem map (h : Alike r c d) {c' d' : Call κ} {f : Link κ → Link κ}
    (hf : ∀ n l, f (l.number n) = (f l).number n) (hbooth : c'.booth = d'.booth)
    (hc : c'.links = c.links.map fun _ l => f l) (hd : d'.links = d.links.map fun _ l => f l)
    (hcold : c'.retired = c.retired) (hdold : d'.retired = d.retired) : Alike r c' d' where
  booth := hbooth
  link := by
    rw [hc, hd, Table.find?_map, Table.find?_map]
    rcases h.find? with ⟨hcnone, hdnone⟩ | ⟨l, n, hl, hk⟩
    · rw [hcnone, hdnone]
    · rw [hl, hk, Option.map_some, Option.map_some, Option.map_some, Option.map_some, hf,
        Link.bare_number]
  earlier := by rw [Call.earlier, Call.earlier, hcold, hdold]; exact h.earlier

/-- Links may stay while something is published in both calls, or the control changes. -/
theorem congr (h : Alike r c d) {c' d' : Call κ} (hbooth : c'.booth = d'.booth)
    (hc : c'.links = c.links) (hd : d'.links = d.links) (hcold : c'.retired = c.retired)
    (hdold : d'.retired = d.retired) : Alike r c' d' where
  booth := hbooth
  link := by rw [hc, hd]; exact h.link
  earlier := by rw [Call.earlier, Call.earlier, hcold, hdold]; exact h.earlier

end Alike

namespace Apart

variable {t u : Step κ}

theorem nothing (r : String) (c : Call κ) : Apart r c (c, []) := ⟨.refl r c, rfl⟩

theorem of_confined {r' : String} (h : Confined r' c t) (hr : r ≠ r') : Apart r c t where
  alike := ⟨h.booth.symm, by rw [h.links r hr], by rw [h.earlier r hr]⟩
  silent := sentTo_eq_nil fun e he htarget =>
    hr (Option.some.inj (htarget.symm.trans (h.sends e he)))

theorem andThen {f : Call κ → Step κ} (h : Apart r c t) (hf : Apart r t.1 (f t.1)) :
    Apart r c (t.andThen f) where
  alike := h.alike.trans hf.alike
  silent := by rw [Step.andThen_effects, sentTo_append, h.silent, hf.silent]; rfl

/-- Neither step matters to the participant. -/
theorem together (hc : Apart r c t) (hd : Apart r d u) (h : Alike r c d) : Together r t u where
  alike := (hc.alike.symm.trans h).trans hd.alike
  sent := by rw [hc.silent, hd.silent]

end Apart

namespace Together

variable {t u : Step κ}

theorem symm (h : Together r t u) : Together r u t := ⟨h.alike.symm, h.sent.symm⟩

theorem trans {v : Step κ} (h : Together r t u) (h' : Together r u v) : Together r t v :=
  ⟨h.alike.trans h'.alike, h.sent.trans h'.sent⟩

theorem andThen {f g : Call κ → Step κ} (h : Together r t u)
    (hf : Alike r t.1 u.1 → Together r (f t.1) (g u.1)) :
    Together r (t.andThen f) (u.andThen g) where
  alike := (hf h.alike).alike
  sent := by
    rw [Step.andThen_effects, Step.andThen_effects, sentTo_append, sentTo_append, h.sent,
      (hf h.alike).sent]

/-- What went before did not matter to the participant. -/
theorem after_apart {f : Call κ → Step κ} (h : Apart r c t) (hf : Together r (f t.1) u) :
    Together r (t.andThen f) u where
  alike := hf.alike
  sent := by rw [Step.andThen_effects, sentTo_append, h.silent, List.nil_append, hf.sent]

/-- What comes afterwards does not matter to the participant. -/
theorem then_apart {f : Call κ → Step κ} (h : Together r t u) (hf : Apart r t.1 (f t.1)) :
    Together r (t.andThen f) u where
  alike := hf.alike.symm.trans h.alike
  sent := by rw [Step.andThen_effects, sentTo_append, hf.silent, List.append_nil, h.sent]

theorem say (h : Alike r c d) (effects : List CallEffect) :
    Together r (c, effects) (d, effects) := ⟨h, rfl⟩

theorem nothing (h : Alike r c d) : Together r (c, []) (d, []) := say h []

theorem setControl (h : Alike r c d) (control : Control) :
    Together r (c.setControl control) (d.setControl control) := by
  refine ⟨?_, by rw [sentTo_setControl, sentTo_setControl]⟩
  unfold Call.setControl
  rw [← h.control]
  split
  · exact h
  · exact h.congr (by rw [booth, booth, h.held, h.epoch, h.ended]) rfl rfl rfl rfl

theorem putReported {α : Type} (h : Alike r c d) (l : Link κ) (n : Nat) (o : Reply κ α) :
    Together r (c.putReported r l o) (d.putReported r (l.number n) o) where
  alike := h.put { l with peer := o.after } n
  sent := by rw [Call.putReported, Call.putReported, sentTo_reports, sentTo_reports]

theorem putReady (h : Alike r c d) (l : Link κ) (n : Nat) (xs : List Candidate) :
    Together r (c.putReady r (l, xs)) (d.putReady r (l.number n, xs)) := ⟨h.put l n, rfl⟩

end Together

end Call

end Parley
