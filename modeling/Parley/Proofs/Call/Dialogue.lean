import Parley.Call.Duet
import Parley.Proofs.Call.Lines

/-!
# Dialogues

Two sides that negotiate are described by their stances, the descriptions on the way to each of them
and what was said so far. A side offers of its own accord, or hears the oldest description on the
way to it; when offers cross, one side yields. Nothing ties an answer to the offer it answers, so
after offers that were repeated while one was still unanswered, a side may take the answer to an
earlier offer as the answer to a later one.

The invariant is kept for each side by itself (`Half`). Two of its clauses carry the argument. While
an offer waits, nothing but offers can be last on the way to the other side (`ends`). And if such an
offer is no longer on its way, the other side has one of its own out or has answered it, with the
last answer that was given at all (`out`). From these follows that the last answer given is what its
giver holds once all offers have arrived (`kept`), and with it when both sides agree
(`Dialogue.mirrors_iff`).
-/

namespace Parley

theorem Side.other_ne (x : Side) : x.other ≠ x := by cases x <;> nofun

theorem Side.ne_other (x : Side) : x ≠ x.other := x.other_ne.symm

@[simp] theorem Side.other_other (x : Side) : x.other.other = x := by cases x <;> rfl

theorem Side.eq_or_eq_other (x y : Side) : y = x ∨ y = x.other := by
  cases x <;> cases y <;> simp [Side.other]

/-! ## What was said last -/

def lastOffer (ds : List Description) : Option Description := (ds.filter (·.isOffer)).getLast?

def NoOffer (ds : List Description) : Prop := ∀ d ∈ ds, d.kind ≠ .offer

theorem noOffer_of_eq_nil {ds : List Description} (h : ds = []) : NoOffer ds := by
  rw [h]
  exact List.forall_mem_nil _

theorem isOffer_iff {d : Description} : d.isOffer = true ↔ d.kind = .offer := by
  simp [Description.isOffer]

theorem lastOffer_append_offer (ds : List Description) {o : Description} (ho : o.kind = .offer) :
    lastOffer (ds ++ [o]) = some o := by
  simp [lastOffer, isOffer_iff, ho]

theorem lastOffer_append_other (ds : List Description) {d : Description} (hd : d.kind ≠ .offer) :
    lastOffer (ds ++ [d]) = lastOffer ds := by
  simp [lastOffer, isOffer_iff, hd]

theorem lastOffer_cons_of_noOffer {ds : List Description} (h : NoOffer ds) {o : Description}
    (ho : o.kind = .offer) : lastOffer (o :: ds) = some o := by
  have hnone : ds.filter (·.isOffer) = [] :=
    List.filter_eq_nil_iff.mpr fun d hd => by rw [isOffer_iff]; exact h d hd
  simp [lastOffer, isOffer_iff, ho, hnone]

theorem lastOffer_cons_of_some {ds : List Description} {d d' : Description}
    (h : lastOffer ds = some d') : lastOffer (d :: ds) = some d' := by
  unfold lastOffer at h ⊢
  by_cases hd : d.isOffer = true
  · rw [List.filter_cons_of_pos hd, List.getLast?_cons, h]
    rfl
  · rw [List.filter_cons_of_neg hd, h]

theorem getLast?_cons_of_some {ds : List Description} {d d' : Description}
    (h : ds.getLast? = some d') : (d :: ds).getLast? = some d' := by
  rw [List.getLast?_cons, h]
  rfl

theorem noOffer_append_offer {ds : List Description} {o : Description} (ho : o.kind = .offer) :
    ¬ NoOffer (ds ++ [o]) := fun h => h o (by simp) ho

theorem noOffer_append_other {ds : List Description} {d : Description} (hd : d.kind ≠ .offer) :
    NoOffer (ds ++ [d]) ↔ NoOffer ds := by
  constructor
  · exact fun h d' hd' => h d' (List.mem_append_left _ hd')
  · intro h d' hd'
    rcases List.mem_append.mp hd' with hd' | hd'
    · exact h d' hd'
    · exact List.mem_singleton.mp hd' ▸ hd

theorem noOffer_cons_other {ds : List Description} {d : Description} (hd : d.kind ≠ .offer) :
    NoOffer (d :: ds) ↔ NoOffer ds := by
  simp [NoOffer, hd]

/-! ## The invariant, from one side -/

/-- What holds for one side of a dialogue: its stance and that of the other side, the descriptions
on the way to it and to the other side, the last offers of both, and the last answer with the side
that gave it. -/
structure Half (me them : Side) (mine yours : Stance) (inbox outbox : List Description)
    (myOffer yourOffer : Option Description) (answer : Option (Side × Description)) : Prop where
  agreed : ∀ l r, mine.agreed = some (l, r) →
    (l.kind = .offer ∧ r.kind = .answer) ∨ (l.kind = .answer ∧ r.kind = .offer)
  /-- An offer that waits is the last one. -/
  waiting : ∀ o, mine.offered = some o → o.kind = .offer ∧ myOffer = some o
  /-- So is one that was answered, if none waits. -/
  taken : ∀ l r, mine.offered = none → mine.agreed = some (l, r) → l.kind = .offer →
    myOffer = some l
  /-- The offer that was answered is the last one of the other side, once all have arrived. -/
  answered : ∀ l r, mine.offered = none → mine.agreed = some (l, r) → r.kind = .offer →
    NoOffer inbox → yourOffer = some r
  /-- The last offer on the way is the last one of the other side. -/
  coming : ∀ d, lastOffer inbox = some d → yourOffer = some d
  /-- While an offer waits, no answer is last on the way to the other side. -/
  ends : ∀ d, mine.offered.isSome → outbox.getLast? = some d → d.kind = .offer
  /-- An offer that waits and has arrived crossed another one or got the last answer. -/
  out : ∀ o, mine.offered = some o → NoOffer outbox →
    yours.offered.isSome ∨ ∃ a, answer = some (them, a) ∧ yours.agreed = some (a, o)
  /-- The last answer is what its giver holds, once all offers have arrived. -/
  kept : ∀ a, answer = some (me, a) → mine.offered = none → NoOffer inbox → NoOffer outbox →
    ∃ r, mine.agreed = some (a, r)
  known : (mine.agreed.isSome ∨ ∃ d ∈ inbox, d.kind = .answer) → answer.isSome

namespace Half

variable {me them : Side} {mine yours : Stance} {d o a : Description}
  {inbox outbox rest : List Description} {myOffer yourOffer : Option Description}
  {answer : Option (Side × Description)}

/-- While an offer waits, what is on the way to the other side is nothing or ends with an offer. -/
theorem not_noOffer (h : Half me them mine yours inbox (d :: rest) myOffer yourOffer answer)
    (hsome : mine.offered.isSome) : ¬ NoOffer (d :: rest) := by
  intro hno
  have hlast : (d :: rest).getLast? = some ((d :: rest).getLast (by simp)) :=
    List.getLast?_eq_some_getLast _
  exact hno _ (List.getLast_mem _) (h.ends _ hsome hlast)

theorem offer_mine (h : Half me them mine yours inbox outbox myOffer yourOffer answer)
    (ho : o.kind = .offer) :
    Half me them { mine with offered := some o } yours inbox (outbox ++ [o]) (some o) yourOffer
      answer where
  agreed := h.agreed
  waiting _ h' := by
    rw [Option.some.injEq] at h'
    exact ⟨h' ▸ ho, congrArg some h'⟩
  taken _ _ h' := nomatch h'
  answered _ _ h' := nomatch h'
  coming := h.coming
  ends _ _ hlast := by
    rw [List.getLast?_concat, Option.some.injEq] at hlast
    rwa [← hlast]
  out _ _ hno := absurd hno (noOffer_append_offer ho)
  kept _ _ h' := nomatch h'
  known := h.known

theorem offer_yours (h : Half me them mine yours inbox outbox myOffer yourOffer answer)
    (ho : o.kind = .offer) :
    Half me them mine { yours with offered := some o } (inbox ++ [o]) outbox myOffer (some o)
      answer where
  agreed := h.agreed
  waiting := h.waiting
  taken := h.taken
  answered _ _ _ _ _ hno := absurd hno (noOffer_append_offer ho)
  coming d hd := by rwa [lastOffer_append_offer _ ho] at hd
  ends := h.ends
  out _ _ _ := .inl rfl
  kept _ _ _ hno := absurd hno (noOffer_append_offer ho)
  known hk := h.known <| hk.imp_right fun ⟨d, hd, hkind⟩ => by
    rcases List.mem_append.mp hd with hd | hd
    · exact ⟨d, hd, hkind⟩
    · rw [List.mem_singleton.mp hd, ho] at hkind
      cases hkind

/-- A side that passes over an offer has one of its own out. -/
theorem pass_mine (h : Half me them mine yours (d :: rest) outbox myOffer yourOffer answer)
    (hout : mine.offered.isSome) :
    Half me them mine yours rest outbox myOffer yourOffer answer where
  agreed := h.agreed
  waiting := h.waiting
  taken := h.taken
  answered _ _ hnone := by rw [hnone] at hout; cases hout
  coming d hd := h.coming d (lastOffer_cons_of_some hd)
  ends := h.ends
  out := h.out
  kept _ _ hnone := by rw [hnone] at hout; cases hout
  known hk := h.known (hk.imp_right fun ⟨d, hd, hkind⟩ => ⟨d, List.mem_cons_of_mem _ hd, hkind⟩)

theorem pass_yours (h : Half me them mine yours inbox (d :: rest) myOffer yourOffer answer)
    (h' : Half them me yours mine (d :: rest) inbox yourOffer myOffer answer)
    (hout : yours.offered.isSome) :
    Half me them mine yours inbox rest myOffer yourOffer answer where
  agreed := h.agreed
  waiting := h.waiting
  taken := h.taken
  answered := h.answered
  coming := h.coming
  ends d hsome hlast := h.ends d hsome (getLast?_cons_of_some hlast)
  out _ _ _ := .inl hout
  kept a ha hnone hin _ := by
    obtain ⟨o, ho⟩ := Option.isSome_iff_exists.mp hout
    rcases h'.out o ho hin with hsome | ⟨a', ha', hagreed⟩
    · rw [hnone] at hsome
      cases hsome
    · rw [ha, Option.some.injEq, Prod.mk.injEq] at ha'
      exact ⟨o, ha'.2 ▸ hagreed⟩
  known := h.known

theorem answer_mine (h : Half me them mine yours (d :: rest) outbox myOffer yourOffer answer)
    (hd : d.kind = .offer) (ha : a.kind = .answer) :
    Half me them ⟨none, some (a, d)⟩ yours rest (outbox ++ [a]) myOffer yourOffer
      (some (me, a)) where
  agreed l r hlr := by
    rw [Option.some.injEq, Prod.mk.injEq] at hlr
    exact .inr ⟨hlr.1 ▸ ha, hlr.2 ▸ hd⟩
  waiting _ ho := nomatch ho
  taken l r _ hlr hl := by
    rw [Option.some.injEq, Prod.mk.injEq] at hlr
    rw [← hlr.1, ha] at hl
    cases hl
  answered l r _ hlr _ hno := by
    rw [Option.some.injEq, Prod.mk.injEq] at hlr
    exact hlr.2 ▸ h.coming d (lastOffer_cons_of_noOffer hno hd)
  coming d hd := h.coming d (lastOffer_cons_of_some hd)
  ends _ hsome := nomatch hsome
  out _ ho := nomatch ho
  kept a' ha' _ _ _ := by
    rw [Option.some.injEq, Prod.mk.injEq] at ha'
    exact ⟨d, by rw [ha'.2]⟩
  known _ := rfl

theorem answer_yours (hne : me ≠ them)
    (h : Half me them mine yours inbox (d :: rest) myOffer yourOffer answer)
    (h' : Half them me yours mine (d :: rest) inbox yourOffer myOffer answer)
    (hd : d.kind = .offer) (ha : a.kind = .answer) :
    Half me them mine ⟨none, some (a, d)⟩ (inbox ++ [a]) rest myOffer yourOffer
      (some (them, a)) where
  agreed := h.agreed
  waiting := h.waiting
  taken := h.taken
  answered l r hnone hlr hr hno :=
    h.answered l r hnone hlr hr ((noOffer_append_other (by rw [ha]; nofun)).mp hno)
  coming d' hd' := by
    rw [lastOffer_append_other _ (by rw [ha]; nofun)] at hd'
    exact h.coming d' hd'
  ends d' hsome hlast := h.ends d' hsome (getLast?_cons_of_some hlast)
  out o ho hno := by
    have hlast := h'.coming d (lastOffer_cons_of_noOffer hno hd)
    rw [(h.waiting o ho).2, Option.some.injEq] at hlast
    exact .inr ⟨a, rfl, by rw [hlast]⟩
  kept _ ha' := by
    rw [Option.some.injEq, Prod.mk.injEq] at ha'
    exact absurd ha'.1.symm hne
  known _ := rfl

/-- A side takes an answer as the answer to its offer. -/
theorem take_mine (hne : me ≠ them)
    (h : Half me them mine yours (d :: rest) outbox myOffer yourOffer answer)
    (h' : Half them me yours mine outbox (d :: rest) yourOffer myOffer answer)
    (hd : d.kind = .answer) (ho : mine.offered = some o) :
    Half me them ⟨none, some (o, d)⟩ yours rest outbox myOffer yourOffer answer where
  agreed l r hlr := by
    rw [Option.some.injEq, Prod.mk.injEq] at hlr
    exact .inl ⟨hlr.1 ▸ (h.waiting o ho).1, hlr.2 ▸ hd⟩
  waiting _ h' := nomatch h'
  taken l r _ hlr _ := by
    rw [Option.some.injEq, Prod.mk.injEq] at hlr
    exact hlr.1 ▸ (h.waiting o ho).2
  answered l r _ hlr hr := by
    rw [Option.some.injEq, Prod.mk.injEq] at hlr
    rw [← hlr.2, hd] at hr
    cases hr
  coming d hd := h.coming d (lastOffer_cons_of_some hd)
  ends _ hsome := nomatch hsome
  out _ h' := nomatch h'
  kept a ha _ hin hout := by
    have hno : NoOffer (d :: rest) := (noOffer_cons_other (by rw [hd]; nofun)).mpr hin
    rcases h.out o ho hout with hsome | ⟨a', ha', -⟩
    · exact absurd hno (h'.not_noOffer hsome)
    · rw [ha, Option.some.injEq, Prod.mk.injEq] at ha'
      exact absurd ha'.1 hne
  known _ := h.known (.inr ⟨d, List.mem_cons_self, hd⟩)

theorem stray_mine (h : Half me them mine yours (d :: rest) outbox myOffer yourOffer answer)
    (hd : d.kind ≠ .offer) :
    Half me them mine yours rest outbox myOffer yourOffer answer where
  agreed := h.agreed
  waiting := h.waiting
  taken := h.taken
  answered l r ho hlr hr hno := h.answered l r ho hlr hr ((noOffer_cons_other hd).mpr hno)
  coming d hd := h.coming d (lastOffer_cons_of_some hd)
  ends := h.ends
  out := h.out
  kept a ha ho hin hout := h.kept a ha ho ((noOffer_cons_other hd).mpr hin) hout
  known hk := h.known (hk.imp_right fun ⟨d, hd, hkind⟩ => ⟨d, List.mem_cons_of_mem _ hd, hkind⟩)

/-- An answer was heard on the other side, whatever came of it there. -/
theorem hear_answer_yours (h : Half me them mine yours inbox (d :: rest) myOffer yourOffer answer)
    (hd : d.kind ≠ .offer) (yours' : Stance) :
    Half me them mine yours' inbox rest myOffer yourOffer answer where
  agreed := h.agreed
  waiting := h.waiting
  taken := h.taken
  answered := h.answered
  coming := h.coming
  ends d hsome hlast := h.ends d hsome (getLast?_cons_of_some hlast)
  out o ho hno := by
    have hsome : mine.offered.isSome := by rw [ho]; rfl
    exact absurd ((noOffer_cons_other hd).mpr hno) (h.not_noOffer hsome)
  kept a ha hnone hin hout := h.kept a ha hnone hin ((noOffer_cons_other hd).mpr hout)
  known := h.known

end Half

/-! ## Dialogues -/

@[ext]
structure Dialogue where
  stance : Side → Stance := fun _ => {}
  /-- The descriptions on the way to a side, the oldest first. -/
  mail : Side → List Description := fun _ => []
  said : List (Side × Description) := []

namespace Dialogue

/-- A side gets into a stance and says something. -/
def speak (D : Dialogue) (x : Side) (st : Stance) (ds : List Description) : Dialogue where
  stance y := if y = x then st else D.stance y
  mail y := if y = x then D.mail y else D.mail y ++ ds
  said := D.said ++ ds.map (x, ·)

/-- What is on the way to a side is now this. -/
def leaveMail (D : Dialogue) (x : Side) (rest : List Description) : Dialogue :=
  { D with mail := fun y => if y = x then rest else D.mail y }

/-- A side may speak of its own accord or hear the oldest description on the way to it. -/
inductive Step (yields : Side → Prop) (D : Dialogue) : Dialogue → Prop where
  | speak {x : Side} {st : Stance} {ds : List Description} :
      Call.Spoken (D.stance x) st ds → Step yields D (D.speak x st ds)
  | hear {x : Side} {d : Description} {rest : List Description} {st : Stance}
      {ds : List Description} : D.mail x = d :: rest →
      Call.Heard (yields x) False (D.stance x) d st ds →
      Step yields D ((D.leaveMail x rest).speak x st ds)

def offerOf (said : List (Side × Description)) (x : Side) : Option Description :=
  lastOffer ((said.filter (·.1 = x)).map (·.2))

/-- The last answer of all, and the side that gave it. -/
def lastAnswer (said : List (Side × Description)) : Option (Side × Description) :=
  (said.filter (·.2.kind = .answer)).getLast?

def Inv (D : Dialogue) : Prop :=
  ∀ x, Half x x.other (D.stance x) (D.stance x.other) (D.mail x) (D.mail x.other)
    (offerOf D.said x) (offerOf D.said x.other) (lastAnswer D.said)

theorem inv_empty : Inv {} := fun x =>
  { agreed := nofun, waiting := nofun, taken := nofun, answered := nofun, coming := nofun,
    ends := nofun, out := nofun, kept := nofun, known := by simp }

/-- The invariant is one statement for each side. -/
theorem inv_of_halves {D : Dialogue} (x : Side)
    (h : Half x x.other (D.stance x) (D.stance x.other) (D.mail x) (D.mail x.other)
      (offerOf D.said x) (offerOf D.said x.other) (lastAnswer D.said))
    (h' : Half x.other x (D.stance x.other) (D.stance x) (D.mail x.other) (D.mail x)
      (offerOf D.said x.other) (offerOf D.said x) (lastAnswer D.said)) : D.Inv := by
  intro y
  rcases x.eq_or_eq_other y with rfl | rfl
  · exact h
  · rw [Side.other_other]
    exact h'

theorem offerOf_append_offer (said : List (Side × Description)) (x : Side) {o : Description}
    (ho : o.kind = .offer) : offerOf (said ++ [(x, o)]) x = some o ∧
      offerOf (said ++ [(x, o)]) x.other = offerOf said x.other ∧
      lastAnswer (said ++ [(x, o)]) = lastAnswer said := by
  refine ⟨?_, ?_, ?_⟩
  · simp only [offerOf, List.filter_append, List.map_append]
    simp [lastOffer_append_offer _ ho]
  · simp [offerOf, x.ne_other]
  · simp [lastAnswer, ho]

theorem offerOf_append_answer (said : List (Side × Description)) (x y : Side) {a : Description}
    (ha : a.kind = .answer) : offerOf (said ++ [(x, a)]) y = offerOf said y ∧
      lastAnswer (said ++ [(x, a)]) = some (x, a) := by
  refine ⟨?_, by simp [lastAnswer, ha]⟩
  by_cases hy : x = y
  · simp only [offerOf, List.filter_append, List.map_append]
    simp [hy, lastOffer_append_other _ (d := a) (by rw [ha]; nofun)]
  · simp [offerOf, hy]

section Step

variable {D : Dialogue} {x : Side} {d o a : Description} {rest : List Description}

theorem inv_offer (h : D.Inv) (ho : o.kind = .offer) :
    (D.speak x { D.stance x with offered := some o } [o]).Inv := by
  have hx := h x
  have hy := h x.other
  rw [Side.other_other] at hy
  obtain ⟨hself, hother, hlast⟩ := offerOf_append_offer D.said x ho
  refine inv_of_halves x ?_ ?_
  · simpa [speak, x.other_ne, hself, hother, hlast] using hx.offer_mine ho
  · simpa [speak, x.other_ne, hself, hother, hlast] using hy.offer_yours ho

theorem inv_pass (h : D.Inv) (hmail : D.mail x = d :: rest) (hout : (D.stance x).offered.isSome) :
    ((D.leaveMail x rest).speak x (D.stance x) []).Inv := by
  have hx := h x
  have hy := h x.other
  rw [Side.other_other] at hy
  rw [hmail] at hx hy
  refine inv_of_halves x ?_ ?_
  · simpa [speak, leaveMail, x.other_ne] using hx.pass_mine hout
  · simpa [speak, leaveMail, x.other_ne] using hy.pass_yours hx hout

theorem inv_answer (h : D.Inv) (hmail : D.mail x = d :: rest) (hd : d.kind = .offer)
    (ha : a.kind = .answer) :
    ((D.leaveMail x rest).speak x ⟨none, some (a, d)⟩ [a]).Inv := by
  have hx := h x
  have hy := h x.other
  rw [Side.other_other] at hy
  rw [hmail] at hx hy
  obtain ⟨hself, hlast⟩ := offerOf_append_answer D.said x x ha
  obtain ⟨hother, -⟩ := offerOf_append_answer D.said x x.other ha
  refine inv_of_halves x ?_ ?_
  · simpa [speak, leaveMail, x.other_ne, hself, hother, hlast] using hx.answer_mine hd ha
  · simpa [speak, leaveMail, x.other_ne, hself, hother, hlast] using
      hy.answer_yours x.other_ne hx hd ha

theorem inv_take (h : D.Inv) (hmail : D.mail x = d :: rest) (hd : d.kind = .answer)
    (ho : (D.stance x).offered = some o) :
    ((D.leaveMail x rest).speak x ⟨none, some (o, d)⟩ []).Inv := by
  have hx := h x
  have hy := h x.other
  rw [Side.other_other] at hy
  rw [hmail] at hx hy
  refine inv_of_halves x ?_ ?_
  · simpa [speak, leaveMail, x.other_ne] using hx.take_mine x.ne_other hy hd ho
  · simpa [speak, leaveMail, x.other_ne] using
      hy.hear_answer_yours (by rw [hd]; nofun) ⟨none, some (o, d)⟩

theorem inv_stray (h : D.Inv) (hmail : D.mail x = d :: rest) (hd : d.kind ≠ .offer) :
    ((D.leaveMail x rest).speak x (D.stance x) []).Inv := by
  have hx := h x
  have hy := h x.other
  rw [Side.other_other] at hy
  rw [hmail] at hx hy
  refine inv_of_halves x ?_ ?_
  · simpa [speak, leaveMail, x.other_ne] using hx.stray_mine hd
  · simpa [speak, leaveMail, x.other_ne] using hy.hear_answer_yours hd (D.stance x)

end Step

theorem speak_nothing (D : Dialogue) (x : Side) : D.speak x (D.stance x) [] = D := by
  obtain ⟨stance, mail, said⟩ := D
  simp only [speak, List.append_nil, List.map_nil, ite_self, mk.injEq, and_true]
  funext y
  split
  · rename_i hy
    rw [hy]
  · rfl

theorem inv_step {yields : Side → Prop} {D D' : Dialogue} (h : D.Inv) (hstep : Step yields D D') :
    D'.Inv := by
  cases hstep with
  | speak hspoken =>
      cases hspoken with
      | nothing => rwa [speak_nothing]
      | offer ho => exact inv_offer h ho
  | hear hmail hheard =>
      cases hheard with
      | pass _ hout _ => exact inv_pass h hmail hout
      | answer hd _ ha => exact inv_answer h hmail hd ha
      | take hd ho => exact inv_take h hmail hd ho
      | stray hd _ => exact inv_stray h hmail hd
      | refuse _ _ hrefused => exact hrefused.elim

/-! ## When both sides agree -/

/-- What each side has agreed to is what the other one has, seen from its side. -/
def Mirrors (D : Dialogue) : Prop :=
  ∀ x, (D.stance x).agreed = (D.stance x.other).agreed.map Prod.swap

/-- Nothing is on its way, no offer waits and each side has agreed to something. -/
structure Settled (D : Dialogue) : Prop where
  mail : ∀ x, D.mail x = []
  offered : ∀ x, (D.stance x).offered = none
  agreed : ∀ x, (D.stance x).agreed.isSome

/-- The last answer of all was taken: the other side holds it as its remote description. -/
def LastAnswerTaken (D : Dialogue) : Prop :=
  ∃ x a, lastAnswer D.said = some (x, a) ∧ (D.stance x.other).agreed.map (·.2) = some a

theorem kind_of_lastAnswer {said : List (Side × Description)} {x : Side} {a : Description}
    (h : lastAnswer said = some (x, a)) : a.kind = .answer := by
  have hmem := List.mem_of_getLast? h
  simpa using (List.mem_filter.mp hmem).2

/-- In a settled dialogue both sides agree exactly if the last answer was taken. -/
theorem mirrors_iff {D : Dialogue} (h : D.Inv) (hs : D.Settled) :
    D.Mirrors ↔ D.LastAnswerTaken := by
  have hno : ∀ x, NoOffer (D.mail x) := fun x => noOffer_of_eq_nil (hs.mail x)
  -- The side that gave the last answer holds it, and the last offer of the other side.
  obtain ⟨⟨x, a⟩, hlast⟩ := Option.isSome_iff_exists.mp ((h .left).known (.inl (hs.agreed .left)))
  have ha := kind_of_lastAnswer hlast
  obtain ⟨r, hx⟩ := (h x).kept a hlast (hs.offered x) (hno x) (hno x.other)
  have hr : r.kind = .offer := by
    rcases (h x).agreed a r hx with ⟨hoffer, -⟩ | ⟨-, hr⟩
    · rw [ha] at hoffer
      cases hoffer
    · exact hr
  have hanswered := (h x).answered a r (hs.offered x) hx hr (hno x)
  obtain ⟨⟨l, r'⟩, hy⟩ := Option.isSome_iff_exists.mp (hs.agreed x.other)
  constructor
  · intro hmirror
    refine ⟨x, a, hlast, ?_⟩
    have heq := hmirror x.other
    rw [Side.other_other, hx] at heq
    rw [heq]
    rfl
  · rintro ⟨x', a', hlast', htaken⟩
    rw [hlast, Option.some.injEq, Prod.mk.injEq] at hlast'
    obtain ⟨rfl, rfl⟩ := hlast'
    rw [hy, Option.map_some, Option.some.injEq] at htaken
    subst htaken
    have hl : l.kind = .offer := by
      rcases (h x.other).agreed l r' hy with ⟨hl, -⟩ | ⟨-, hoffer⟩
      · exact hl
      · rw [ha] at hoffer
        cases hoffer
    have htaken := (h x.other).taken l r' (hs.offered x.other) hy hl
    rw [hanswered, Option.some.injEq] at htaken
    subst htaken
    intro z
    rcases x.eq_or_eq_other z with rfl | rfl
    · rw [hx, hy]
      rfl
    · rw [Side.other_other, hx, hy]
      rfl

end Dialogue

end Parley
