import Parley.Proofs.Call.Refinement

/-!
# The first round

Two sides agreed to nothing yet, and only one offer is ever made. Then a dialogue stands in one of
four shapes (`FirstRound`), and each step that does not stutter leads to the next one: nothing was
said, the offer is on its way, its answer is, or both sides agreed. A side settles when it hears the
one description that is on its way to it, and stays settled (`Dialogue.inFirst_step`). So when one
side is settled the other one is too, or what settles it is on its way (`InFirst.ready`).
-/

namespace Parley

/-- A round is finished, and no offer waits. -/
def Stance.settled (st : Stance) : Bool := st.offered.isNone && st.agreed.isSome

/-- Where a dialogue stands in which one side offers, and once: the offers that are to come, the
stances of that side and of the other one, and what is on the way to each. -/
inductive FirstRound (x : Side) (o : Description) : List (Side × Description) → Stance → Stance →
    List Description → List Description → Prop where
  | untried : FirstRound x o [(x, o)] {} {} [] []
  | offered : FirstRound x o [] ⟨some o, none⟩ {} [] [o]
  | answered {a : Description} (ha : a.kind = .answer) :
      FirstRound x o [] ⟨some o, none⟩ ⟨none, some (a, o)⟩ [a] []
  | agreed {a : Description} : FirstRound x o [] ⟨none, some (o, a)⟩ ⟨none, some (a, o)⟩ [] []

namespace FirstRound

variable {x : Side} {o d : Description} {todo : List (Side × Description)} {p q p' q' : Stance}
  {mine yours rest ds : List Description} {yields : Prop}

theorem opens {e : Side × Description} (h : FirstRound x o (e :: todo) p q mine yours) :
    e = (x, o) ∧ todo = [] ∧ p = {} ∧ q = {} ∧ mine = [] ∧ yours = [] := by
  cases h
  exact ⟨rfl, rfl, rfl, rfl, rfl, rfl⟩

/-- The side that offered hears the answer. -/
theorem mine_hears (h : FirstRound x o todo p q (d :: rest) yours)
    (hheard : Call.Heard yields False p d p' ds) :
    FirstRound x o todo p' q rest (yours ++ ds) ∧ rest = [] ∧ p.settled = false ∧
      p'.settled = true := by
  cases h with
  | answered ha =>
      obtain ⟨rfl, rfl⟩ := hheard.takes ha rfl
      exact ⟨.agreed, rfl, rfl, rfl⟩

/-- The other side hears the offer. -/
theorem yours_hears (h : FirstRound x o todo p q mine (d :: rest)) (ho : o.kind = .offer)
    (hheard : Call.Heard yields False q d q' ds) :
    FirstRound x o todo p q' (mine ++ ds) rest ∧ rest = [] ∧ q.settled = false ∧
      q'.settled = true := by
  cases h with
  | offered =>
      obtain ⟨a, ha, rfl, rfl⟩ := hheard.answers ho nofun id
      exact ⟨.answered ha, rfl, rfl, rfl⟩

/-- An answer is all that is on the way to the side that offered. -/
theorem mine_waits (h : FirstRound x o todo p q (d :: rest) yours) :
    p.settled = false ∧ rest = [] ∧ d.isOffer = false := by
  cases h with
  | answered ha => exact ⟨rfl, rfl, by simp [Description.isOffer, ha]⟩

/-- The offer is all that is on the way to the other side, which did not say anything yet. -/
theorem yours_waits (h : FirstRound x o todo p q mine (d :: rest)) :
    q = {} ∧ rest = [] := by
  cases h
  exact ⟨rfl, rfl⟩

theorem mine_ready (h : FirstRound x o todo p q mine yours) (hp : p.settled = true) :
    q.settled = true := by
  cases h with
  | agreed => rfl
  | _ => cases hp

theorem yours_ready (h : FirstRound x o todo p q mine yours) (hq : q.settled = true) :
    p.settled = true ∨ mine ≠ [] := by
  cases h with
  | agreed => exact .inl rfl
  | answered _ => exact .inr (List.cons_ne_nil _ _)
  | _ => cases hq

theorem agreed_of_nil (h : FirstRound x o [] p q [] []) :
    ∃ a, p = ⟨none, some (o, a)⟩ ∧ q = ⟨none, some (a, o)⟩ := by
  cases h
  exact ⟨_, rfl, rfl⟩

end FirstRound

namespace Dialogue

variable {D D' : Dialogue} {x : Side} {o : Description} {todo new : List (Side × Description)}

/-- A dialogue stands in one of the shapes of a first round. -/
def InFirst (x : Side) (o : Description) (todo : List (Side × Description)) (D : Dialogue) : Prop :=
  FirstRound x o todo (D.stance x) (D.stance x.other) (D.mail x) (D.mail x.other)

def offersIn (said : List (Side × Description)) : List (Side × Description) :=
  said.filter (·.2.isOffer)

theorem offersIn_append (said more : List (Side × Description)) :
    offersIn (said ++ more) = offersIn said ++ offersIn more := List.filter_append ..

theorem offersIn_eq_nil {z : Side} {ds : List Description} (h : ∀ d ∈ ds, d.kind ≠ .offer) :
    offersIn (ds.map (z, ·)) = [] := by
  rw [offersIn, List.filter_eq_nil_iff]
  rintro e he
  obtain ⟨d, hd, rfl⟩ := List.mem_map.mp he
  rw [isOffer_iff]
  exact h d hd

/-- A side is settled after a step if it was before or if it heard what was on its way. -/
def Settles (D D' : Dialogue) (y : Side) : Prop :=
  (D'.stance y).settled =
    ((D.stance y).settled || (!(D.mail y).isEmpty && (D'.mail y).isEmpty))

/-- A side that hears nothing is settled if it was, unless it changes its stance. -/
theorem Settles.of_speaks {y : Side} (ds : List Description)
    (hstance : (D'.stance y).settled = (D.stance y).settled)
    (hmail : D'.mail y = D.mail y ++ ds) : Settles D D' y := by
  rw [Settles, hstance, hmail]
  cases (D.stance y).settled <;> cases D.mail y <;> rfl

theorem inFirst_step {yields : Side → Prop} (ho : o.kind = .offer)
    (h : D.InFirst x o (offersIn new ++ todo)) (hstep : Step yields D D')
    (hnew : D'.said = D.said ++ new) : D'.InFirst x o todo ∧ ∀ y, Settles D D' y := by
  cases hstep with
  | @speak z st ds hspoken =>
      have hds : new = ds.map (z, ·) := List.append_cancel_left hnew.symm
      subst hds
      cases hspoken with
      | nothing =>
          rw [speak_nothing]
          exact ⟨h, fun y => .of_speaks [] rfl (List.append_nil _).symm⟩
      | @offer o' ho' =>
          have hoffer : offersIn ([o'].map (z, ·)) = [(z, o')] :=
            List.filter_cons_of_pos (isOffer_iff.mpr ho')
          rw [hoffer] at h
          obtain ⟨heq, rfl, hp, hq, hmine, hyours⟩ := FirstRound.opens h
          cases heq
          refine ⟨?_, fun y => ?_⟩
          · simp [InFirst, speak, x.other_ne, hp, hq, hmine, hyours, FirstRound.offered]
          · rcases x.eq_or_eq_other y with rfl | rfl
            · refine .of_speaks [] ?_ ?_ <;> simp [speak, hp, Stance.settled]
            · refine .of_speaks [o] ?_ ?_ <;> simp [speak, Side.other_ne]
  | @hear z d rest st ds hmail hheard =>
      have hds : new = ds.map (z, ·) := List.append_cancel_left hnew.symm
      subst hds
      rw [offersIn_eq_nil hheard.kind_ne_offer, List.nil_append] at h
      unfold InFirst at h
      rcases x.eq_or_eq_other z with rfl | rfl
      · rw [hmail] at h
        obtain ⟨hnext, rfl, hbefore, hafter⟩ := h.mine_hears hheard
        refine ⟨by simpa [InFirst, speak, leaveMail, Side.other_ne] using hnext, fun y => ?_⟩
        rcases z.eq_or_eq_other y with rfl | rfl
        · simp [Settles, speak, leaveMail, hafter, hmail]
        · refine .of_speaks ds ?_ ?_ <;> simp [speak, leaveMail, Side.other_ne]
      · rw [hmail] at h
        obtain ⟨hnext, rfl, hbefore, hafter⟩ := h.yours_hears ho hheard
        refine ⟨by simpa [InFirst, speak, leaveMail, Side.ne_other] using hnext, fun y => ?_⟩
        rcases x.eq_or_eq_other y with rfl | rfl
        · refine .of_speaks ds ?_ ?_ <;> simp [speak, leaveMail, Side.ne_other]
        · simp [Settles, speak, leaveMail, hafter, hmail]

namespace InFirst

variable (h : D.InFirst x o todo) {y : Side}

include h

/-- What is on the way to a side is one description, and the side is not settled yet. An offer is
on its way only to a side that did not offer. -/
theorem waits {d : Description} {rest : List Description} (hmail : D.mail y = d :: rest) :
    (D.stance y).settled = false ∧ rest = [] ∧
      (d.isOffer = true → (D.stance y).offered = none) := by
  unfold InFirst at h
  rcases x.eq_or_eq_other y with rfl | rfl
  · rw [hmail] at h
    obtain ⟨hsettled, hrest, hd⟩ := h.mine_waits
    exact ⟨hsettled, hrest, fun hoffer => by rw [hd] at hoffer; cases hoffer⟩
  · rw [hmail] at h
    obtain ⟨hq, hrest⟩ := h.yours_waits
    rw [hq]
    exact ⟨rfl, hrest, fun _ => rfl⟩

theorem ready (hsettled : (D.stance y).settled = true) :
    (D.stance y.other).settled = true ∨ D.mail y.other ≠ [] := by
  rcases x.eq_or_eq_other y with rfl | rfl
  · exact .inl (h.mine_ready hsettled)
  · rw [Side.other_other]
    exact h.yours_ready hsettled

end InFirst

end Dialogue

end Parley
