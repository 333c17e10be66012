import Parley.Proofs.Call.Refinement

/-!
# Rounds

If no side offers again while an offer of its own waits, a dialogue goes through rounds of a few
shapes (`Round`), and between two rounds both sides agree. The side that yields is the low one. Its
withdrawn offer may still be on its way when it has answered, even when it has offered anew; it is
always ahead of that answer, so the high side, whose own offer is out until the answer comes, passes
over it.

The rounds in which nobody offers any more are those in which crossing offers resolve (`Glare`): the
offer of the high side survives.
-/

namespace Parley

/-- Where a dialogue stands in which no offer is repeated: the stances of the low and the high side,
and what is on the way to each. -/
inductive Round : Stance → Stance → List Description → List Description → Prop where
  | idle {k : Option (Description × Description)} : Round ⟨none, k⟩ ⟨none, k.map Prod.swap⟩ [] []
  | lowOffered {o : Description} {k k' : Option (Description × Description)}
      (ho : o.kind = .offer) : Round ⟨some o, k⟩ ⟨none, k'⟩ [] [o]
  | highOffered {o : Description} {k k' : Option (Description × Description)}
      (ho : o.kind = .offer) : Round ⟨none, k⟩ ⟨some o, k'⟩ [o] []
  | highAnswered {o a : Description} {k : Option (Description × Description)}
      (ha : a.kind = .answer) : Round ⟨some o, k⟩ ⟨none, some (a, o)⟩ [a] []
  | lowAnswered {o a : Description} {k : Option (Description × Description)}
      (ha : a.kind = .answer) : Round ⟨none, some (a, o)⟩ ⟨some o, k⟩ [] [a]
  /-- Both offers are on their way. -/
  | crossed {o o' : Description} {k k' : Option (Description × Description)} (ho : o.kind = .offer)
      (ho' : o'.kind = .offer) : Round ⟨some o, k⟩ ⟨some o', k'⟩ [o'] [o]
  /-- The high side passed over the offer of the low one. -/
  | passed {o o' : Description} {k k' : Option (Description × Description)}
      (ho' : o'.kind = .offer) : Round ⟨some o, k⟩ ⟨some o', k'⟩ [o'] []
  /-- The low side answered while its withdrawn offer is still on its way. -/
  | yielded {o o' a : Description} {k : Option (Description × Description)} (ho : o.kind = .offer)
      (ha : a.kind = .answer) : Round ⟨none, some (a, o')⟩ ⟨some o', k⟩ [] [o, a]
  | highAgain {o o' a : Description} {k : Option (Description × Description)}
      (ha : a.kind = .answer) (ho' : o'.kind = .offer) : Round ⟨some o, k⟩ ⟨some o', some (a, o)⟩ [a, o'] []
  | lowAgain {o o' a : Description} {k : Option (Description × Description)} (ha : a.kind = .answer)
      (ho' : o'.kind = .offer) : Round ⟨some o', some (a, o)⟩ ⟨some o, k⟩ [] [a, o']
  | yieldedAgain {o o' o'' a : Description} {k : Option (Description × Description)}
      (ho : o.kind = .offer) (ha : a.kind = .answer) (ho'' : o''.kind = .offer) :
      Round ⟨some o'', some (a, o')⟩ ⟨some o', k⟩ [] [o, a, o'']

namespace Round

variable {p q p' q' : Stance} {low high rest ds : List Description} {d o : Description}

theorem low_offers (h : Round p q low high) (hp : p.offered = none) (ho : o.kind = .offer) :
    Round { p with offered := some o } q low (high ++ [o]) := by
  cases h with
  | idle => exact .lowOffered ho
  | highOffered ho' => exact .crossed ho ho'
  | lowAnswered ha => exact .lowAgain ha ho
  | yielded ho' ha => exact .yieldedAgain ho' ha ho
  | lowOffered _ => cases hp
  | highAnswered _ => cases hp
  | crossed _ _ => cases hp
  | passed _ => cases hp
  | highAgain _ _ => cases hp
  | lowAgain _ _ => cases hp
  | yieldedAgain _ _ _ => cases hp

theorem high_offers (h : Round p q low high) (hq : q.offered = none) (ho : o.kind = .offer) :
    Round p { q with offered := some o } (low ++ [o]) high := by
  cases h with
  | idle => exact .highOffered ho
  | lowOffered ho' => exact .crossed ho' ho
  | highAnswered ha => exact .highAgain ha ho
  | highOffered _ => cases hq
  | lowAnswered _ => cases hq
  | crossed _ _ => cases hq
  | passed _ => cases hq
  | yielded _ _ => cases hq
  | highAgain _ _ => cases hq
  | lowAgain _ _ => cases hq
  | yieldedAgain _ _ _ => cases hq

theorem low_hears (h : Round p q (d :: rest) high) (hheard : Call.Heard True False p d p' ds) :
    Round p' q rest (high ++ ds) := by
  cases h with
  | highOffered ho =>
      obtain ⟨a, ha, rfl, rfl⟩ := hheard.answers ho (fun _ => trivial) id
      exact .lowAnswered ha
  | highAnswered ha =>
      obtain ⟨rfl, rfl⟩ := hheard.takes ha rfl
      exact .idle
  | crossed ho ho' =>
      obtain ⟨a, ha, rfl, rfl⟩ := hheard.answers ho' (fun _ => trivial) id
      exact .yielded ho ha
  | passed ho' =>
      obtain ⟨a, ha, rfl, rfl⟩ := hheard.answers ho' (fun _ => trivial) id
      exact .lowAnswered ha
  | highAgain ha ho' =>
      obtain ⟨rfl, rfl⟩ := hheard.takes ha rfl
      exact .highOffered ho'

theorem high_hears (h : Round p q low (d :: rest)) (hheard : Call.Heard False False q d q' ds) :
    Round p q' (low ++ ds) rest := by
  cases h with
  | lowOffered ho =>
      obtain ⟨a, ha, rfl, rfl⟩ := hheard.answers ho nofun id
      exact .highAnswered ha
  | lowAnswered ha =>
      obtain ⟨rfl, rfl⟩ := hheard.takes ha rfl
      exact .idle
  | crossed ho ho' =>
      obtain ⟨rfl, rfl⟩ := hheard.passes ho rfl id id
      exact .passed ho'
  | yielded ho ha =>
      obtain ⟨rfl, rfl⟩ := hheard.passes ho rfl id id
      exact .lowAnswered ha
  | lowAgain ha ho' =>
      obtain ⟨rfl, rfl⟩ := hheard.takes ha rfl
      exact .lowOffered ho'
  | yieldedAgain ho ha ho'' =>
      obtain ⟨rfl, rfl⟩ := hheard.passes ho rfl id id
      exact .lowAgain ha ho''

/-- Between two rounds both sides agree. -/
theorem agreed_of_idle (h : Round p q [] []) (hp : p.offered = none) (hq : q.offered = none) :
    q.agreed = p.agreed.map Prod.swap := by
  cases h
  rfl

end Round

/-- Where a dialogue stands in which the offers `o` of the low and `o'` of the high side crossed and
nobody offers any more, and what was said since. -/
inductive Glare (x : Side) (o o' : Description) :
    Stance → Stance → List Description → List Description → List (Side × Description) → Prop where
  | crossed {k k' : Option (Description × Description)} :
      Glare x o o' ⟨some o, k⟩ ⟨some o', k'⟩ [o'] [o] []
  | passed {k k' : Option (Description × Description)} :
      Glare x o o' ⟨some o, k⟩ ⟨some o', k'⟩ [o'] [] []
  | yielded {a : Description} {k : Option (Description × Description)} (ha : a.kind = .answer) :
      Glare x o o' ⟨none, some (a, o')⟩ ⟨some o', k⟩ [] [o, a] [(x, a)]
  | answered {a : Description} {k : Option (Description × Description)} (ha : a.kind = .answer) :
      Glare x o o' ⟨none, some (a, o')⟩ ⟨some o', k⟩ [] [a] [(x, a)]
  | resolved {a : Description} (ha : a.kind = .answer) :
      Glare x o o' ⟨none, some (a, o')⟩ ⟨none, some (o', a)⟩ [] [] [(x, a)]

namespace Glare

variable {x : Side} {o o' : Description} {p q p' q' : Stance}
  {low high rest ds : List Description} {said : List (Side × Description)} {d : Description}

theorem low_hears (h : Glare x o o' p q (d :: rest) high said) (ho' : o'.kind = .offer)
    (hheard : Call.Heard True False p d p' ds) :
    Glare x o o' p' q rest (high ++ ds) (said ++ ds.map (x, ·)) := by
  cases h with
  | crossed =>
      obtain ⟨a, ha, rfl, rfl⟩ := hheard.answers ho' (fun _ => trivial) id
      exact .yielded ha
  | passed =>
      obtain ⟨a, ha, rfl, rfl⟩ := hheard.answers ho' (fun _ => trivial) id
      exact .answered ha

theorem high_hears (h : Glare x o o' p q low (d :: rest) said) (ho : o.kind = .offer)
    (hheard : Call.Heard False False q d q' ds) :
    Glare x o o' p q' (low ++ ds) rest (said ++ ds.map (x.other, ·)) := by
  cases h with
  | crossed =>
      obtain ⟨rfl, rfl⟩ := hheard.passes ho rfl id id
      exact .passed
  | yielded ha =>
      obtain ⟨rfl, rfl⟩ := hheard.passes ho rfl id id
      exact .answered ha
  | answered ha =>
      obtain ⟨rfl, rfl⟩ := hheard.takes ha rfl
      exact .resolved ha

/-- When nothing is on its way any more, the offer of the high side is answered. -/
theorem resolved_of_nil (h : Glare x o o' p q [] [] said) :
    ∃ a, a.kind = .answer ∧ p = ⟨none, some (a, o')⟩ ∧ q = ⟨none, some (o', a)⟩ ∧
      said = [(x, a)] := by
  cases h with
  | resolved ha => exact ⟨_, ha, rfl, rfl, rfl⟩

end Glare

namespace Dialogue

variable {yields : Side → Prop} {D D' : Dialogue} {low : Side} {new : List (Side × Description)}

/-- A dialogue stands in one of the shapes of a round. -/
def InRound (low : Side) (D : Dialogue) : Prop :=
  Round (D.stance low) (D.stance low.other) (D.mail low) (D.mail low.other)

def InGlare (low : Side) (o o' : Description) (D : Dialogue) : Prop :=
  Glare low o o' (D.stance low) (D.stance low.other) (D.mail low) (D.mail low.other) D.said

theorem inRound_step (hlow : yields low) (hhigh : ¬ yields low.other) (h : D.InRound low)
    (hstep : Step yields D D') (hnew : D'.said = D.said ++ new)
    (hsteady : ∀ e ∈ new, e.2.kind = .offer → (D.stance e.1).offered = none) :
    D'.InRound low := by
  cases hstep with
  | @speak x st ds hspoken =>
      have hds : new = ds.map (x, ·) := List.append_cancel_left hnew.symm
      cases hspoken with
      | nothing => rwa [speak_nothing]
      | @offer o ho =>
          have hnone : (D.stance x).offered = none := hsteady (x, o) (by simp [hds]) ho
          rcases low.eq_or_eq_other x with rfl | rfl
          · simpa [InRound, speak, Side.other_ne] using Round.low_offers h hnone ho
          · simpa [InRound, speak, Side.ne_other] using Round.high_offers h hnone ho
  | @hear x d rest st ds hmail hheard =>
      unfold InRound at h
      rcases low.eq_or_eq_other x with rfl | rfl
      · rw [hmail] at h
        rw [eq_true hlow] at hheard
        simpa [InRound, speak, leaveMail, Side.other_ne] using h.low_hears hheard
      · rw [hmail] at h
        rw [eq_false hhigh] at hheard
        simpa [InRound, speak, leaveMail, Side.ne_other] using h.high_hears hheard

/-- A settled dialogue stands between two rounds. -/
theorem mirrors_of_inRound (h : D.InRound low) (hs : D.Settled) : D.Mirrors := by
  unfold InRound at h
  rw [hs.mail low, hs.mail low.other] at h
  have hagreed := h.agreed_of_idle (hs.offered low) (hs.offered low.other)
  intro x
  rcases low.eq_or_eq_other x with rfl | rfl
  · rw [hagreed, Option.map_map]
    simp
  · rw [Side.other_other, hagreed]

theorem inGlare_step {o o' : Description} (ho : o.kind = .offer) (ho' : o'.kind = .offer)
    (hlow : yields low) (hhigh : ¬ yields low.other) (h : D.InGlare low o o')
    (hstep : Step yields D D') (hnew : D'.said = D.said ++ new)
    (hsilent : ∀ e ∈ new, e.2.kind ≠ .offer) : D'.InGlare low o o' := by
  cases hstep with
  | @speak x st ds hspoken =>
      have hds : new = ds.map (x, ·) := List.append_cancel_left hnew.symm
      cases hspoken with
      | nothing => rwa [speak_nothing]
      | @offer o ho => exact absurd ho (hsilent (x, o) (by simp [hds]))
  | @hear x d rest st ds hmail hheard =>
      unfold InGlare at h
      rcases low.eq_or_eq_other x with rfl | rfl
      · rw [hmail] at h
        rw [eq_true hlow] at hheard
        simpa [InGlare, speak, leaveMail, Side.other_ne] using h.low_hears ho' hheard
      · rw [hmail] at h
        rw [eq_false hhigh] at hheard
        simpa [InGlare, speak, leaveMail, Side.ne_other] using h.high_hears ho hheard

end Dialogue

end Parley
