import Parley.Proofs.Call.Rounds

/-!
# When both sides agree

When two agents have settled, each of them holds a local and a remote description that it takes for
agreed. They are the same two descriptions on both sides exactly if the last answer that was given
is the remote description of the side it was given to (`descriptions_mirror_iff`). An answer does
not say which offer it is for. So a side that offers again while an offer of its own waits takes the
answer to the earlier offer for the answer to the later one, and drops the answer to the later one
when it comes. Without such repeated offers both sides always agree.
-/

namespace Parley.Duet

/-- No side offers again while an offer of its own waits. -/
def Steady (w : Parties) : Duet → List Move → Prop
  | _, [] => True
  | d, m :: rest =>
    (∀ e ∈ described w (d.move w m).2, e.2.kind = .offer →
      ((d.agent e.1).call.stance (w.id e.1.other)).offered = none) ∧
    Steady w (d.move w m).1 rest

instance decidableSteady (w : Parties) :
    (d : Duet) → (moves : List Move) → Decidable (Steady w d moves)
  | _, [] => .isTrue trivial
  | d, m :: rest =>
    have := decidableSteady w (d.move w m).1 rest
    inferInstanceAs (Decidable (_ ∧ _))

/-- Both sides have a settled link to the other one, and no description is on its way. -/
structure Settled (w : Parties) (d : Duet) (l : Side → Link) : Prop where
  links : ∀ x, (d.agent x).call.links.find? (w.id x.other) = some (l x)
  settled : ∀ x, (l x).peer.isSettled
  mail : ∀ x, mail w d x = []

/-- The local description of each side is the remote description of the other one. -/
def Mirror (l : Side → Link) : Prop :=
  ∀ x, (l x).peer.currentLocal = (l x.other).peer.currentRemote

namespace Settled

variable {w : Parties} {d : Duet} {l : Side → Link}

/-- The descriptions of a settled link are those that its side agreed to. -/
theorem agreed (h : Settled w d l) (hfit : d.Fit w) (log : Log) (x : Side) :
    ∃ mine yours, (dialogue w d log).stance x = ⟨none, some (mine, yours)⟩ ∧
      (l x).peer.currentLocal = some mine ∧ (l x).peer.currentRemote = some yours := by
  obtain ⟨st, hat⟩ := (hfit x).sound (w.id x.other)
  have hst : (l x).Holds st := by simpa [Call.At, h.links x] using hat
  have hsettled : (st.offered.isNone && st.agreed.isSome) = true :=
    hst.peer.isSettled ▸ h.settled x
  rw [Bool.and_eq_true, Option.isNone_iff_eq_none, Option.isSome_iff_exists] at hsettled
  obtain ⟨hoffered, ⟨mine, yours⟩, hagreed⟩ := hsettled
  refine ⟨mine, yours, ?_, ?_, ?_⟩
  · have heq : (Duet.dialogue w d log).stance x = st := hat.stance_eq
    rw [heq]
    obtain ⟨offered, agreed⟩ := st
    rw [Stance.mk.injEq]
    exact ⟨hoffered, hagreed⟩
  · rw [hst.peer.currentLocal, hagreed]
    rfl
  · rw [hst.peer.currentRemote, hagreed]
    rfl

theorem dialogue (h : Settled w d l) (hfit : d.Fit w) (log : Log) :
    (dialogue w d log).Settled where
  mail := h.mail
  offered x := by
    obtain ⟨mine, yours, hst, -⟩ := h.agreed hfit log x
    rw [hst]
  agreed x := by
    obtain ⟨mine, yours, hst, -⟩ := h.agreed hfit log x
    rw [hst]
    rfl

theorem mirrors_iff (h : Settled w d l) (hfit : d.Fit w) (log : Log) :
    (Duet.dialogue w d log).Mirrors ↔ Mirror l := by
  constructor
  · intro hmirrors x
    obtain ⟨mine, yours, hst, hlocal, -⟩ := h.agreed hfit log x
    obtain ⟨mine', yours', hst', -, hremote⟩ := h.agreed hfit log x.other
    have hswap := hmirrors x
    rw [hst, hst', Option.map_some, Option.some.injEq, Prod.swap_prod_mk, Prod.mk.injEq] at hswap
    rw [hlocal, hremote, hswap.1]
  · intro hmirror x
    obtain ⟨mine, yours, hst, hlocal, hremote⟩ := h.agreed hfit log x
    obtain ⟨mine', yours', hst', hlocal', hremote'⟩ := h.agreed hfit log x.other
    have hthere := hmirror x
    have hback := hmirror x.other
    rw [hlocal, hremote', Option.some.injEq] at hthere
    rw [Side.other_other, hlocal', hremote, Option.some.injEq] at hback
    rw [hst, hst', hthere, hback]
    rfl

theorem lastAnswerTaken_iff (h : Settled w d l) (hfit : d.Fit w) (log : Log) :
    (Duet.dialogue w d log).LastAnswerTaken ↔
      ∃ x a, Dialogue.lastAnswer (described w log) = some (x, a) ∧
        (l x.other).peer.currentRemote = some a := by
  have hremote : ∀ x, ((Duet.dialogue w d log).stance x).agreed.map (·.2) =
      (l x).peer.currentRemote := by
    intro x
    obtain ⟨mine, yours, hst, -, hremote⟩ := h.agreed hfit log x
    rw [hst, hremote]
    rfl
  simp only [Dialogue.LastAnswerTaken, hremote]
  rfl

end Settled

theorem exists_yields (w : Parties) : ∃ low, Yields w low ∧ ¬ Yields w low.other := by
  by_cases h : w.id .left < w.id .right
  · exact ⟨.left, h, String.lt_asymm h⟩
  · have hlt := Table.lt_of_not_lt_of_ne h w.id_ne
    exact ⟨.right, hlt, String.lt_asymm hlt⟩

/-- Without repeated offers a run goes through rounds. -/
theorem inRound_run {w : Parties} {low : Side} (hlow : Yields w low) (hhigh : ¬ Yields w low.other)
    {moves : List Move} (spares : ∀ m ∈ moves, m.Spares w) {d : Duet} {log : Log} (h : d.Fit w)
    (hround : (dialogue w d log).InRound low) (steady : Steady w d moves) :
    (dialogue w (d.run w moves).1 (log ++ (d.run w moves).2)).InRound low := by
  induction moves generalizing d log with
  | nil => simpa [run] using hround
  | cons m rest ih =>
      obtain ⟨hnew, hrest⟩ := steady
      obtain ⟨hfit, hstep⟩ := refines w h log (spares m List.mem_cons_self)
      have hnext := Dialogue.inRound_step hlow hhigh hround hstep (described_append w _ _) hnew
      have hall := ih (fun m hm => spares m (List.mem_cons_of_mem _ hm)) hfit hnext hrest
      rwa [List.append_assoc] at hall

/-- In every run of two agents who neither tear their calls down nor lose the path between them:
once both have settled and no description is on its way, the descriptions of the two sides mirror
each other exactly if the last answer that was given is the remote description of the other side.
If no side offered again while an offer of its own waited, they do. -/
theorem descriptions_mirror_iff (w : Parties) {moves : List Move}
    (spares : ∀ m ∈ moves, m.Spares w) {l : Side → Link}
    (settled : Settled w (run w {} moves).1 l) :
    (Mirror l ↔ ∃ x a, Dialogue.lastAnswer (described w (run w {} moves).2) = some (x, a) ∧
      (l x.other).peer.currentRemote = some a) ∧
    (Steady w {} moves → Mirror l) := by
  have hempty : Dialogue.Inv (dialogue w {} []) := dialogue_empty w ▸ Dialogue.inv_empty
  obtain ⟨hfit, hinv⟩ := run_induction w (fun _ _ h hstep => Dialogue.inv_step h hstep) spares
    (fit_empty w) hempty
  rw [List.nil_append] at hinv
  constructor
  · rw [← settled.mirrors_iff hfit, ← settled.lastAnswerTaken_iff hfit]
    exact Dialogue.mirrors_iff hinv (settled.dialogue hfit _)
  · intro steady
    obtain ⟨low, hlow, hhigh⟩ := exists_yields w
    have hidle : (dialogue w {} []).InRound low := .idle
    have hround := inRound_run hlow hhigh spares (fit_empty w) hidle steady
    rw [List.nil_append] at hround
    rw [← settled.mirrors_iff hfit]
    exact Dialogue.mirrors_of_inRound hround (settled.dialogue hfit _)

/-! ## Two runs -/

open Parties (annAndZoe)

/-- A side starts its media and publishes a stream of one track. -/
def publishing (x : Side) (track : String) (epoch : Nat) : List Move :=
  [.turn x (.start false), .turn x (.answered ⟨epoch, false, 0⟩ (.ok ⟨[⟨track, .audio⟩]⟩)),
    .turn x .media]

/-- The links of the sides to each other after a run. -/
def linksAfter (moves : List Move) (x : Side) : Link :=
  (((run annAndZoe {} moves).1.agent x).call.links.find? (annAndZoe.id x.other)).getD
    (Link.create "" 0 "")

/-- Ann publishes, Zoe asks for an offer and answers it. -/
def annPublishes : List Move :=
  publishing .left "a" 0 ++ [.deliver .right, .deliver .left, .deliver .right, .deliver .left]

theorem descriptions_mirror_iff_annPublishes :
    (∀ m ∈ annPublishes, m.Spares annAndZoe) ∧
    Settled annAndZoe (run annAndZoe {} annPublishes).1 (linksAfter annPublishes) ∧
    Steady annAndZoe {} annPublishes ∧ Mirror (linksAfter annPublishes) := by
  have spares : ∀ m ∈ annPublishes, m.Spares annAndZoe := by
    simp [annPublishes, publishing, Move.Spares, Agent.Turn.Spares]
  have settled : Settled annAndZoe (run annAndZoe {} annPublishes).1 (linksAfter annPublishes) :=
    ⟨fun x => by cases x <;> decide, fun x => by cases x <;> decide, fun x => by cases x <;> decide⟩
  have steady : Steady annAndZoe {} annPublishes := by decide
  exact ⟨spares, settled, steady, (descriptions_mirror_iff annAndZoe spares settled).2 steady⟩

/-- Zoe publishes, is asked for an offer and makes one. She leaves and publishes another stream
before the answer comes, which makes her offer again. Ann answers both offers, and publishes a
stream herself in between. Zoe takes the first answer for the one to her second offer, so that she
answers Ann's offer, which Ann has withdrawn, and drops the second answer. -/
def zoeRepeatsHerOffer : List Move :=
  publishing .right "z" 0 ++ [.deliver .left, .deliver .right, .turn .right .leave] ++
    publishing .right "z" 1 ++ [.deliver .left] ++ publishing .left "a" 0 ++
    [.deliver .left, .deliver .left] ++ [.deliver .right, .deliver .right, .deliver .right,
      .deliver .right] ++ [.deliver .left, .deliver .left, .deliver .left]

/-- Nothing is on its way after that run, and both sides have settled, each on its own answer. -/
theorem descriptions_differ_after_repeated_offer :
    (∀ m ∈ zoeRepeatsHerOffer, m.Spares annAndZoe) ∧
    (∀ x, (run annAndZoe {} zoeRepeatsHerOffer).1.transit x = []) ∧
    Settled annAndZoe (run annAndZoe {} zoeRepeatsHerOffer).1 (linksAfter zoeRepeatsHerOffer) ∧
    ¬ Mirror (linksAfter zoeRepeatsHerOffer) := by
  refine ⟨?_, fun x => by cases x <;> decide, ⟨fun x => ?_, fun x => ?_, fun x => ?_⟩, fun h => ?_⟩
  · simp [zoeRepeatsHerOffer, publishing, Move.Spares, Agent.Turn.Spares]
  · cases x <;> decide
  · cases x <;> decide
  · cases x <;> decide
  · exact absurd (h .left) (by decide)

end Parley.Duet
