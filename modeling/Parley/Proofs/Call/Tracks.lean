import Parley.Proofs.Call.Coherence

/-!
# Tracks are stopped once

The devices hand a stream out when they answer a request. Its tracks are then on their way to the
call, in the published stream, stopped, or lost, and no track is in two of these places or twice in
one of them (`tracks_balance`). Tracks get lost in two ways only: their answer waits when an agent
is over, or the devices answer an agent that is over already. So every track is either published or
was stopped once, exactly if nothing got lost (`stopped_once_iff_nothing_lost`).
-/

namespace Parley

/-- The tracks that an answer of the devices brings. -/
def brought (result : Except MediaError MediaStream) : List Track :=
  (result.toOption.getD {}).tracks

namespace Booth

theorem start_tracks (b : Booth) : b.start.2.1 ++ b.start.1.tracks = b.tracks := by
  unfold start; split <;> rfl

theorem leave_tracks (b : Booth) : b.leave.2.1 ++ b.leave.1.tracks = b.tracks := by
  unfold leave
  split
  · rfl
  · exact List.append_nil _

theorem teardown_tracks (b : Booth) : b.teardown.2.1 ++ b.teardown.1.tracks = b.tracks := by
  unfold teardown
  split
  · rfl
  · exact List.append_nil _

/-- A stream that is not stopped at once is published, and takes the place of no other. -/
theorem media_tracks {b : Booth} {e : Nat} {out : List Nat} (h : b.Agrees (e :: out))
    (result : Except MediaError MediaStream) :
    ((b.media e result).2.1 ++ (b.media e result).1.tracks).Perm (b.tracks ++ brought result) := by
  unfold media
  split
  · exact List.perm_append_comm
  · rename_i hnow
    have he : e = b.epoch := by
      rw [not_or, ne_eq, Decidable.not_not] at hnow
      exact hnow.2
    obtain ⟨-, -, hheld, -⟩ := h.answered he
    cases result with
    | error _ => simp [tracks, hheld, brought, Except.toOption]
    | ok stream => simp [tracks, hheld, brought, Except.toOption]

end Booth

namespace Agent

variable {κ : Type}

def holding (a : Agent κ) : List Track := a.call.booth.tracks

/-- The tracks on their way to the call. -/
def waiting (a : Agent κ) : List Track := a.answers.flatMap fun answer => brought answer.2

/-! ## The balance -/

/-- What was there before and what was handed out is there now, was stopped or got lost, each track
as often as before. -/
def Balance (a : Agent κ) (handed : List Track) (out : Agent κ × List CallEffect)
    (lost : List Track) : Prop :=
  ∀ t, a.holding.count t + a.waiting.count t + handed.count t =
    (Call.released out.2).count t + out.1.holding.count t + out.1.waiting.count t + lost.count t

theorem Balance.refl (a : Agent κ) : Balance a [] (a, []) [] := by
  intro t
  simp

theorem Balance.trans {a : Agent κ} {b c : Agent κ × List CallEffect}
    {handed handed' lost lost' : List Track} (h : Balance a handed b lost)
    (h' : Balance b.1 handed' c lost') :
    Balance a (handed ++ handed') (c.1, b.2 ++ c.2) (lost ++ lost') := by
  intro t
  have ht := h t
  have ht' := h' t
  simp only [Call.released_append, List.count_append]
  omega

variable [Connection κ]

/-- What the booth makes of the tracks in a step, the agent makes of them. -/
theorem balance_perform (s : Setting κ) (i : Call.Input) {a : Agent κ} (hr : a.running = true)
    {handed : List Track}
    (h : ((a.call.booth.step i).2.1 ++ (a.call.booth.step i).1.tracks).Perm
      (a.call.booth.tracks ++ handed)) : Balance a handed (a.perform s i) [] := by
  have hwaiting : (a.perform s i).1.waiting = a.waiting := by
    unfold perform
    rw [if_neg (by simp [hr])]
    rfl
  have hstep := booth_perform s i hr
  rw [Prod.mk.injEq] at hstep
  intro t
  have hcount := h.count_eq t
  rw [List.count_append, List.count_append] at hcount
  simp only [hwaiting, holding, hstep, List.count_nil]
  omega

theorem balance_perform_plain (s : Setting κ) (i : Call.Input) (hi : ∀ e r, i ≠ .media e r)
    (a : Agent κ) : Balance a [] (a.perform s i) [] := by
  by_cases hr : a.running = true
  · refine balance_perform s i hr (.of_eq ?_)
    rw [List.append_nil]
    cases i with
    | session e => rfl
    | start video => exact a.call.booth.start_tracks
    | leave => exact a.call.booth.leave_tracks
    | teardown => exact a.call.booth.teardown_tracks
    | signal signal => rfl
    | media e r => exact absurd rfl (hi e r)
  · rw [perform_of_not_running s i (by simpa using hr)]
    exact .refl a

theorem balance_takeSignal (s : Setting κ) (a : Agent κ) : Balance a [] (a.takeSignal s) [] := by
  unfold takeSignal
  split
  · exact .refl a
  · rename_i signal signals _
    exact balance_perform_plain s (.signal signal) nofun { a with signals }

/-- An answer that is taken is published or stopped; which of the two, is up to the booth. -/
theorem balance_takeAnswer (s : Setting κ) {a : Agent κ} (h : a.Coherent) :
    Balance a [] (a.takeAnswer s) [] := by
  unfold takeAnswer
  split
  · exact .refl a
  · rename_i e result answers hanswers
    obtain ⟨hr, hagrees⟩ := h.of_answer hanswers
    have hrest : ({ a with answers } : Agent κ).running = true := hr
    have hstep := balance_perform s (.media e result) hrest (Booth.media_tracks hagrees result)
    have hwaiting : a.waiting = brought result ++ ({ a with answers } : Agent κ).waiting := by
      simp [waiting, hanswers]
    have hholding : ({ a with answers } : Agent κ).holding = a.holding := rfl
    intro t
    have ht := hstep t
    rw [hholding] at ht
    rw [hwaiting, List.count_append]
    simp only [List.count_nil] at ht ⊢
    omega

/-- What waits when an agent ends gets lost. -/
theorem balance_finish (s : Setting κ) (a : Agent κ) : Balance a [] (a.finish s) a.waiting := by
  have hwaiting : (a.perform s .teardown).1.waiting = a.waiting := by
    unfold perform
    split <;> rfl
  intro t
  have ht := balance_perform_plain s .teardown nofun a t
  rw [hwaiting] at ht
  have hnone : (a.finish s).1.waiting = [] := rfl
  have hholding : (a.finish s).1.holding = (a.perform s .teardown).1.holding := rfl
  have heffects : (a.finish s).2 = (a.perform s .teardown).2 := rfl
  rw [hnone, hholding, heffects]
  simp only [List.count_nil] at ht ⊢
  omega

theorem balance_disturb (remote : String) (serial : Nat) (n : Connection.Network κ) (a : Agent κ) :
    Balance a [] (a.disturb remote serial n, []) [] := by
  unfold disturb
  split <;> exact .refl a

/-! ## What a history hands out and loses -/

/-- The tracks that the devices hand out in a turn. -/
def handedOut (a : Agent κ) : Turn κ → List Track
  | .answered q result => if q ∈ a.requests then brought result else []
  | _ => []

/-- The tracks that get lost in a turn: those that wait when the agent ends, and those that the
devices hand out to an agent that is over. -/
def lost (a : Agent κ) : Turn κ → List Track
  | .teardown | .dropped => a.waiting
  | .answered q result => if q ∈ a.requests ∧ a.running = false then brought result else []
  | _ => []

/-- What comes together over the turns of a history. -/
def gathered (f : Agent κ → Turn κ → List Track) : Agent κ → List (Setting κ × Turn κ) → List Track
  | _, [] => []
  | a, (s, t) :: rest => f a t ++ gathered f (a.turn s t).1 rest

/-- What the devices answer waits from then on, unless the agent is over. -/
theorem balance_answer (q : Acquisition) (result : Except MediaError MediaStream) (a : Agent κ) :
    Balance a (a.handedOut (.answered q result)) (a.answer q result, [])
      (a.lost (.answered q result)) := by
  by_cases hq : q ∈ a.requests
  · have hhanded : a.handedOut (.answered q result) = brought result := if_pos hq
    by_cases hr : a.running = true
    · have hlost : a.lost (.answered q result) = [] := if_neg (by simp [hr])
      have hwaiting : (a.answer q result).waiting = a.waiting ++ brought result := by
        simp [answer, hq, hr, waiting]
      have hholding : (a.answer q result).holding = a.holding := by simp [answer, hq, holding]
      intro t
      simp only [hhanded, hlost, hwaiting, hholding, Call.released_nil, List.count_append,
        List.count_nil]
      omega
    · have hlost : a.lost (.answered q result) = brought result := if_pos ⟨hq, by simpa using hr⟩
      have hwaiting : (a.answer q result).waiting = a.waiting := by
        simp [answer, hq, hr, waiting]
      have hholding : (a.answer q result).holding = a.holding := by simp [answer, hq, holding]
      intro t
      simp only [hhanded, hlost, hwaiting, hholding, Call.released_nil, List.count_nil]
      omega
  · have hhanded : a.handedOut (.answered q result) = [] := if_neg hq
    have hlost : a.lost (.answered q result) = [] := if_neg fun h => hq h.1
    rw [hhanded, hlost, answer, if_neg hq]
    exact .refl a

theorem balance_turn (s : Setting κ) (t : Turn κ) {a : Agent κ} (h : a.Coherent) :
    Balance a (a.handedOut t) (a.turn s t) (a.lost t) := by
  cases t with
  | session e => exact balance_perform_plain s (.session e) nofun a
  | sessionEnded => exact balance_perform_plain s .teardown nofun a
  | start video => exact balance_perform_plain s (.start video) nofun a
  | leave => exact balance_perform_plain s .leave nofun a
  | teardown => exact balance_finish s a
  | dropped => exact balance_finish s a
  | signal => exact balance_takeSignal s a
  | media => exact balance_takeAnswer s h
  | answered q result => exact balance_answer q result a
  | network remote serial n => exact balance_disturb remote serial n a

theorem balance_run (history : List (Setting κ × Turn κ)) {a : Agent κ} (h : a.Coherent) :
    Balance a (gathered handedOut a history) (a.run history) (gathered lost a history) := by
  induction history generalizing a with
  | nil => exact .refl a
  | cons st rest ih => exact (balance_turn st.1 st.2 h).trans (ih (h.turn st.1 st.2))

/-- While no answer waits, what was handed out so far is published, was stopped or got lost. -/
theorem tracks_balance (history : List (Setting κ × Turn κ))
    (quiet : (run {} history).1.answers = []) :
    (gathered handedOut ({} : Agent κ) history).Perm
      (Call.released (run {} history).2 ++
        ((run {} history).1.holding ++ gathered lost ({} : Agent κ) history)) := by
  rw [List.perm_iff_count]
  intro t
  have ht := balance_run history coherent_empty t
  have hwaiting : (run {} history).1.waiting = [] := by rw [waiting, quiet]; rfl
  rw [hwaiting] at ht
  simp only [holding, waiting, Call.booth_empty, Booth.tracks, List.flatMap_nil, Option.getD_none,
    List.count_nil] at ht
  simp only [List.count_append, holding, Booth.tracks]
  omega

/-- Each of the tracks is published and was never stopped, or was stopped once and is not
published. -/
def StoppedOnce (tracks published stopped : List Track) : Prop :=
  ∀ t ∈ tracks, (t ∈ published ∧ t ∉ stopped) ∨ (t ∉ published ∧ stopped.count t = 1)

instance (tracks published stopped : List Track) :
    Decidable (StoppedOnce tracks published stopped) :=
  inferInstanceAs (Decidable (∀ t ∈ tracks, _))

/-- Where the tracks that were handed out are in one of three places, different tracks were each
stopped once or are published exactly if the third place is empty. -/
theorem stoppedOnce_iff {acquired stopped published lost : List Track}
    (h : acquired.Perm (stopped ++ (published ++ lost))) (distinct : acquired.Nodup) :
    StoppedOnce acquired published stopped ↔ lost = [] := by
  have hnodup := h.nodup_iff.mp distinct
  rw [List.nodup_append, List.nodup_append] at hnodup
  obtain ⟨hstopped, ⟨-, -, hpublished⟩, hrest⟩ := hnodup
  constructor
  · intro honce
    refine List.eq_nil_iff_forall_not_mem.mpr fun t ht => ?_
    have hstop : t ∉ stopped := fun hs => hrest t hs t (List.mem_append_right _ ht) rfl
    rcases honce t (h.mem_iff.mpr (by simp [ht])) with ⟨hpub, -⟩ | ⟨-, hcount⟩
    · exact hpublished t hpub t ht rfl
    · rw [List.count_eq_zero.mpr hstop] at hcount
      cases hcount
  · rintro rfl t ht
    rw [List.append_nil] at h hrest
    rcases List.mem_append.mp (h.mem_iff.mp ht) with hstop | hpub
    · refine .inr ⟨fun hpub => hrest t hstop t hpub rfl, ?_⟩
      rw [hstopped.count, if_pos hstop]
    · exact .inl ⟨hpub, fun hstop => hrest t hstop t hpub rfl⟩

theorem perm_append_iff {acquired stopped published lost : List Track}
    (h : acquired.Perm (stopped ++ (published ++ lost))) :
    acquired.Perm (stopped ++ published) ↔ lost = [] := by
  constructor
  · intro hp
    have hlength := hp.length_eq
    rw [h.length_eq] at hlength
    simp only [List.length_append] at hlength
    exact List.eq_nil_of_length_eq_zero (by omega)
  · rintro rfl
    rwa [List.append_nil] at h

omit [Connection κ] in
theorem Coherent.holding_eq_nil {a : Agent κ} (h : a.Coherent) (hended : a.call.ended) :
    a.holding = [] := by
  have hstart := h.agrees.ended hended
  have hheld := h.agrees.held_eq_none (by rw [hstart]; nofun)
  rw [holding, Booth.tracks, hheld]
  rfl

/-- If different tracks are handed out and no answer waits, each of them is published or was stopped
once, exactly if nothing got lost. With or without that assumption the tracks that were handed out
are those that were stopped and those that are published, each as often, exactly if nothing got
lost; and those that were stopped, if the call is over. -/
theorem stopped_once_iff_nothing_lost (history : List (Setting κ × Turn κ))
    (quiet : (run {} history).1.answers = []) :
    ((gathered handedOut ({} : Agent κ) history).Nodup →
      (StoppedOnce (gathered handedOut ({} : Agent κ) history) (run {} history).1.holding
          (Call.released (run {} history).2) ↔
        gathered lost ({} : Agent κ) history = [])) ∧
    ((gathered handedOut ({} : Agent κ) history).Perm
        (Call.released (run {} history).2 ++ (run {} history).1.holding) ↔
      gathered lost ({} : Agent κ) history = []) ∧
    ((run {} history).1.call.ended →
      ((gathered handedOut ({} : Agent κ) history).Perm (Call.released (run {} history).2) ↔
        gathered lost ({} : Agent κ) history = [])) := by
  have hbalance := tracks_balance history quiet
  refine ⟨stoppedOnce_iff hbalance, perm_append_iff hbalance, fun hended => ?_⟩
  have hnone := (coherent_empty.run history).holding_eq_nil hended
  have hiff := perm_append_iff hbalance
  rwa [hnone, List.append_nil] at hiff

/-- The call is torn down by a command while the devices are asked for a microphone. They hand it
out all the same, and it stays open although nothing is on its way any more. -/
theorem handed_out_after_teardown :
    let s : Setting := { me := some "me", connect := fun _ => none }
    let history : List (Setting × Turn) :=
      [(s, .start false), (s, .teardown), (s, .answered ⟨0, false, 0⟩ (.ok ⟨[⟨"mic", .audio⟩]⟩))]
    (run {} history).1.call.ended ∧ (run {} history).1.requests = [] ∧
      (run {} history).1.answers = [] ∧
      gathered handedOut {} history = [⟨"mic", .audio⟩] ∧
      ¬ StoppedOnce (gathered handedOut {} history) (run {} history).1.holding
        (Call.released (run {} history).2) := by
  decide

/-- When only the session ends meanwhile, the microphone is stopped. -/
theorem stopped_once_iff_nothing_lost_session_ended :
    let s : Setting := { me := some "me", connect := fun _ => none }
    let history : List (Setting × Turn) :=
      [(s, .start false), (s, .sessionEnded),
        (s, .answered ⟨0, false, 0⟩ (.ok ⟨[⟨"mic", .audio⟩]⟩)), (s, .media)]
    (run {} history).1.answers = [] ∧ gathered lost {} history = [] ∧
      (gathered handedOut {} history).Nodup ∧
      StoppedOnce (gathered handedOut {} history) (run {} history).1.holding
        (Call.released (run {} history).2) := by
  intro s history
  have quiet : (run {} history).1.answers = [] := by decide
  have nothing : gathered lost {} history = [] := by decide
  have distinct : (gathered handedOut {} history).Nodup := by decide
  exact ⟨quiet, nothing, distinct,
    ((stopped_once_iff_nothing_lost history quiet).1 distinct).mpr nothing⟩

end Agent

end Parley
