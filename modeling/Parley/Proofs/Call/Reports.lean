import Parley.Proofs.Call.CandidateFlow

/-!
# What comes of a report

A connection reports through the same channel as all others, the closed ones among them. A call that
takes a report passes over it if it is not of the link that stands. Otherwise a candidate joins those
that wait on the link, which may let all of them out, a track is noted, and a dead path ends the link
(`Call.taken_onSignal`). No step on a report reports anything itself.
-/

namespace Parley.Call

variable {κ : Type} [Connection κ] {c : Call κ} {x : PeerSignal}

/-- What comes of a report. A report that is no candidate joins the link with nothing. -/
inductive Taken (c : Call κ) (x : PeerSignal) : Step κ → Prop where
  | passed (h : ∀ l, c.links.find? x.remote = some l → l.serial = x.serial →
      gatheredIn [x.event] = []) : Taken c x (c, [])
  | removed : Taken c x (c.remove x.remote)
  | joined {l k : Link κ} {effects : List CallEffect} (hl : c.links.find? x.remote = some l)
      (hserial : l.serial = x.serial)
      (hk : Link.Carries { l with queue := l.queue ++ gatheredIn [x.event] } k []
        (candidatesTo x.remote effects) [])
      (hquiet : ∀ r, r ≠ x.remote → candidatesTo r effects = [])
      (hreports : Agent.reports effects = []) (hopened : ∀ r n, .opened r n ∉ effects) :
      Taken c x (c.put x.remote k, effects)

theorem taken_onSignal (hc : c.Proper) (hended : ¬ c.ended) (x : PeerSignal) :
    Taken c x (c.onSignal x) := by
  unfold onSignal
  rw [if_neg hended]
  cases hl : c.links.find? x.remote with
  | none =>
      refine .passed fun l hl' => ?_
      rw [hl] at hl'
      cases hl'
  | some l =>
      dsimp only
      split
      · rename_i hserial
        refine .passed fun l' hl' hserial' => ?_
        rw [hl, Option.some.injEq] at hl'
        exact absurd (hl' ▸ hserial') hserial
      · rename_i hserial
        have hserial : l.serial = x.serial := by simpa using hserial
        cases he : x.event with
        | gathered candidate =>
            have hgather : l.gather candidate =
                ({ l with queue := l.queue ++ [candidate] } : Link κ).flush :=
              if_neg (hc.live _ l hl)
            dsimp only
            rw [hgather]
            refine .joined hl hserial ?_ (fun r => candidatesTo_sendCandidate_of_ne _ _)
              (reports_sendCandidate _ _) (opened_not_mem_sendCandidate _ _)
            rw [he, candidatesTo_sendCandidate]
            exact .flush _
        | track t =>
            refine .joined hl hserial ?_ (fun r _ => rfl) rfl (fun r n => by simp [tellStreams])
            rw [he]
            exact .of_queue_eq rfl rfl id (List.append_nil _).symm .nothing
        | iceChanged state =>
            dsimp only
            split
            · exact .removed
            · refine .passed fun _ _ _ => ?_
              rw [he]
              rfl

theorem idle_remove (r : String) (c : Call κ) : ∀ e ∈ (c.remove r).2, Idle e := by
  unfold remove
  split <;> simp [tellStreams, Idle]

theorem Taken.reports_eq_nil {t : Step κ} (h : Taken c x t) : Agent.reports t.2 = [] := by
  cases h with
  | passed _ => rfl
  | removed => exact reports_of_idle (idle_remove _ _)
  | joined _ _ _ _ hreports _ => exact hreports

end Parley.Call
