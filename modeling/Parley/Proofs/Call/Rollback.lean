import Parley.Proofs.Call.Balance

/-!
# Candidates of an offer that is withdrawn

When an offer is withdrawn, the candidates that were found for it are of no use any more. Those in
the queue of the link are dropped. Those that the connection has reported and the agent has not
taken are not: the report that carries one does not tell for which description it was found, and
when it is taken, the link is settled by its answer and lets it out. So nothing that was found
before goes out after the withdrawal if no such report waits then
(`Agent.withdrawn_stay_withdrawn`), and what waits goes out ahead of what is found for the answer
(`Agent.withdrawn_is_sent`).
-/

namespace Parley.Agent

variable {κ : Type} [Connection κ] {s : Setting κ} {a : Agent κ}

/-- The turn that withdraws an offer empties the queue and sends no candidate, and leaves the
reports that wait. -/
theorem Orderly.withdraw (h : a.Orderly) {r : String} {e : SessionEvent} {l : Link κ}
    (hw : a.call.withdraws s r e = some l) :
    Call.candidatesTo r (a.turn s (.session e)).2 = [] ∧
      ∃ k events, (a.turn s (.session e)).1.call.links.find? r = some k ∧ k.serial = l.serial ∧
        Connection.Course l.peer k.peer events ∧
        (a.turn s (.session e)).1.underWay r k = a.untaken r l.serial ++ gatheredIn events := by
  have hl := Call.find?_of_withdraws hw
  have hstep : Call.Keeps s a.call (a.call.step s (.session e)) _ :=
    Call.keeps_onSession h.proper h.ended e
  change Call.candidatesTo r (a.perform s (.session e)).2 = [] ∧ ∃ k events,
    (a.perform s (.session e)).1.call.links.find? r = some k ∧ _ ∧ _ ∧
      (a.perform s (.session e)).1.underWay r k = _
  rw [perform_of_running s _ (h.of_link hl).2]
  cases hk : (a.call.step s (.session e)).1.links.find? r with
  | none =>
      obtain ⟨hnone, -⟩ := hstep.absent r hk
      rw [hl] at hnone
      cases hnone
  | some k =>
      obtain ⟨l', horigin, hcarries⟩ := hstep.carries r k hk
      obtain rfl : l' = l := by
        cases horigin with
        | stands hl' => exact Option.some.inj (hl'.symm.trans hl)
        | made hnone _ _ => rw [hl] at hnone; cases hnone
      obtain ⟨taken, hqueue, hwithout⟩ := hcarries.queue
      -- The block is the whole queue, so nothing else can have left it and nothing is left in it.
      have hlength := hwithout.length_eq
      have hblocks : Call.blocksOf (a.call.withdraws s r e) = [l'.queue] := by rw [hw]; rfl
      rw [hblocks, List.flatten_singleton, hqueue, List.length_append] at hlength
      have hsent : Call.candidatesTo r (a.call.step s (.session e)).2 = [] :=
        List.eq_nil_of_length_eq_zero (by omega)
      have hempty : k.queue = [] := List.eq_nil_of_length_eq_zero (by omega)
      refine ⟨hsent, k, _, rfl, hcarries.serial, hcarries.course, ?_⟩
      simp only [underWay, untaken, hempty, hcarries.serial, Call.eventsFrom_append,
        gatheredIn_append, List.nil_append]

/-- What goes out after a withdrawal is what waited as a report at the withdrawal, and what was found
since. -/
theorem Orderly.since_withdrawal [Gathers κ] (h : a.Orderly) {r : String} {e : SessionEvent}
    {l k : Link κ} (hw : a.call.withdraws s r e = some l) {after : List (Setting κ × Turn κ)}
    (hk : ((a.turn s (.session e)).1.run after).1.call.links.find? r = some k)
    (same : k.serial = l.serial) :
    ∃ since, found k.peer = found l.peer ++ since ∧
      Without ((a.turn s (.session e)).1.withdrawn r l.serial after)
        (a.untaken r l.serial ++ since)
        (Call.candidatesTo r ((a.turn s (.session e)).1.run after).2 ++
          ((a.turn s (.session e)).1.run after).1.underWay r k) := by
  obtain ⟨-, k₁, events, hk₁, hserial, hcourse, hway⟩ := h.withdraw hw
  have horderly := (h.turn s (.session e)).orderly
  cases horderly.lived hk with
  | made _ _ hn _ =>
      have hle := horderly.proper.numbered r k₁ hk₁
      omega
  | @stood l₁ hl₁ _ hpassage =>
      obtain rfl : l₁ = k₁ := Option.some.inj (hl₁.symm.trans hk₁)
      obtain ⟨since, hfound, hwithout⟩ := hpassage.accounts
      refine ⟨gatheredIn events ++ since, ?_, ?_⟩
      · rw [hfound, Connection.found_of_course hcourse, List.append_assoc]
      · rwa [hway, same, List.append_assoc] at hwithout

/-- After an offer was withdrawn for one that crosses it, the link sends what its connection has
found since, for the answer and for later descriptions. Nothing that was found before the
withdrawal goes out after it, provided that no report of it waited then. In general what goes out is
what waited and what was found since, in this order, but for what is withdrawn later on. -/
theorem withdrawn_stay_withdrawn [Gathers κ] (before : List (Setting κ × Turn κ)) (s : Setting κ)
    (e : SessionEvent) (after : List (Setting κ × Turn κ)) {r : String} {l k : Link κ}
    (withdraws : (run {} before).1.call.withdraws s r e = some l)
    (stands : (((run {} before).1.turn s (.session e)).1.run after).1.call.links.find? r = some k)
    (same : k.serial = l.serial) :
    let a := (run {} before).1
    let b := (a.turn s (.session e)).1
    let sent := Call.candidatesTo r (b.run after).2
    let left := k.queue ++ (b.run after).1.untaken r k.serial
    Call.candidatesTo r (a.turn s (.session e)).2 = [] ∧
      ∃ since, found k.peer = found l.peer ++ since ∧
        (a.untaken r l.serial = [] → sent.Sublist since) ∧
        Without (b.withdrawn r l.serial after) (a.untaken r l.serial ++ since) (sent ++ left) ∧
        (b.withdrawn r l.serial after = [] → sent ++ left = a.untaken r l.serial ++ since) := by
  intro a b sent left
  have h : a.Orderly := Orderly.empty.run before
  obtain ⟨hquiet, -⟩ := h.withdraw withdraws
  obtain ⟨since, hfound, hwithout⟩ := h.since_withdrawal withdraws stands same
  refine ⟨hquiet, since, hfound, fun hnone => ?_, hwithout, hwithout.eq_of_nil⟩
  have hall : (sent ++ left).Sublist (a.untaken r l.serial ++ since) := hwithout.sublist
  rw [hnone, List.nil_append] at hall
  exact (List.sublist_append_left sent left).trans hall

/-- Both candidates of the withdrawn offer stood in the queue, and they are dropped. The two of the
answer go out. -/
theorem withdrawn_stay_withdrawn_queued :
    let s : Setting := { me := some "me", connect := fun _ => some { label := "me" } }
    let say (e : Event) : SessionEvent := .message { sender := "peer", event := e }
    let before : List (Setting × Turn) :=
      [(s, .session (say (.startStream (some "me")))), (s, .signal), (s, .signal)]
    let crossing := say (.signal (.ofDescription "me" ⟨.offer, "v=0"⟩))
    let a := (run {} before).1
    let b := (a.turn s (.session crossing)).1
    let after : List (Setting × Turn) := [(s, .signal), (s, .signal)]
    let candidate := Peer.candidate "me"
    ∃ l k : Link, a.call.withdraws s "peer" crossing = some l ∧
      (b.run after).1.call.links.find? "peer" = some k ∧ k.serial = l.serial ∧
      found l.peer = [candidate 0, candidate 1] ∧ a.untaken "peer" l.serial = [] ∧
      Call.candidatesTo "peer" (b.run after).2 = [candidate 2, candidate 3] ∧
      ∃ since, found k.peer = found l.peer ++ since ∧
        (Call.candidatesTo "peer" (b.run after).2).Sublist since := by
  intro s say before crossing a b after candidate
  let l : Link := (a.call.withdraws s "peer" crossing).get (by decide)
  let k : Link := ((b.run after).1.call.links.find? "peer").get (by decide)
  have withdraws : a.call.withdraws s "peer" crossing = some l := (Option.some_get _).symm
  have stands : (b.run after).1.call.links.find? "peer" = some k := (Option.some_get _).symm
  have same : k.serial = l.serial := by decide
  have hnone : a.untaken "peer" l.serial = [] := by decide
  obtain ⟨-, since, hfound, hsent, -⟩ :=
    withdrawn_stay_withdrawn before s crossing after withdraws stands same
  exact ⟨l, k, withdraws, stands, same, by decide, hnone, by decide, since, hfound, hsent hnone⟩

/-- Here neither candidate was taken when the offer, the only description so far, is withdrawn. The
next turn sends the first of them. -/
theorem withdrawn_is_sent :
    let s : Setting := { me := some "me", connect := fun _ => some { label := "me" } }
    let say (e : Event) : SessionEvent := .message { sender := "peer", event := e }
    let a := (run {} [(s, .session (say (.startStream (some "me"))))]).1
    let crossing := say (.signal (.ofDescription "me" ⟨.offer, "v=0"⟩))
    let b := (a.turn s (.session crossing)).1
    let candidate := Peer.candidate "me"
    ∃ l : Link, a.call.withdraws s "peer" crossing = some l ∧
      l.peer.pendingLocal.isSome ∧ l.peer.currentLocal = none ∧
      found l.peer = [candidate 0, candidate 1] ∧
      Call.candidatesTo "peer" (b.turn s .signal).2 = [candidate 0] := by
  intro s say a crossing b candidate
  let l : Link := (a.call.withdraws s "peer" crossing).get (by decide)
  exact ⟨l, (Option.some_get _).symm, by decide, by decide, by decide, by decide⟩

end Parley.Agent
