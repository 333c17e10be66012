import Parley.Proofs.Call.Accounts

/-!
# The accounts of a run

A link that stands at the end of a run either stood at its beginning or was made in it, by a turn
that says so in the log (`Agent.Lived`). Its passage runs from then on, so at the end of a run of a
new agent the account of every link is in balance (`Agent.candidates_are_accounted_for`).
-/

namespace Parley

open Connection (Passage)

namespace Agent

variable {κ : Type} [Connection κ] {a : Agent κ}

/-- The blocks of candidates that a run withdraws on the link with a number, in their order. -/
def withdrawn (r : String) (n : Nat) (a : Agent κ) :
    List (Setting κ × Turn κ) → List (List Candidate)
  | [] => []
  | (s, t) :: rest => t.withdrawn s r n a ++ (a.turn s t).1.withdrawn r n rest

/-- How a link came to stand at the end of a run, with the passage of its candidates from the
beginning of the run or from the making of the link. -/
inductive Lived (r : String) (a : Agent κ) (history : List (Setting κ × Turn κ)) (k : Link κ) :
    Prop where
  | stood {l : Link κ} (hl : a.call.links.find? r = some l) (hserial : k.serial = l.serial)
      (h : Passage l.peer (a.underWay r l) k.peer ((a.run history).1.underWay r k)
        (Call.candidatesTo r (a.run history).2) (a.withdrawn r k.serial history)) :
      Lived r a history k
  | made {st : Setting κ × Turn κ} {p : κ} (hst : st ∈ history) (hp : st.1.connect r = some p)
      (hn : a.call.serial < k.serial)
      (h : Passage p [] k.peer ((a.run history).1.underWay r k)
        (Call.sentSince r k.serial (a.run history).2) (a.withdrawn r k.serial history)) :
      Lived r a history k

/-- Nothing is withdrawn on a link that is yet to be made. -/
theorem Orderly.withdrawn_eq_nil (h : a.Orderly) {n : Nat} (hn : a.call.serial < n) (s : Setting κ)
    (r : String) (t : Turn κ) : t.withdrawn s r n a = [] := by
  cases t with
  | session e =>
      cases hw : a.call.withdraws s r e with
      | none =>
          rw [Turn.withdrawn, hw]
          rfl
      | some l =>
          have hle := h.proper.numbered r l (Call.find?_of_withdraws hw)
          have hne : l.serial ≠ n := by omega
          rw [Turn.withdrawn, hw, Option.filter_some_neg (by simpa using hne)]
          rfl
  | _ => rfl

/-- Every turn keeps the accounts, so a run does: a link that stands after the first turn stood
before it or was made in it, and one that is made later has nothing to do with it. -/
theorem Orderly.lived (h : a.Orderly) {history : List (Setting κ × Turn κ)} {r : String}
    {k : Link κ} (hk : (a.run history).1.call.links.find? r = some k) : Lived r a history k := by
  induction history generalizing a with
  | nil => exact .stood hk rfl (.refl _ _)
  | cons st rest ih =>
      obtain ⟨s, t⟩ := st
      have hturn := h.turn s t
      cases ih hturn.orderly hk with
      | @stood l hl hserial hpassage =>
          obtain ⟨l₀, horigin, hserial₀, hpassage₀⟩ := hturn.carries r l hl
          -- The passages join; if the turn made the link, the log is cut at its mark.
          have hall := hpassage₀.trans hpassage
          rw [← hserial₀, ← hserial] at hall
          cases horigin with
          | stands hl₀ =>
              have hsent : Call.candidatesTo r (a.run ((s, t) :: rest)).2 =
                  Call.candidatesTo r (a.turn s t).2 ++
                    Call.candidatesTo r ((a.turn s t).1.run rest).2 :=
                Call.candidatesTo_append r _ _
              refine .stood hl₀ (hserial.trans hserial₀) ?_
              rw [hsent]
              exact hall
          | made hnone hp hn =>
              obtain ⟨hopened, hsince⟩ := hturn.marks r l hnone hl
              have hsent : Call.sentSince r k.serial (a.run ((s, t) :: rest)).2 =
                  Call.candidatesTo r (a.turn s t).2 ++
                    Call.candidatesTo r ((a.turn s t).1.run rest).2 := by
                rw [hserial, ← hsince]
                exact Call.sentSince_append_of_mem hopened _
              refine .made List.mem_cons_self hp (by rw [hserial, hserial₀]; exact hn) ?_
              rw [hsent]
              rwa [underWay, h.untaken_eq_nil hn] at hall
      | made hst hp hn hpassage =>
          -- The number is not given out yet, so the first turn neither marks nor withdraws for it.
          have hbefore : a.call.serial < k.serial := Nat.lt_of_le_of_lt hturn.grows hn
          have hnot : .opened r k.serial ∉ (a.turn s t).2 := by
            intro hmem
            have hle := hturn.opens r _ hmem
            omega
          have hsent : Call.sentSince r k.serial (a.run ((s, t) :: rest)).2 =
              Call.sentSince r k.serial ((a.turn s t).1.run rest).2 :=
            Call.sentSince_append_of_not_mem hnot _
          refine .made (List.mem_cons_of_mem _ hst) hp hbefore ?_
          rw [hsent, withdrawn, h.withdrawn_eq_nil hbefore, List.nil_append]
          exact hpassage

omit [Connection κ] in
theorem not_stands_empty {r : String} {l : Link κ} :
    ({} : Agent κ).call.links.find? r ≠ some l := nofun

/-- The account of a link: what was sent since it was opened, what waits in its queue and what its
connection reported and the agent has not taken are, in this order, all that its connection found,
but for the blocks that stood in the queue when the link withdrew an offer of its own for one that
crossed it. Where it never did, nothing is lost, repeated or out of order. Everything that was sent
to the participant since the link was opened counts, so nothing of other links comes in between. -/
theorem candidates_are_accounted_for [Gathers κ] {history : List (Setting κ × Turn κ)}
    (blank : ∀ st ∈ history, ∀ r p, st.1.connect r = some p → found p = []) {r : String}
    {l : Link κ} (stands : (run {} history).1.call.links.find? r = some l) :
    let a := (run {} history).1
    let sent := Call.sentSince r l.serial (run {} history).2
    let blocks := withdrawn r l.serial {} history
    Without blocks (found l.peer) (sent ++ l.queue ++ a.untaken r l.serial) ∧
      (blocks = [] → sent ++ l.queue ++ a.untaken r l.serial = found l.peer) := by
  intro a sent blocks
  cases Orderly.empty.lived stands with
  | stood hl _ _ => exact absurd hl not_stands_empty
  | @made st p hst hp _ hpassage =>
      obtain ⟨since, hfound, hwithout⟩ := hpassage.accounts
      rw [blank st hst r p hp, List.nil_append] at hfound
      rw [List.nil_append, ← hfound, underWay, ← List.append_assoc] at hwithout
      exact ⟨hwithout, hwithout.eq_of_nil⟩

/-- An offer is withdrawn while one of its two candidates stands in the queue and the other one is
not taken yet. The first is dropped, the second goes out with those of the answer. -/
theorem candidates_are_accounted_for_crossing :
    let s : Setting := { me := some "me", connect := fun _ => some { label := "me" } }
    let say (e : Event) : SessionEvent := .message { sender := "peer", event := e }
    let history : List (Setting × Turn) :=
      [(s, .session (say (.startStream (some "me")))), (s, .signal),
        (s, .session (say (.signal (.ofDescription "me" ⟨.offer, "v=0"⟩)))), (s, .signal)]
    let candidate := Peer.candidate "me"
    ∃ l : Link, (run {} history).1.call.links.find? "peer" = some l ∧
      (∀ st ∈ history, ∀ r p, st.1.connect r = some p → found p = []) ∧
      withdrawn "peer" l.serial {} history = [[candidate 0]] ∧
      Call.sentSince "peer" l.serial (run {} history).2 = [candidate 1] ∧ l.queue = [] ∧
      (run {} history).1.untaken "peer" l.serial = [candidate 2, candidate 3] ∧
      Without [[candidate 0]] (found l.peer) [candidate 1, candidate 2, candidate 3] := by
  intro s say history candidate
  have blank : ∀ st ∈ history, ∀ r p, st.1.connect r = some p → found p = [] := by
    intro st hst r p hp
    have hs : st.1 = s := by
      simp only [history, List.mem_cons, List.not_mem_nil, or_false] at hst
      rcases hst with rfl | rfl | rfl | rfl <;> rfl
    rw [hs] at hp
    cases hp
    rfl
  let l : Link := ((run {} history).1.call.links.find? "peer").get (by decide)
  have stands : (run {} history).1.call.links.find? "peer" = some l := (Option.some_get _).symm
  have hblocks : withdrawn "peer" l.serial {} history = [[candidate 0]] := by decide
  have hsent : Call.sentSince "peer" l.serial (run {} history).2 = [candidate 1] := by decide
  have hqueue : l.queue = [] := by decide
  have huntaken : (run {} history).1.untaken "peer" l.serial = [candidate 2, candidate 3] := by
    decide
  obtain ⟨hwithout, -⟩ := candidates_are_accounted_for blank stands
  rw [hblocks, hsent, hqueue, huntaken] at hwithout
  exact ⟨l, stands, blank, hblocks, hsent, hqueue, huntaken, hwithout⟩

end Agent

end Parley
