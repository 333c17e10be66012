import Parley.Proofs.Call.ConnectionHistory
import Parley.Proofs.Call.Serials

/-!
# The flow of candidates through a call

A candidate that a connection reports comes back to the call as a signal, joins the queue of its
link and leaves it when the link is settled, unless the link withdraws the offer for which it was
found. This is followed for one link at a time (`Link.Carries`), and then for all links of a call in
one step (`Call.Keeps`): a link that is there after a step was there before or was made in it, its
connection went on in its course with just the reports that the step has for it, and what left its
queue was sent, but for the blocks that were withdrawn. `Keeps` holds of the few things that a call
does to its links and is closed under doing one after the other, so it holds of the steps.
-/

namespace Parley

/-! ## Lists without blocks -/

/-- What is left of a list without some blocks of it, which are given in their order. -/
inductive Without {α : Type} : List (List α) → List α → List α → Prop where
  | nothing : Without [] [] []
  | keep {bs : List (List α)} {xs ys : List α} (h : Without bs xs ys) (zs : List α) :
      Without bs (xs ++ zs) (ys ++ zs)
  | drop {bs : List (List α)} {xs ys : List α} (h : Without bs xs ys) (b : List α) :
      Without (bs ++ [b]) (xs ++ b) ys

namespace Without

variable {α : Type} {bs cs : List (List α)} {xs ys xs' ys' : List α}

theorem refl (xs : List α) : Without [] xs xs := keep nothing xs

theorem append (h : Without bs xs ys) (h' : Without cs xs' ys') :
    Without (bs ++ cs) (xs ++ xs') (ys ++ ys') := by
  induction h' with
  | nothing => simpa using h
  | keep _ zs ih =>
      rw [← List.append_assoc, ← List.append_assoc]
      exact ih.keep zs
  | drop _ b ih =>
      rw [← List.append_assoc, ← List.append_assoc]
      exact ih.drop b

theorem sublist (h : Without bs xs ys) : ys.Sublist xs := by
  induction h with
  | nothing => exact .slnil
  | keep _ zs ih => exact ih.append (.refl zs)
  | drop _ b ih => exact ih.trans (List.sublist_append_left ..)

theorem eq_of_nil (h : Without bs xs ys) (hnil : bs = []) : ys = xs := by
  induction h with
  | nothing => rfl
  | keep _ zs ih => rw [ih hnil]
  | drop _ b _ => simp at hnil

theorem length_eq (h : Without bs xs ys) : xs.length = ys.length + bs.flatten.length := by
  induction h with
  | nothing => rfl
  | keep _ zs ih =>
      simp only [List.length_append]
      omega
  | drop _ b ih =>
      simp only [List.length_append, List.flatten_append, List.flatten_cons, List.flatten_nil,
        List.length_nil]
      omega

end Without

/-! ## One link -/

namespace Link

variable {κ : Type} [Connection κ]

/-- A link becomes another state of itself. Its connection goes on in its course and reports
`events`; from the front of its queue `sent` goes out, and `blocks` are withdrawn. -/
structure Carries (l k : Link κ) (events : List PeerEvent) (sent : List Candidate)
    (blocks : List (List Candidate)) : Prop where
  remote : k.remote = l.remote
  serial : k.serial = l.serial
  live : l.phase ≠ .closed → k.phase ≠ .closed
  course : Connection.Course l.peer k.peer events
  queue : ∃ taken, l.queue = taken ++ k.queue ∧ Without blocks taken sent

namespace Carries

variable {l k m : Link κ} {events events' : List PeerEvent} {sent sent' : List Candidate}
  {blocks blocks' : List (List Candidate)}

theorem trans (h : l.Carries k events sent blocks) (h' : k.Carries m events' sent' blocks') :
    l.Carries m (events ++ events') (sent ++ sent') (blocks ++ blocks') := by
  obtain ⟨taken, hqueue, hwithout⟩ := h.queue
  obtain ⟨taken', hqueue', hwithout'⟩ := h'.queue
  refine ⟨h'.remote.trans h.remote, h'.serial.trans h.serial, fun hl => h'.live (h.live hl),
    h.course.trans h'.course, taken ++ taken', ?_, hwithout.append hwithout'⟩
  rw [hqueue, hqueue', List.append_assoc]

/-- What leaves the queue alone. -/
theorem of_queue_eq (hremote : k.remote = l.remote) (hserial : k.serial = l.serial)
    (hlive : l.phase ≠ .closed → k.phase ≠ .closed) (hqueue : k.queue = l.queue)
    (h : Connection.Course l.peer k.peer events) : l.Carries k events [] [] :=
  ⟨hremote, hserial, hlive, h, [], hqueue.symm, .nothing⟩

theorem refl (l : Link κ) : l.Carries l [] [] [] := .of_queue_eq rfl rfl id rfl .nothing

theorem operate {p : κ} (h : Connection.Course l.peer p events) :
    l.Carries { l with peer := p } events [] [] := .of_queue_eq rfl rfl id rfl h

theorem negotiate (l : Link κ) : l.Carries l.negotiate [] [] [] := by
  refine .of_queue_eq ?_ l.negotiate_serial Link.negotiate_ne_closed ?_ ?_
  · unfold Link.negotiate; split <;> rfl
  · unfold Link.negotiate; split <;> rfl
  · rw [negotiate_peer]
    exact .nothing

theorem forget (l : Link κ) : l.Carries l.forget.1 [] [] [l.queue] :=
  ⟨rfl, rfl, id, .nothing, l.queue, (List.append_nil _).symm, Without.drop .nothing l.queue⟩

theorem flush (l : Link κ) : l.Carries l.flush.1 [] l.flush.2 [] := by
  unfold Link.flush
  split
  · exact .refl l
  · exact ⟨rfl, rfl, fun _ => nofun, .nothing, l.queue, (List.append_nil _).symm, .refl l.queue⟩

theorem attach (l : Link κ) (s : MediaStream) : l.Carries (l.attach s) [] [] [] :=
  .operate (Connection.Course.nothing.addTracks s.tracks)

theorem detach (l : Link κ) (s : MediaStream) : l.Carries (l.detach s) [] [] [] :=
  .operate (Connection.Course.nothing.removeTracks s.tracks)

end Carries

end Link

namespace Call

/-! ## What is said for a link -/

/-- The reports of the connection of a link. -/
def eventsFrom (r : String) (n : Nat) (signals : List PeerSignal) : List PeerEvent :=
  (signals.filter fun x => x.remote = r ∧ x.serial = n).map (·.event)

/-- The candidates for a participant among effects. -/
def candidatesTo (r : String) (effects : List CallEffect) : List Candidate :=
  effects.filterMap fun
    | .send (.signal e) => if e.target = some r then e.ice else none
    | _ => none

/-- The candidates that were sent to a participant since a link was opened. -/
def sentSince (r : String) (n : Nat) (effects : List CallEffect) : List Candidate :=
  candidatesTo r (effects.dropWhile (· ≠ .opened r n))

@[simp] theorem eventsFrom_append (r : String) (n : Nat) (xs ys : List PeerSignal) :
    eventsFrom r n (xs ++ ys) = eventsFrom r n xs ++ eventsFrom r n ys := by
  simp [eventsFrom]

@[simp] theorem candidatesTo_append (r : String) (xs ys : List CallEffect) :
    candidatesTo r (xs ++ ys) = candidatesTo r xs ++ candidatesTo r ys := List.filterMap_append

theorem eventsFrom_cons (r : String) (n : Nat) (x : PeerSignal) (xs : List PeerSignal) :
    eventsFrom r n (x :: xs) =
      (if x.remote = r ∧ x.serial = n then [x.event] else []) ++ eventsFrom r n xs := by
  by_cases h : x.remote = r ∧ x.serial = n <;> simp [eventsFrom, h]

/-- What one connection reports at a time is heard of that connection and of no other. -/
theorem eventsFrom_tagged (r r' : String) (n n' : Nat) (events : List PeerEvent) :
    eventsFrom r n (events.map fun e => ⟨r', n', e⟩) =
      if r' = r ∧ n' = n then events else [] := by
  by_cases h : r' = r ∧ n' = n <;> simp [eventsFrom, List.filter_map, Function.comp_def, h]

theorem eventsFrom_eq_nil {r : String} {n : Nat} {signals : List PeerSignal}
    (h : ∀ x ∈ signals, x.remote = r → x.serial ≠ n) : eventsFrom r n signals = [] := by
  have hnone : (signals.filter fun x => x.remote = r ∧ x.serial = n) = [] := by
    rw [List.filter_eq_nil_iff]
    intro x hx
    simpa using h x hx
  rw [eventsFrom, hnone]
  rfl

theorem candidatesTo_eq_nil {r : String} {effects : List CallEffect}
    (h : ∀ e, .send (.signal e) ∈ effects → e.target = some r → e.ice = none) :
    candidatesTo r effects = [] := by
  rw [candidatesTo, List.filterMap_eq_nil_iff]
  intro x hx
  split
  · rename_i e
    split
    · exact h e hx ‹_›
    · rfl
  · rfl

section

variable (r : String) (cs : List Candidate)

theorem candidatesTo_sendCandidate : candidatesTo r (cs.map (sendCandidate r)) = cs := by
  simp [candidatesTo, sendCandidate, Envelope.ofCandidate, List.filterMap_map, Function.comp_def]

theorem candidatesTo_sendCandidate_of_ne {r' : String} (h : r' ≠ r) :
    candidatesTo r' (cs.map (sendCandidate r)) = [] := by
  refine candidatesTo_eq_nil fun e he htarget => ?_
  obtain ⟨x, -, hx⟩ := List.mem_map.mp he
  cases hx
  exact absurd (Option.some.inj htarget).symm h

theorem reports_sendCandidate : Agent.reports (cs.map (sendCandidate r)) = [] := by
  simp [Agent.reports, sendCandidate]

theorem opened_not_mem_sendCandidate (r' : String) (n : Nat) :
    .opened r' n ∉ cs.map (sendCandidate r) := by
  simp [sendCandidate]

end

theorem sentSince_append_of_not_mem {r : String} {n : Nat} {xs : List CallEffect}
    (h : .opened r n ∉ xs) (ys : List CallEffect) :
    sentSince r n (xs ++ ys) = sentSince r n ys := by
  rw [sentSince, List.dropWhile_append_of_pos, sentSince]
  intro x hx
  have hne : x ≠ .opened r n := fun heq => h (heq ▸ hx)
  simpa using hne

theorem sentSince_cons (r : String) (n : Nat) (xs : List CallEffect) :
    sentSince r n (.opened r n :: xs) = candidatesTo r xs := by
  rw [sentSince, List.dropWhile_cons_of_neg (by simp)]
  rfl

theorem sentSince_append_of_mem {r : String} {n : Nat} {xs : List CallEffect}
    (h : .opened r n ∈ xs) (ys : List CallEffect) :
    sentSince r n (xs ++ ys) = sentSince r n xs ++ candidatesTo r ys := by
  obtain ⟨before, after, rfl, hnot⟩ := List.eq_append_cons_of_mem h
  rw [List.append_assoc, List.cons_append, sentSince_append_of_not_mem hnot, sentSince_cons,
    sentSince_append_of_not_mem hnot, sentSince_cons, candidatesTo_append]

/-- An effect that neither sends a candidate nor has to do with a connection. -/
def Idle : CallEffect → Prop
  | .send (.signal e) => e.ice = none
  | .report _ | .opened _ _ => False
  | _ => True

section

variable {effects : List CallEffect} (h : ∀ e ∈ effects, Idle e)

include h

theorem candidatesTo_of_idle (r : String) : candidatesTo r effects = [] :=
  candidatesTo_eq_nil fun _ he _ => h _ he

theorem reports_of_idle : Agent.reports effects = [] := by
  rw [Agent.reports, List.filterMap_eq_nil_iff]
  intro x hx
  have hidle := h x hx
  cases x with
  | report _ => exact hidle.elim
  | _ => rfl

theorem not_opened_of_idle (r : String) (n : Nat) : .opened r n ∉ effects := fun hmem => h _ hmem

end

/-! ## All links of a call -/

variable {κ : Type}

/-- A link to a participant that stands, or that a call can make. -/
inductive Origin (s : Setting κ) (r : String) (c : Call κ) : Link κ → Prop where
  | stands {l : Link κ} (h : c.links.find? r = some l) : Origin s r c l
  | made {n : Nat} {p : κ} (h : c.links.find? r = none) (hp : s.connect r = some p)
      (hn : c.serial < n) : Origin s r c { remote := r, serial := n, peer := p }

variable [Connection κ]

/-- What a step does to the links, if it removes none. `blocks` are the candidates that are
withdrawn on the link to each participant. -/
structure Keeps (s : Setting κ) (c : Call κ) (t : Step κ)
    (blocks : String → List (List Candidate)) : Prop where
  proper : t.1.Proper
  grows : c.serial ≤ t.1.serial
  past : ∀ x ∈ Agent.reports t.2, x.serial ≤ t.1.serial
  opens : ∀ r n, .opened r n ∈ t.2 → n ≤ t.1.serial
  /-- Where no link stands after the step, none stood before, and nothing happened. -/
  absent : ∀ r, t.1.links.find? r = none → c.links.find? r = none ∧ candidatesTo r t.2 = [] ∧
    blocks r = [] ∧ ∀ n, eventsFrom r n (Agent.reports t.2) = []
  /-- Where a link stands after the step, it stood before or it was made. -/
  carries : ∀ r k, t.1.links.find? r = some k → ∃ l, Origin s r c l ∧
    l.Carries k (eventsFrom r l.serial (Agent.reports t.2)) (candidatesTo r t.2) (blocks r)
  /-- Nothing is sent on a link before it is opened. -/
  marks : ∀ r k, c.links.find? r = none → t.1.links.find? r = some k →
    .opened r k.serial ∈ t.2 ∧ sentSince r k.serial t.2 = candidatesTo r t.2

/-- Nothing is withdrawn. -/
abbrev noBlocks : String → List (List Candidate) := fun _ => []

namespace Keeps

variable {s : Setting κ} {c : Call κ} {t : Step κ} {blocks blocks' : String → List (List Candidate)}

theorem congr (h : Keeps s c t blocks) (heq : ∀ r, blocks' r = blocks r) : Keeps s c t blocks' := by
  rwa [funext heq]

/-- A link that stands after a step, or that can be made then, was there before or can be made. -/
theorem of_origin (h : Keeps s c t blocks) {r : String} {k : Link κ} (hk : Origin s r t.1 k) :
    ∃ l, Origin s r c l ∧ l.Carries k (eventsFrom r l.serial (Agent.reports t.2))
      (candidatesTo r t.2) (blocks r) := by
  cases hk with
  | stands hk => exact h.carries r k hk
  | made hnone hp hn =>
      obtain ⟨hbefore, hsent, hblocks, hevents⟩ := h.absent r hnone
      refine ⟨_, .made hbefore hp (Nat.lt_of_le_of_lt h.grows hn), ?_⟩
      rw [hevents, hsent, hblocks]
      exact .refl _

theorem andThen {f : Call κ → Step κ} (h : Keeps s c t blocks)
    (hf : Keeps s t.1 (f t.1) blocks') :
    Keeps s c (t.andThen f) fun r => blocks r ++ blocks' r where
  proper := hf.proper
  grows := Nat.le_trans h.grows hf.grows
  past x hx := by
    rw [Step.andThen_effects, Agent.reports_append] at hx
    rcases List.mem_append.mp hx with hx | hx
    · exact Nat.le_trans (h.past x hx) hf.grows
    · exact hf.past x hx
  opens r n hn := by
    rcases List.mem_append.mp hn with hn | hn
    · exact Nat.le_trans (h.opens r n hn) hf.grows
    · exact hf.opens r n hn
  absent r hr := by
    obtain ⟨hmid, hsent', hblocks', hevents'⟩ := hf.absent r hr
    obtain ⟨hbefore, hsent, hblocks, hevents⟩ := h.absent r hmid
    refine ⟨hbefore, ?_, ?_, fun n => ?_⟩
    · rw [Step.andThen_effects, candidatesTo_append, hsent, hsent']
      rfl
    · rw [hblocks, hblocks']
      rfl
    · rw [Step.andThen_effects, Agent.reports_append, eventsFrom_append, hevents, hevents']
      rfl
  carries r m hm := by
    obtain ⟨k, hk, hcarries'⟩ := hf.carries r m hm
    obtain ⟨l, hl, hcarries⟩ := h.of_origin hk
    refine ⟨l, hl, ?_⟩
    rw [Step.andThen_effects, Agent.reports_append, candidatesTo_append, eventsFrom_append,
      ← hcarries.serial]
    have hall := hcarries.trans hcarries'
    rwa [← hcarries.serial] at hall
  marks r m hnone hm := by
    rw [Step.andThen_effects]
    obtain ⟨k, hk, hcarries'⟩ := hf.carries r m hm
    -- The mark is in the part that made the link, and the other part has no mark with this number.
    cases hmid : t.1.links.find? r with
    | none =>
        obtain ⟨-, hsent, -, -⟩ := h.absent r hmid
        obtain ⟨hopened, hsince⟩ := hf.marks r m hmid hm
        have hnot : .opened r m.serial ∉ t.2 := by
          intro hmem
          have hle := h.opens r _ hmem
          cases hk with
          | stands hk => rw [hmid] at hk; cases hk
          | made _ _ hn =>
              have hserial := hcarries'.serial
              dsimp only at hserial
              omega
        refine ⟨List.mem_append_right _ hopened, ?_⟩
        rw [sentSince_append_of_not_mem hnot, hsince, candidatesTo_append, hsent]
        rfl
    | some l =>
        obtain ⟨hopened, hsince⟩ := h.marks r l hnone hmid
        have hserial : m.serial = l.serial := by
          cases hk with
          | stands hk =>
              rw [hmid, Option.some.injEq] at hk
              rw [hk, hcarries'.serial]
          | made hk _ _ => rw [hmid] at hk; cases hk
        rw [hserial]
        refine ⟨List.mem_append_left _ hopened, ?_⟩
        rw [sentSince_append_of_mem hopened, hsince, candidatesTo_append]

theorem quiet_andThen {f : Call κ → Step κ} (h : Keeps s c t noBlocks)
    (hf : Keeps s t.1 (f t.1) blocks) : Keeps s c (t.andThen f) blocks :=
  (h.andThen hf).congr fun _ => (List.nil_append _).symm

theorem andThen_quiet {f : Call κ → Step κ} (h : Keeps s c t blocks)
    (hf : Keeps s t.1 (f t.1) noBlocks) : Keeps s c (t.andThen f) blocks :=
  (h.andThen hf).congr fun _ => (List.append_nil _).symm

/-- A step that leaves all links alone. -/
theorem idle {c' : Call κ} {effects : List CallEffect} (hc : c.Proper) (hlinks : c'.links = c.links)
    (hretired : c'.retired = c.retired) (hserial : c.serial ≤ c'.serial)
    (h : ∀ e ∈ effects, Idle e) : Keeps s c (c', effects) noBlocks where
  proper := hc.congr hlinks hretired hserial
  grows := hserial
  past x hx := by
    rw [reports_of_idle h] at hx
    cases hx
  opens r n hn := absurd hn (not_opened_of_idle h r n)
  absent r hr := by
    refine ⟨hlinks ▸ hr, candidatesTo_of_idle h r, rfl, fun n => ?_⟩
    rw [reports_of_idle h]
    rfl
  carries r k hk := by
    refine ⟨k, .stands (hlinks ▸ hk), ?_⟩
    rw [reports_of_idle h, candidatesTo_of_idle h]
    exact .refl k
  marks r k hnone hk := by
    rw [hlinks, hnone] at hk
    cases hk

theorem nothing (hc : c.Proper) : Keeps s c (c, []) noBlocks :=
  .idle hc rfl rfl (Nat.le_refl _) (List.forall_mem_nil _)

/-! ## What a call does to its links -/

/-- Another state of a link takes its place. -/
theorem put {r : String} {l k : Link κ} {effects : List CallEffect} {events : List PeerEvent}
    {sent : List Candidate} {withdrawn : List (List Candidate)} (hc : c.Proper)
    (hl : c.links.find? r = some l) (hk : l.Carries k events sent withdrawn)
    (hreports : Agent.reports effects = events.map fun e => ⟨r, l.serial, e⟩)
    (hsent : candidatesTo r effects = sent)
    (helsewhere : ∀ r', r' ≠ r → candidatesTo r' effects = [])
    (hopened : ∀ r n, .opened r n ∉ effects) :
    Keeps s c (c.put r k, effects) fun r' => if r' = r then withdrawn else [] := by
  have hquiet : ∀ r', r' ≠ r → ∀ n, eventsFrom r' n (Agent.reports effects) = [] := by
    intro r' hr n
    refine eventsFrom_eq_nil fun x hx hremote => ?_
    rw [hreports] at hx
    obtain ⟨e, -, rfl⟩ := List.mem_map.mp hx
    exact absurd hremote.symm hr
  refine ⟨hc.put hl hk.remote hk.serial hk.live, Nat.le_refl _, ?_, fun r n hn => absurd hn (hopened r n), ?_, ?_, ?_⟩
  · intro x hx
    rw [hreports] at hx
    obtain ⟨e, -, rfl⟩ := List.mem_map.mp hx
    exact hc.numbered r l hl
  · intro r' hr'
    have hne : r' ≠ r := by
      rintro rfl
      rw [find?_put_self] at hr'
      cases hr'
    rw [find?_put_of_ne hne] at hr'
    exact ⟨hr', helsewhere r' hne, if_neg hne, hquiet r' hne⟩
  · intro r' k' hk'
    by_cases hr : r' = r
    · subst hr
      rw [find?_put_self, Option.some.injEq] at hk'
      subst hk'
      have hevents : eventsFrom r' l.serial (Agent.reports effects) = events := by
        rw [hreports, eventsFrom_tagged, if_pos ⟨rfl, rfl⟩]
      refine ⟨l, .stands hl, ?_⟩
      rw [hevents, hsent, if_pos rfl]
      exact hk
    · rw [find?_put_of_ne hr] at hk'
      refine ⟨k', .stands hk', ?_⟩
      rw [hquiet r' hr, helsewhere r' hr, if_neg hr]
      exact .refl k'
  · intro r' k' hnone hk'
    have hne : r' ≠ r := by
      rintro rfl
      rw [hl] at hnone
      cases hnone
    rw [find?_put_of_ne hne, hnone] at hk'
    cases hk'

/-- A link takes its place, changed in a way that nobody hears of. -/
theorem putIdle {r : String} {l k : Link κ} {effects : List CallEffect} (hc : c.Proper)
    (hl : c.links.find? r = some l) (hk : l.Carries k [] [] []) (h : ∀ e ∈ effects, Idle e) :
    Keeps s c (c.put r k, effects) noBlocks :=
  (put hc hl hk (reports_of_idle h) (candidatesTo_of_idle h r) (fun r' _ => candidatesTo_of_idle h r')
    (not_opened_of_idle h)).congr fun _ => (ite_self _).symm

theorem putReported {r : String} {l k : Link κ} {α : Type} {o : Reply κ α}
    {withdrawn : List (List Candidate)} (hc : c.Proper) (hl : c.links.find? r = some l)
    (hk : l.Carries k [] [] withdrawn) (ho : Connection.Course k.peer o.after o.events) :
    Keeps s c (c.putReported r k o) fun r' => if r' = r then withdrawn else [] := by
  have hcarries : l.Carries { k with peer := o.after } o.events [] withdrawn := by
    have hall := hk.trans (.operate ho)
    rwa [List.nil_append, List.append_nil, List.append_nil] at hall
  have htag : ∀ e, k.tag e = ⟨r, l.serial, e⟩ := by
    intro e
    rw [Link.tag, hk.remote, hk.serial, hc.remote r l hl]
  refine put hc hl hcarries ?_ ?_ (fun r' _ => ?_) fun r' n => ?_
  · rw [Agent.reports, List.filterMap_map, ← List.filterMap_eq_map, ← funext htag]
    rfl
  · exact candidatesTo_eq_nil fun e he => by simp at he
  · exact candidatesTo_eq_nil fun e he => by simp at he
  · simp

theorem putReported_quiet {r : String} {l k : Link κ} {α : Type} {o : Reply κ α} (hc : c.Proper)
    (hl : c.links.find? r = some l) (hk : l.Carries k [] [] [])
    (ho : Connection.Course k.peer o.after o.events) : Keeps s c (c.putReported r k o) noBlocks :=
  (putReported hc hl hk ho).congr fun _ => (ite_self _).symm

/-- What a link lets out is sent. -/
theorem putFlushed {r : String} {l : Link κ} (hc : c.Proper) (hl : c.links.find? r = some l) :
    Keeps s c (c.putReady r l.flush) noBlocks := by
  have hput : Keeps s c (c.putReady r l.flush) fun r' => if r' = r then [] else [] :=
    put hc hl (.flush l) (reports_sendCandidate r _) (candidatesTo_sendCandidate r _)
      (fun _ => candidatesTo_sendCandidate_of_ne r _) (opened_not_mem_sendCandidate r _)
  exact hput.congr fun _ => (ite_self _).symm

/-- A new link gets the next number. -/
theorem make {r : String} {p : κ} {k : Link κ} (hc : c.Proper) (hl : c.links.find? r = none)
    (hp : s.connect r = some p)
    (hk : Link.Carries { remote := r, serial := c.serial + 1, peer := p } k [] [] []) :
    Keeps s c ({ c with serial := c.serial + 1, links := c.links.insert r k },
      [.opened r (c.serial + 1)]) noBlocks := by
  have hserial : k.serial = c.serial + 1 := hk.serial
  have hfind : ∀ {r' : String} {k' : Link κ}, (c.links.insert r k).find? r' = some k' →
      (r' = r ∧ k' = k) ∨ (r' ≠ r ∧ c.links.find? r' = some k') := by
    intro r' k' hk'
    rw [Table.find?_insert] at hk'
    split at hk'
    · exact .inl ⟨‹_›, (Option.some.inj hk').symm⟩
    · exact .inr ⟨‹_›, hk'⟩
  refine ⟨hc.make hk.remote hserial (hk.live nofun), Nat.le_succ _, nofun, ?_, ?_, ?_, ?_⟩
  · intro r' n hn
    rw [List.mem_singleton, CallEffect.opened.injEq] at hn
    exact Nat.le_of_eq hn.2
  · intro r' hr'
    rw [Table.find?_insert] at hr'
    split at hr'
    · cases hr'
    · exact ⟨hr', rfl, rfl, fun _ => rfl⟩
  · intro r' k' hk'
    rcases hfind hk' with ⟨rfl, rfl⟩ | ⟨-, hold⟩
    · exact ⟨_, .made hl hp (Nat.lt_succ_self _), hk⟩
    · exact ⟨k', .stands hold, .refl k'⟩
  · intro r' k' hnone hk'
    rcases hfind hk' with ⟨rfl, rfl⟩ | ⟨-, hold⟩
    · rw [hserial, sentSince_cons]
      exact ⟨List.mem_singleton_self _, rfl⟩
    · rw [hnone] at hold
      cases hold

/-- All links change in a way that nobody hears of. -/
theorem map {f : Link κ → Link κ} {c' : Call κ} {effects : List CallEffect} (hc : c.Proper)
    (hf : ∀ l : Link κ, l.Carries (f l) [] [] []) (hlinks : c'.links = c.links.map fun _ l => f l)
    (hretired : c'.retired = c.retired) (hserial : c'.serial = c.serial)
    (h : ∀ e ∈ effects, Idle e) : Keeps s c (c', effects) noBlocks := by
  have hfind : ∀ {r : String} {k : Link κ}, c'.links.find? r = some k →
      ∃ l, c.links.find? r = some l ∧ f l = k := by
    intro r k hk
    rw [hlinks, Table.find?_map] at hk
    exact Option.map_eq_some_iff.mp hk
  have hreports := reports_of_idle h
  have hproper : c'.Proper := by
    refine hc.map hlinks (fun l => ⟨(hf l).remote, (hf l).serial, (hf l).live⟩) (fun k hk => ?_)
      hserial
    exact ⟨k, hretired ▸ hk, rfl, rfl⟩
  refine ⟨hproper, Nat.le_of_eq hserial.symm, ?_, ?_, ?_, ?_, ?_⟩
  · intro x hx
    rw [hreports] at hx
    cases hx
  · exact fun r n hn => absurd hn (not_opened_of_idle h r n)
  · intro r hr
    rw [hlinks, Table.find?_map, Option.map_eq_none_iff] at hr
    refine ⟨hr, candidatesTo_of_idle h r, rfl, fun n => ?_⟩
    rw [hreports]
    rfl
  · intro r k hk
    obtain ⟨l, hl, rfl⟩ := hfind hk
    refine ⟨l, .stands hl, ?_⟩
    rw [hreports, candidatesTo_of_idle h]
    exact hf l
  · intro r k hnone hk
    obtain ⟨l, hl, -⟩ := hfind hk
    rw [hnone] at hl
    cases hl

end Keeps

end Call

end Parley
