import Parley.Proofs.Client.Life

/-!
# Reading a backlog

The backlog of a topic is read in pages, the latest first. A session asks for the next page whenever
it is told to, and for the first page whenever it hears a roster that was sent under the own
connection id. It does so for every such roster: for the answer to its own request, for the answer
to the request of another session on the topic, and for the one after the next socket has opened. So
a session may read its backlog anew at any time, and it asks for no page twice exactly if it never
does so after its first request (`Client.pages_distinct_iff`).
-/

namespace Parley

/-- A request for a page of a backlog. -/
structure Inquiry where
  page : UInt32
  /-- Whether a roster was the reason; else more was asked for. -/
  anew : Bool
  sent : Bool
  deriving DecidableEq, Repr

namespace Inquiry

/-- The last page that was asked for; 0 if none was. -/
def lastPage (qs : List Inquiry) : UInt32 := (qs.getLast?.map page).getD 0

/-- Pages are asked for in turn after a page, and from the first one where the backlog is read
anew. -/
inductive Numbered : UInt32 → List Inquiry → Prop
  | nil (p : UInt32) : Numbered p []
  | cons {p : UInt32} {q : Inquiry} {qs : List Inquiry} :
      q.page = (if q.anew then 1 else p + 1) → Numbered q.page qs → Numbered p (q :: qs)

namespace Numbered

variable {p : UInt32} {q : Inquiry} {qs before after : List Inquiry}

theorem page_eq (h : Numbered p (before ++ q :: after)) :
    q.page = if q.anew then 1 else ((before.getLast?.map page).getD p) + 1 := by
  induction before generalizing p with
  | nil =>
      cases h with
      | cons hq _ => exact hq
  | cons b rest ih =>
      cases h with
      | cons _ hrest =>
          rw [ih hrest, List.getLast?_cons]
          cases rest.getLast? <;> rfl

/-- Where the backlog is not read anew, the pages follow each other. -/
theorem pages_eq (h : Numbered p qs) (hnone : ∀ q ∈ qs, q.anew = false) :
    qs.map page = (List.range qs.length).map fun k => p + UInt32.ofNat (k + 1) := by
  induction h with
  | nil => rfl
  | @cons p q qs hq _ ih =>
      rw [List.forall_mem_cons] at hnone
      have hpage : q.page = p + 1 := by rw [hq, hnone.1]; rfl
      rw [List.map_cons, ih hnone.2, List.length_cons, List.range_succ_eq_map, List.map_cons,
        List.map_map, hpage]
      refine List.cons_eq_cons.mpr ⟨rfl, List.map_congr_left fun k _ => ?_⟩
      rw [Function.comp_apply, UInt32.add_assoc, UInt32.ofNat_add k.succ 1,
        UInt32.add_comm (UInt32.ofNat k.succ)]
      rfl

end Numbered

variable {q : Inquiry} {qs : List Inquiry}

/-- The first page is the first one, whether it is the next one or read anew. -/
theorem Numbered.first_page (h : Numbered 0 (q :: qs)) : q.page = 1 := by
  cases h with
  | cons hq _ =>
      rw [hq]
      split <;> rfl

/-- Requests of a session that asked for nothing before. -/
theorem Numbered.first_pages (h : Numbered 0 qs) (hnone : ∀ q ∈ qs.tail, q.anew = false) :
    qs.map page = (List.range qs.length).map fun k => UInt32.ofNat (k + 1) := by
  cases qs with
  | nil => rfl
  | cons q rest =>
      have hpage := h.first_page
      obtain _ | ⟨_, hrest⟩ := h
      rw [List.map_cons, hrest.pages_eq hnone, hpage, List.length_cons, List.range_succ_eq_map,
        List.map_cons, List.map_map]
      refine List.cons_eq_cons.mpr ⟨rfl, List.map_congr_left fun k _ => ?_⟩
      rw [Function.comp_apply, UInt32.add_comm, UInt32.ofNat_add k.succ 1]
      rfl

theorem pairwise_first_pages {n : Nat} (h : n < 4294967296) :
    ((List.range n).map fun k => UInt32.ofNat (k + 1)).Pairwise (· < ·) := by
  rw [List.pairwise_map]
  refine (List.pairwise_lt_range (n := n)).imp_of_mem fun {a b} ha hb hab => ?_
  rw [List.mem_range] at ha hb
  rw [UInt32.lt_iff_toNat_lt, UInt32.toNat_ofNat', UInt32.toNat_ofNat']
  omega

/-- No page is asked for twice exactly if the backlog is not read anew after the first request. -/
theorem Numbered.nodup_iff (h : Numbered 0 qs) (hlength : qs.length < 4294967296) :
    (qs.map page).Nodup ↔ ∀ q ∈ qs.tail, q.anew = false := by
  constructor
  · intro hnodup q hq
    cases qs with
    | nil => cases hq
    | cons first rest =>
        have hpage := h.first_page
        obtain _ | ⟨_, hrest⟩ := h
        obtain ⟨before, after, rfl⟩ := List.append_of_mem hq
        cases hanew : q.anew with
        | false => rfl
        | true =>
            have hagain : q.page = 1 := by rw [hrest.page_eq, if_pos hanew]
            rw [List.map_cons, List.nodup_cons, hpage] at hnodup
            exact absurd (List.mem_map.mpr ⟨q, hq, hagain⟩) hnodup.1
  · intro hnone
    rw [h.first_pages hnone]
    exact (pairwise_first_pages hlength).imp fun hlt => UInt32.ne_of_lt hlt

end Inquiry

/-! ## What a session asks for -/

/-- A roster that was sent under the own connection id. -/
def Message.IsOwnRoster (me : Option String) (m : Message) : Prop :=
  (∃ records, m.event = .subscribers records) ∧ me = some m.sender

namespace Session

theorem page_create (topic : String) (pageSize : UInt32) (subscription : Subscription) :
    (create topic pageSize subscription).1.page = 0 := by
  unfold create
  dsimp only
  split <;> rfl

/-- A session that hears its own roster asks for the first page; otherwise it asks for no page. -/
theorem hear_requests (me : Option String) (palette : Palette) (m : Message) (s : Session) :
    (m.IsOwnRoster me ∧ (s.hear me palette m).2.2 = [s.pageRequest 1] ∧
      (s.hear me palette m).1.page = 1) ∨
    (¬ m.IsOwnRoster me ∧ ((s.hear me palette m).2.2 = [] ∨
      (s.hear me palette m).2.2 = [rosterRequest]) ∧ (s.hear me palette m).1.page = s.page) := by
  have hother (h : ∀ records, m.event ≠ .subscribers records) : ¬ m.IsOwnRoster me :=
    fun hown => hown.1.elim h
  unfold hear
  split
  · rename_i hevent
    exact .inr ⟨hother (by simp [hevent]), .inr rfl, rfl⟩
  · rename_i records hevent
    dsimp only
    split
    · rename_i hown
      exact .inl ⟨⟨⟨records, hevent⟩, hown⟩, rfl, rfl⟩
    · rename_i hsender
      exact .inr ⟨fun hown => hsender hown.2, .inl rfl, rfl⟩
  · rename_i socketId hevent
    exact .inr ⟨hother (by simp [hevent]), .inl rfl, rfl⟩
  · rename_i hevent
    exact .inr ⟨hother (by simp [hevent]), .inl rfl, rfl⟩
  · rename_i hroster _ _
    exact .inr ⟨hother hroster, .inl rfl, rfl⟩

def Act.isHearing : Act → Bool
  | .hears .. => true
  | .asksMore | .closes => false

namespace Deed

/-- The requests for pages among those of a deed. -/
def inquiries (d : Deed) : List Inquiry :=
  d.requests.filterMap fun r =>
    match r.1 with
    | .loadMessages p => some ⟨p.page, d.act.isHearing, r.2⟩
    | _ => none

theorem anew_eq {d : Deed} {q : Inquiry} (h : q ∈ d.inquiries) : q.anew = d.act.isHearing := by
  obtain ⟨⟨e, sent⟩, -, hq⟩ := List.mem_filterMap.mp h
  cases e <;> cases hq
  rfl

/-- A deed asks for one page at most: for the first one if a roster was heard, and else for the one
after the last. -/
theorem inquiries_cases {s : Session} {d : Deed} (h : d.requests.map Prod.fst = (s.act d.act).2) :
    (d.inquiries = [] ∧ (s.act d.act).1.page = s.page) ∨
    ∃ q, d.inquiries = [q] ∧ q.page = (s.act d.act).1.page ∧
      q.page = if q.anew then 1 else s.page + 1 := by
  obtain ⟨a, requests⟩ := d
  change requests.map Prod.fst = (s.act a).2 at h
  cases a with
  | hears me palette m =>
      rcases s.hear_requests me palette m with ⟨-, hasked, hpage⟩ | ⟨-, hasked, hpage⟩
      · obtain ⟨⟨e, sent⟩, rfl, rfl⟩ := List.map_eq_singleton_iff.mp (h.trans hasked)
        exact .inr ⟨⟨1, true, sent⟩, rfl, hpage.symm, rfl⟩
      · refine .inl ⟨?_, hpage⟩
        rcases hasked with hasked | hasked
        · rw [List.map_eq_nil_iff.mp (h.trans hasked)]
          rfl
        · obtain ⟨⟨e, sent⟩, rfl, rfl⟩ := List.map_eq_singleton_iff.mp (h.trans hasked)
          rfl
  | asksMore =>
      obtain ⟨⟨e, sent⟩, rfl, rfl⟩ := List.map_eq_singleton_iff.mp h
      exact .inr ⟨⟨s.page + 1, false, sent⟩, rfl, rfl, rfl⟩
  | closes =>
      have hclose : (s.act .closes).2 = [] ∧ (s.act .closes).1.page = s.page := by
        unfold Session.act
        dsimp only
        split <;> exact ⟨rfl, rfl⟩
      rw [List.map_eq_nil_iff.mp (h.trans hclose.1)]
      exact .inl ⟨rfl, hclose.2⟩

end Deed

/-- The requests in a life are numbered from the last page that was asked for before. -/
theorem Lives.numbered {s s' : Session} {ds : List Deed} (h : Lives s ds s') :
    Inquiry.Numbered s.page (ds.flatMap Deed.inquiries) := by
  induction h with
  | rest s => exact .nil _
  | act hd _ ih =>
      rw [List.flatMap_cons]
      rcases Deed.inquiries_cases hd with ⟨hnone, hpage⟩ | ⟨q, hone, hafter, hpage⟩
      · rwa [hnone, List.nil_append, ← hpage]
      · rw [hone, List.singleton_append]
        exact .cons hpage (hafter ▸ ih)

end Session

namespace Client

variable {σ : Type}

/-- The requests of a session for pages in a turn. -/
def inquiriesIn (c : Client σ) (i : Nat) (t : Turn σ) : List Inquiry :=
  (c.deeds i t).flatMap Session.Deed.inquiries

/-- The requests of a session for pages in a run. -/
def inquiries [MarkerStore σ] (c : Client σ) (i : Nat) (ts : List (Turn σ)) : List Inquiry :=
  (c.life i ts).flatMap Session.Deed.inquiries

/-! ## Reading anew -/

section Anew

variable {c : Client σ} {i : Nat} {s : Session}

theorem anew_deed (hs : c.sessions[i]? = some s) (me : Option String) (palette : Palette)
    (m : Message) :
    (∃ q ∈ (c.deed i (.hears me palette m)).inquiries, q.anew = true) ↔ m.IsOwnRoster me := by
  have hrequests := requests_deed hs (.hears me palette m)
  rcases s.hear_requests me palette m with ⟨hown, hasked, -⟩ | ⟨hother, hasked, -⟩
  · refine iff_of_true ?_ hown
    obtain ⟨⟨e, sent⟩, hone, rfl⟩ := List.map_eq_singleton_iff.mp (hrequests.trans hasked)
    refine ⟨⟨1, true, sent⟩, ?_, rfl⟩
    rw [Session.Deed.inquiries, hone]
    exact List.mem_singleton_self _
  · refine iff_of_false ?_ hother
    rintro ⟨q, hq, -⟩
    rcases hasked with hasked | hasked
    · rw [Session.Deed.inquiries, List.map_eq_nil_iff.mp (hrequests.trans hasked)] at hq
      cases hq
    · obtain ⟨⟨e, sent⟩, hone, rfl⟩ := List.map_eq_singleton_iff.mp (hrequests.trans hasked)
      rw [Session.Deed.inquiries, hone] at hq
      cases hq

theorem anew_deedsHearing (m : Message) (ls : List Listener) (hs : c.sessions[i]? = some s) :
    (∃ q ∈ (deedsHearing i m ls c).flatMap Session.Deed.inquiries, q.anew = true) ↔
      .session i ∈ ls ∧ m.IsOwnRoster c.connectionId := by
  induction ls generalizing c s with
  | nil => simp [deedsHearing]
  | cons l rest ih =>
      have hrest := ih (sessions_hear hs l m)
      rw [(undisturbed_hear l m c).connectionId] at hrest
      rw [deedsHearing, List.flatMap_append]
      simp only [List.mem_append, or_and_right, exists_or, hrest, List.mem_cons]
      by_cases hl : l = .session i
      · rw [if_pos hl, List.flatMap_singleton, anew_deed hs]
        simp [hl]
      · rw [if_neg hl]
        simp [Ne.symm hl]

theorem not_hearing_of_none {t : Turn σ} (h : c.heard? t = none) {d : Session.Deed}
    (hd : d ∈ c.deeds i t) : d.act.isHearing = false := by
  unfold deeds at hd
  split at hd
  · rename_i m hheard
    cases h.symm.trans hheard
  · split at hd
    · rw [List.mem_singleton.mp hd]
      rfl
    · cases hd
  · split at hd
    · rw [List.mem_singleton.mp hd]
      rfl
    · cases hd
  · cases hd

/-- A session reads its backlog anew in a turn that brings its own roster to it, and in no other. -/
theorem anew_turn (hs : c.sessions[i]? = some s) (t : Turn σ) :
    (∃ q ∈ c.inquiriesIn i t, q.anew = true) ↔
      ∃ m, c.heard? t = some m ∧ .session i ∈ c.router.listeners m.topic ∧
        m.IsOwnRoster c.connectionId := by
  cases hheard : c.heard? t with
  | some m =>
      have hdeeds : c.deeds i t = deedsHearing i m (c.router.listeners m.topic) c := by
        unfold deeds
        rw [hheard]
      rw [inquiriesIn, hdeeds, anew_deedsHearing m _ hs]
      simp
  | none =>
      refine iff_of_false ?_ (by simp)
      rintro ⟨q, hq, hanew⟩
      obtain ⟨d, hd, hq⟩ := List.mem_flatMap.mp hq
      have hnot := not_hearing_of_none hheard hd
      rw [← Session.Deed.anew_eq hq, hanew] at hnot
      cases hnot

end Anew

/-- The requests of a session for pages of its backlog, from when it is opened, whatever happens to
its client. Each is for the first page if the backlog is read anew, and else for the page after the
last one. It is read anew in a turn that brings the session a roster from the own connection id. So
no page is asked for twice exactly if the backlog is not read anew after the first request; then the
pages are asked for in order from the first one, and those of the requests that are sent grow. -/
theorem pages_distinct_iff [MarkerStore σ] (c : Client σ) (topic : String) (pageSize : UInt32)
    (ts : List (Turn σ)) :
    let i := (c.openSession topic pageSize).1
    let opened := (c.openSession topic pageSize).2
    let asked := opened.inquiries i ts
    (∀ before q after, asked = before ++ q :: after →
      q.page = if q.anew then 1 else Inquiry.lastPage before + 1) ∧
    (∀ before t after, ts = before ++ t :: after →
      let d := (opened.run before).1
      ((∃ q ∈ d.inquiriesIn i t, q.anew = true) ↔
        ∃ m, d.heard? t = some m ∧ .session i ∈ d.router.listeners m.topic ∧
          m.IsOwnRoster d.connectionId)) ∧
    (asked.length < 4294967296 →
      ((asked.map (·.page)).Nodup ↔ ∀ q ∈ asked.tail, q.anew = false) ∧
      ((∀ q ∈ asked.tail, q.anew = false) →
        asked.map (·.page) = (List.range asked.length).map (fun k => UInt32.ofNat (k + 1)) ∧
        ((asked.filter (·.sent)).map (·.page)).Pairwise (· < ·))) := by
  intro i opened asked
  have hopened := c.session_opened topic pageSize
  obtain ⟨s', -, hlives⟩ := lives_run ts hopened
  have hnumbered : Inquiry.Numbered 0 asked := by
    have h := hlives.numbered
    rwa [Session.page_create] at h
  refine ⟨fun before q after hasked => ?_, fun before t after hts => ?_, fun hlength => ?_⟩
  · exact (hasked ▸ hnumbered).page_eq
  · obtain ⟨s, hs, -⟩ := lives_run before hopened
    exact anew_turn hs t
  · refine ⟨hnumbered.nodup_iff hlength, fun hnone => ?_⟩
    have hpages := hnumbered.first_pages hnone
    refine ⟨hpages, ?_⟩
    have hgrow := Inquiry.pairwise_first_pages hlength
    rw [← hpages] at hgrow
    exact hgrow.sublist (List.filter_sublist.map _)

/-- The backlog is read on twice after the first page. -/
theorem pages_distinct_iff_read_on :
    let c := ((create {} Marker.absent).run
      [.input .connect, .input (.ticket (.ok ⟨"s1", "c1"⟩)), .input .opened]).1
    let roster : Turn Marker := .input (.received
      (Text.bytes "000021000001f00001f0000000004room00002c100002\x7b\x7d"))
    let asked := (c.openSession "room" 10).2.inquiries 0
      [roster, .input (.loadMore 0), .input (.loadMore 0)]
    asked = [⟨1, true, true⟩, ⟨2, false, true⟩, ⟨3, false, true⟩] ∧
      (asked.map (·.page)).Nodup := by
  intro c roster asked
  have hasked : asked = [⟨1, true, true⟩, ⟨2, false, true⟩, ⟨3, false, true⟩] := by decide +kernel
  obtain ⟨-, -, hpages⟩ := pages_distinct_iff c "room" 10
    [roster, .input (.loadMore 0), .input (.loadMore 0)]
  obtain ⟨hdistinct, -⟩ := hpages (by decide +kernel)
  exact ⟨hasked, hdistinct.mpr (by decide +kernel)⟩

/-- The server answers the request of a second session on the topic, and the first one hears it. -/
theorem first_page_asked_twice :
    let c := ((create {} Marker.absent).run
      [.input .connect, .input (.ticket (.ok ⟨"s1", "c1"⟩)), .input .opened]).1
    let roster : Turn Marker := .input (.received
      (Text.bytes "000021000001f00001f0000000004room00002c100002\x7b\x7d"))
    let asked := (c.openSession "room" 10).2.inquiries 0
      [roster, .input (.openSession "room" 5), roster]
    asked = [⟨1, true, true⟩, ⟨1, true, true⟩] ∧
      ¬ ((asked.filter (·.sent)).map (·.page)).Nodup := by
  decide +kernel

end Client

end Parley
