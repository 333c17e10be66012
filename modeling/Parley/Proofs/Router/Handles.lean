import Parley.Proofs.Router.Sheet

/-!
# A router and the handles on it

In every run a router with its handles matches the sheet on which the same acts are noted down, so
everything it holds and reports can be read off the sheet. Two things keep a second release from
doing harm: a handle that has released its listener is not active any more, and the number of its
subscription is never given again. Either would do alone.
-/

namespace Parley

variable {α : Type u}

/-! ## One handle -/

namespace Handle

theorem release_handle (h : Handle) (r : Router α) :
    (h.release r).2.1 = { h with active := false } := by
  unfold release
  split
  · rfl
  · rename_i hactive
    obtain ⟨s, active⟩ := h
    obtain rfl : active = false := Bool.eq_false_iff.mpr hactive
    rfl

theorem release_of_active {h : Handle} (hactive : h.active = true) (r : Router α) :
    h.release r =
      ((r.release h.subscription).1, { h with active := false }, (r.release h.subscription).2) :=
  if_pos hactive

theorem release_of_not_active {h : Handle} (hactive : h.active = false) (r : Router α) :
    h.release r = (false, h, r) :=
  if_neg (by simp [hactive])

theorem tidy_release (h : Handle) {r : Router α} (hr : r.Tidy) : (h.release r).2.2.Tidy := by
  cases hactive : h.active with
  | false =>
      rw [release_of_not_active hactive]
      exact hr
  | true =>
      rw [release_of_active hactive]
      exact hr.release _

theorem release_next (h : Handle) (r : Router α) : (h.release r).2.2.next = r.next := by
  cases hactive : h.active with
  | false => rw [release_of_not_active hactive]
  | true =>
      rw [release_of_active hactive]
      exact Router.release_next _ _

/-- Letting go of the handle at the end of the call adds nothing to it. -/
theorem unsubscribe_eq_release (h : Handle) (r : Router α) : h.unsubscribe r = h.release r := by
  have hactive : (h.release r).2.1.active = false := by rw [release_handle]
  show ((h.release r).1, ((h.release r).2.1.release (h.release r).2.2).2) = h.release r
  rw [release_of_not_active hactive]

end Handle

namespace Exchange

theorem unsubscribe_eq_drop (x : Exchange α) (n : Nat) :
    x.act (.unsubscribe n) = x.act (.drop n) := by
  have huse : (Handle.unsubscribe : Handle → Router α → _) = Handle.release :=
    funext fun h => funext fun r => h.unsubscribe_eq_release r
  show x.through n Handle.unsubscribe = x.through n Handle.release
  rw [huse]

/-! ## The router matches the sheet -/

structure Matches (x : Exchange α) (s : Sheet α) : Prop where
  tidy : x.router.Tidy
  next : x.router.next = s.length
  count : x.handles.length = s.length
  handles : ∀ {n : Nat} {h : Handle} {row : Row α}, x.handles[n]? = some h → s[n]? = some row →
    h.subscription.topic = row.topic ∧ h.subscription.id = n ∧ h.active = row.stands
  entries : ∀ topic, x.router.entries topic = s.numbered topic 0

namespace Matches

variable {x : Exchange α} {s : Sheet α} {n : Nat} {h : Handle} {row : Row α}

theorem empty : Matches ({} : Exchange α) [] where
  tidy := .empty
  next := rfl
  count := rfl
  handles hn := nomatch hn
  entries _ := rfl

theorem listeners (hx : x.Matches s) (topic : String) :
    x.router.listeners topic = s.listeners topic := by
  rw [Router.listeners, hx.entries, Sheet.map_numbered]

theorem entries_eq_nil_iff (hx : x.Matches s) (topic : String) :
    x.router.entries topic = [] ↔ s.listeners topic = [] := by
  rw [hx.entries, ← Sheet.listeners_eq_nil_iff]

theorem exists_row (hx : x.Matches s) (hn : x.handles[n]? = some h) : ∃ row, s[n]? = some row := by
  obtain ⟨hlt, -⟩ := List.getElem?_eq_some_iff.mp hn
  exact ⟨_, List.getElem?_eq_getElem (hx.count ▸ hlt)⟩

theorem subscribe (hx : x.Matches s) (topic : String) (l : α) :
    (x.act (.subscribe topic l)).1 = (s.act (.subscribe topic l)).1 ∧
      (x.act (.subscribe topic l)).2.Matches (s.act (.subscribe topic l)).2 := by
  refine ⟨?_, hx.tidy.subscribe topic l, ?_, ?_, fun {n h row} hn hrow => ?_, fun topic' => ?_⟩
  · show some (Report.subscribed topic (x.router.entries topic).isEmpty) =
      some (Report.subscribed topic (s.listeners topic).isEmpty)
    rw [hx.entries, ← Sheet.map_numbered topic 0, List.isEmpty_map]
  · show x.router.next + 1 = (s ++ [_]).length
    rw [hx.next, List.length_append, List.length_singleton]
  · show (x.handles ++ [_]).length = (s ++ [_]).length
    rw [List.length_append, List.length_append, hx.count]
    rfl
  · change (x.handles ++ [_])[n]? = some h at hn
    change (s ++ [_])[n]? = some row at hrow
    rcases Nat.lt_trichotomy n s.length with hlt | rfl | hgt
    · rw [List.getElem?_append_left (hx.count ▸ hlt)] at hn
      rw [List.getElem?_append_left hlt] at hrow
      exact hx.handles hn hrow
    · rw [← hx.count, List.getElem?_concat_length] at hn
      rw [List.getElem?_concat_length] at hrow
      cases hn
      cases hrow
      exact ⟨rfl, hx.next, rfl⟩
    · rw [List.getElem?_eq_none (by rw [List.length_append, List.length_singleton]; omega)] at hrow
      cases hrow
  · show (x.router.subscribe topic l).2.entries topic' = (s ++ [_]).numbered topic' 0
    rw [Router.entries_subscribe, Sheet.numbered_append, hx.entries, hx.entries, hx.next]
    by_cases ht : topic' = topic
    · subst ht
      simp
    · simp [ht, Ne.symm ht]

/-- The entries after a handle has released its listener are those of the sheet with its row struck
out. -/
theorem entries_release (hx : x.Matches s) (hn : x.handles[n]? = some h) (hrow : s[n]? = some row)
    (topic : String) :
    (h.release x.router).2.2.entries topic = (s.strike n).numbered topic 0 := by
  obtain ⟨htopic, hid, hactive⟩ := hx.handles hn hrow
  cases hstands : row.stands with
  | false =>
      rw [Handle.release_of_not_active (hactive.trans hstands),
        Sheet.numbered_strike_of hrow (.inl hstands)]
      exact hx.entries topic
  | true =>
      rw [Handle.release_of_active (hactive.trans hstands), Router.entries_release, htopic, hid,
        hx.entries]
      split
      · rename_i ht
        rw [Sheet.numbered_strike, Nat.zero_add, ht]
      · rename_i ht
        exact (Sheet.numbered_strike_of hrow (.inr (Ne.symm ht))).symm

/-- A release reports the last listener exactly if there was one to release and none is left. -/
theorem last (hx : x.Matches s) (hn : x.handles[n]? = some h) (hrow : s[n]? = some row) :
    (h.release x.router).1 = (row.stands && ((s.strike n).listeners row.topic).isEmpty) := by
  obtain ⟨htopic, -, hactive⟩ := hx.handles hn hrow
  cases hstands : row.stands with
  | false => rw [Handle.release_of_not_active (hactive.trans hstands), Bool.false_and]
  | true =>
      have hafter := hx.entries_release hn hrow row.topic
      have hbefore : x.router.entries row.topic ≠ [] :=
        fun hempty => Sheet.listeners_ne_nil hrow hstands ((hx.entries_eq_nil_iff _).mp hempty)
      rw [Handle.release_of_active (hactive.trans hstands)] at hafter ⊢
      rw [Bool.true_and, Bool.eq_iff_iff, Router.release_eq_true_iff hx.tidy, htopic, hafter,
        and_iff_right hbefore, List.isEmpty_iff, Sheet.listeners_eq_nil_iff]

theorem release (hx : x.Matches s) (n : Nat) :
    (x.act (.drop n)).1 = (s.act (.drop n)).1 ∧
      (x.act (.drop n)).2.Matches (s.act (.drop n)).2 := by
  show (x.through n Handle.release).1 = (s[n]?.map _) ∧
    (x.through n Handle.release).2.Matches (s.strike n)
  unfold through
  cases hn : x.handles[n]? with
  | none =>
      have hout : s.length ≤ n := hx.count ▸ List.getElem?_eq_none_iff.mp hn
      rw [List.getElem?_eq_none hout, Sheet.strike_of_length_le hout]
      exact ⟨rfl, hx⟩
  | some h =>
      obtain ⟨row, hrow⟩ := hx.exists_row hn
      obtain ⟨htopic, hid, hactive⟩ := hx.handles hn hrow
      rw [hrow]
      refine ⟨?_, h.tidy_release hx.tidy, ?_, ?_, fun {m h' row'} hm hrow' => ?_,
        hx.entries_release hn hrow⟩
      · show some (Report.released h.subscription.topic (h.release x.router).1) =
          some (Report.released row.topic _)
        rw [htopic, hx.last hn hrow]
      · show (h.release x.router).2.2.next = (s.strike n).length
        rw [Sheet.length_strike, Handle.release_next, hx.next]
      · show (x.handles.set n _).length = (s.strike n).length
        rw [Sheet.length_strike, List.length_set, hx.count]
      · change (x.handles.set n (h.release x.router).2.1)[m]? = some h' at hm
        rw [Handle.release_handle] at hm
        by_cases hmn : n = m
        · subst hmn
          obtain ⟨hlt, -⟩ := List.getElem?_eq_some_iff.mp hn
          rw [List.getElem?_set_self hlt] at hm
          rw [Sheet.getElem?_strike_self hrow] at hrow'
          cases hm
          cases hrow'
          exact ⟨htopic, hid, rfl⟩
        · rw [List.getElem?_set_ne hmn] at hm
          rw [Sheet.getElem?_strike_of_ne hmn] at hrow'
          exact hx.handles hm hrow'

/-- Every act has the same effect on a router as on the sheet, and reports the same. -/
theorem act (hx : x.Matches s) (a : Act α) :
    (x.act a).1 = (s.act a).1 ∧ (x.act a).2.Matches (s.act a).2 := by
  cases a with
  | subscribe topic l => exact hx.subscribe topic l
  | unsubscribe n =>
      rw [unsubscribe_eq_drop]
      exact hx.release n
  | drop n => exact hx.release n

theorem run (hx : x.Matches s) (acts : List (Act α)) :
    (x.run acts).1 = (s.run acts).1 ∧ (x.run acts).2.Matches (s.run acts).2 := by
  induction acts generalizing x s with
  | nil => exact ⟨rfl, hx⟩
  | cons a rest ih =>
      obtain ⟨hreport, hstep⟩ := hx.act a
      obtain ⟨hreports, hrest⟩ := ih hstep
      refine ⟨?_, hrest⟩
      show (x.act a).1.toList ++ ((x.act a).2.run rest).1 =
        (s.act a).1.toList ++ (Sheet.run (s.act a).2 rest).1
      rw [hreport, hreports]

/-- A handle that is not active has nothing to release, and the router would not let it. -/
theorem inert (hx : x.Matches s) (hn : x.handles[n]? = some h) (hactive : h.active = false) :
    x.router.release h.subscription = (false, x.router) := by
  obtain ⟨row, hrow⟩ := hx.exists_row hn
  obtain ⟨htopic, hid, hstands⟩ := hx.handles hn hrow
  refine hx.tidy.release_of_forall_ne fun e he => ?_
  rw [htopic, hx.entries] at he
  rw [hid]
  exact Sheet.ne_of_mem_numbered hrow (.inl (hstands.symm.trans hactive)) he

end Matches

/-! ## Spent handles -/

theorem run_append (x : Exchange α) (acts acts' : List (Act α)) :
    (x.run (acts ++ acts')).2 = ((x.run acts).2.run acts').2 := by
  induction acts generalizing x with
  | nil => rfl
  | cons a rest ih => exact ih (x.act a).2

/-- The handle with this number has been used. -/
def Spent (x : Exchange α) (n : Nat) : Prop :=
  ∃ h, x.handles[n]? = some h ∧ h.active = false

namespace Spent

variable {x : Exchange α} {n : Nat} {a : Act α}

theorem drop (hn : n < x.handles.length) : (x.act (.drop n)).2.Spent n := by
  have hget : x.handles[n]? = some x.handles[n] := List.getElem?_eq_getElem hn
  show (x.through n Handle.release).2.Spent n
  rw [through, hget]
  exact ⟨_, List.getElem?_set_self hn, by rw [Handle.release_handle]⟩

theorem use (hn : n < x.handles.length) (ha : a.uses n = true) : (x.act a).2.Spent n := by
  cases a with
  | subscribe topic l => cases ha
  | unsubscribe m =>
      obtain rfl : m = n := of_decide_eq_true ha
      rw [unsubscribe_eq_drop]
      exact drop hn
  | drop m =>
      obtain rfl : m = n := of_decide_eq_true ha
      exact drop hn

/-- A spent handle is of no use any more. -/
theorem act_eq (hx : x.Spent n) (ha : a.uses n = true) :
    ∃ topic, x.act a = (some (.released topic false), x) := by
  obtain ⟨h, hn, hactive⟩ := hx
  have hdrop : x.act (.drop n) = (some (.released h.subscription.topic false), x) := by
    obtain ⟨hlt, rfl⟩ := List.getElem?_eq_some_iff.mp hn
    show x.through n Handle.release = _
    rw [through, hn]
    dsimp only
    rw [Handle.release_of_not_active hactive, List.set_getElem_self]
  refine ⟨h.subscription.topic, ?_⟩
  cases a with
  | subscribe topic l => cases ha
  | unsubscribe m =>
      obtain rfl : m = n := of_decide_eq_true ha
      rw [unsubscribe_eq_drop, hdrop]
  | drop m =>
      obtain rfl : m = n := of_decide_eq_true ha
      exact hdrop

theorem act (hx : x.Spent n) (a : Act α) : (x.act a).2.Spent n := by
  obtain ⟨h, hn, hactive⟩ := hx
  obtain ⟨hlt, -⟩ := List.getElem?_eq_some_iff.mp hn
  have hdrop : ∀ m, (x.act (.drop m)).2.Spent n := by
    intro m
    by_cases hm : m = n
    · subst hm
      exact drop hlt
    · show (x.through m Handle.release).2.Spent n
      rw [through]
      split
      · exact ⟨h, hn, hactive⟩
      · exact ⟨h, by rw [← hn]; exact List.getElem?_set_ne hm, hactive⟩
  cases a with
  | subscribe topic l =>
      refine ⟨h, ?_, hactive⟩
      show (x.handles ++ [_])[n]? = some h
      rw [List.getElem?_append_left hlt, hn]
  | unsubscribe m =>
      rw [unsubscribe_eq_drop]
      exact hdrop m
  | drop m => exact hdrop m

theorem run (hx : x.Spent n) (acts : List (Act α)) : (x.run acts).2.Spent n := by
  induction acts generalizing x with
  | nil => exact hx
  | cons a rest ih => exact ih (hx.act a)

end Spent

/-! ## The plain list -/

/-- In every run a router holds for each topic the listeners that subscribed to it and have not been
released, in that order, and it lists the topics that have any. Its reports are those of the sheet:
a subscription is the first one of its topic if there were no listeners, a release the last one if
it leaves none, so first and last ones take turns. A handle that has been used has no effect any
more, whatever has become of its topic since. -/
theorem refines_sheet (acts : List (Act α)) :
    let reports := (run ({} : Exchange α) acts).1
    let x := (run ({} : Exchange α) acts).2
    let s := (Sheet.run ([] : Sheet α) acts).2
    reports = (Sheet.run ([] : Sheet α) acts).1 ∧
      (∀ topic, x.router.listeners topic = s.listeners topic) ∧
      (x.router.topics.keys.Nodup ∧ (∀ e ∈ x.router.topics.toList, e.2 ≠ []) ∧
        ∀ topic, topic ∈ x.router.topics.keys ↔ s.listeners topic ≠ []) ∧
      (∀ topic l, (x.router.subscribe topic l).1.first = true ↔ x.router.listeners topic = []) ∧
      (∀ h ∈ x.handles, h.active = true →
        ((h.release x.router).1 = true ↔
          (h.release x.router).2.2.listeners h.subscription.topic = [])) ∧
      (∀ topic, Alternates true (reports.flatMap (Report.crossing topic))) ∧
      (∀ h ∈ x.handles, h.active = false →
        x.router.release h.subscription = (false, x.router)) ∧
      (∀ earlier a later n, acts = earlier ++ a :: later → a.uses n = true →
        n < (run ({} : Exchange α) earlier).2.handles.length → ∀ b : Act α, b.uses n = true →
          ∃ topic, x.act b = (some (.released topic false), x)) := by
  intro reports x s
  obtain ⟨hreports, hx⟩ : reports = (Sheet.run ([] : Sheet α) acts).1 ∧ x.Matches s :=
    Matches.empty.run acts
  refine ⟨hreports, hx.listeners, ⟨Table.nodup_keys _, fun e he hnil => ?_, fun topic => ?_⟩,
    fun topic l => ?_, fun h hmem hactive => ?_, fun topic => ?_, fun h hmem hactive => ?_,
    fun earlier a later n hacts ha hn b hb => ?_⟩
  · obtain ⟨topic, l⟩ := e
    obtain rfl : l = [] := hnil
    exact hx.tidy topic (Table.find?_eq_some_iff.mpr he)
  · rw [hx.tidy.mem_keys_iff, ne_eq, hx.entries_eq_nil_iff]
  · show (x.router.entries topic).isEmpty = true ↔ _
    rw [List.isEmpty_iff, hx.entries_eq_nil_iff, hx.listeners]
  · obtain ⟨n, hn⟩ := List.mem_iff_getElem?.mp hmem
    obtain ⟨row, hrow⟩ := hx.exists_row hn
    obtain ⟨htopic, -, hstands⟩ := hx.handles hn hrow
    rw [hx.last hn hrow, ← hstands, hactive, Bool.true_and, List.isEmpty_iff, Router.listeners,
      hx.entries_release hn hrow, Sheet.map_numbered, htopic]
  · rw [hreports]
    exact Sheet.alternates_run [] acts topic
  · obtain ⟨n, hn⟩ := List.mem_iff_getElem?.mp hmem
    exact hx.inert hn hactive
  · have hspent : x.Spent n := by
      show (run ({} : Exchange α) acts).2.Spent n
      rw [hacts, run_append]
      exact (Spent.use hn ha).run later
    exact hspent.act_eq hb

/-- The topic is gone and there again when the first two handles are used once more. -/
theorem refines_sheet_recreated :
    let acts : List (Act String) := [.subscribe "room" "ann", .subscribe "room" "bob",
      .unsubscribe 0, .drop 1, .subscribe "room" "cid"]
    let x := (run {} acts).2
    (run {} acts).1 = [.subscribed "room" true, .subscribed "room" false, .released "room" false,
        .released "room" true, .subscribed "room" true] ∧
      x.router.listeners "room" = ["cid"] ∧
      (∃ topic, x.act (.drop 0) = (some (.released topic false), x)) ∧
      (∃ topic, x.act (.unsubscribe 1) = (some (.released topic false), x)) := by
  intro acts x
  obtain ⟨hreports, hlisteners, -, -, -, -, -, hspent⟩ := refines_sheet acts
  refine ⟨hreports.trans (by decide), (hlisteners "room").trans (by decide), ?_, ?_⟩
  · exact hspent (acts.take 2) (.unsubscribe 0) (acts.drop 3) 0 rfl rfl (by decide) (.drop 0) rfl
  · exact hspent (acts.take 3) (.drop 1) (acts.drop 4) 1 rfl rfl (by decide) (.unsubscribe 1) rfl

end Exchange

end Parley
