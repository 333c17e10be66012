import Parley.Proofs.Router.Handles
import Parley.Router.Forum

/-!
# Deliveries to listeners that act

Whatever the plans of the listeners are, a delivery that returns has called the listeners that its
topic had when it began, and the router afterwards is the one before with the acts of the listeners
done to it, in the order in which they did them. Both are read off the log that calls and acts leave
behind. The level of a call tells in which of the nested deliveries it was made: those at work
within a call are deeper.

A delivery that does not return has come to stand still at an act of a listener. That takes a
listener that keeps a handle and is released while no delivery holds it (`Forum.Jammed`); where no
listener keeps a handle, every delivery returns.
-/

namespace Parley

variable {α : Type u}

namespace Happening

def act? : Happening α → Option (Exchange.Act α)
  | .acted a => some a
  | _ => none

def callAt? (level : Nat) : Happening α → Option ((Nat × α) × Message)
  | .called k l m => if k = level then some (l, m) else none
  | _ => none

/-- Not a call of this level, nor the end of one, nor of one further out. -/
def Within (level : Nat) : Happening α → Prop
  | .called k _ _ | .ended k _ => level < k
  | .acted _ | .kept _ _ | .crowded => True

theorem Within.acted (level : Nat) (a : Exchange.Act α) : (Happening.acted a).Within level := trivial

theorem Within.mono {level level' : Nat} (h : level ≤ level') {x : Happening α}
    (hx : x.Within level') : x.Within level := by
  cases x with
  | called k l m => exact Nat.lt_of_le_of_lt h hx
  | ended k o => exact Nat.lt_of_le_of_lt h hx
  | acted | kept | crowded => trivial

theorem Within.callAt?_eq {level : Nat} {x : Happening α} (hx : x.Within level) :
    x.callAt? level = none := by
  cases x with
  | called k l m => exact if_neg (Nat.ne_of_gt hx)
  | ended | acted | kept | crowded => rfl

theorem filterMap_callAt?_within {level : Nat} {xs : List (Happening α)}
    (h : ∀ x ∈ xs, x.Within level) : xs.filterMap (·.callAt? level) = [] :=
  List.filterMap_eq_nil_iff.mpr fun x hx => (h x hx).callAt?_eq

end Happening

/-- What a delivery leaves in the log: its listeners are called one after the other, and each call
has ended before the next one. If it comes to stand still, then in a call that does not end. -/
inductive Delivery (level : Nat) (m : Message) :
    Bool → List (Nat × α) → List (Happening α) → List Outcome → Prop where
  | nil : Delivery level m false [] [] []
  | stuck (l : Nat × α) (ls : List (Nat × α)) {within : List (Happening α)}
      (hwithin : ∀ x ∈ within, x.Within level) :
      Delivery level m true (l :: ls) (.called level l m :: within) []
  | cons (l : Nat × α) (o : Outcome) {stuck : Bool} {ls : List (Nat × α)}
      {within rest : List (Happening α)} {outcomes : List Outcome}
      (hwithin : ∀ x ∈ within, x.Within level)
      (hrest : Delivery level m stuck ls rest outcomes) :
      Delivery level m stuck (l :: ls) (.called level l m :: (within ++ .ended level o :: rest))
        (o :: outcomes)

namespace Delivery

variable {level : Nat} {m : Message} {stuck : Bool} {ls : List (Nat × α)}
  {new : List (Happening α)} {outcomes : List Outcome}

/-- Every listener is called once, in order, and no one else is; all of them, unless the delivery
comes to stand still. -/
theorem calls (h : Delivery level m stuck ls new outcomes) :
    new.filterMap (·.callAt? level) =
      (ls.take (outcomes.length + if stuck then 1 else 0)).map (·, m) := by
  have hfirst (l : Nat × α) : (Happening.called level l m).callAt? level = some (l, m) := if_pos rfl
  induction h with
  | nil => rfl
  | stuck l ls hwithin =>
      rw [List.filterMap_cons_some (hfirst l), Happening.filterMap_callAt?_within hwithin]
      rfl
  | @cons l o _ _ _ _ _ hwithin _ ih =>
      rw [List.filterMap_cons_some (hfirst l), List.filterMap_append,
        Happening.filterMap_callAt?_within hwithin, List.filterMap_cons_none rfl, ih,
        List.length_cons, Nat.add_right_comm, List.take_succ_cons]
      rfl

theorem length_outcomes (h : Delivery level m false ls new outcomes) :
    outcomes.length = ls.length := by
  generalize hstuck : false = stuck at h
  induction h with
  | nil => rfl
  | stuck => cases hstuck
  | cons _ _ _ _ ih => exact congrArg (· + 1) (ih hstuck)

theorem within (h : Delivery (level + 1) m stuck ls new outcomes) : ∀ x ∈ new, x.Within level := by
  have hinner {xs : List (Happening α)} (hxs : ∀ x ∈ xs, x.Within (level + 1)) :
      ∀ x ∈ xs, x.Within level := fun x hx => (hxs x hx).mono (Nat.le_succ level)
  induction h with
  | nil => exact List.forall_mem_nil _
  | stuck l ls hwithin =>
      exact List.forall_mem_cons.mpr ⟨Nat.lt_succ_self level, hinner hwithin⟩
  | cons l o hwithin _ ih =>
      refine List.forall_mem_cons.mpr ⟨Nat.lt_succ_self level, fun x hx => ?_⟩
      rcases List.mem_append.mp hx with hx | hx
      · exact hinner hwithin x hx
      · rcases List.mem_cons.mp hx with rfl | hx
        · exact Nat.lt_succ_self level
        · exact ih x hx

end Delivery

namespace Forum

/-! ## What has happened -/

/-- A listener that no delivery holds keeps a handle that has not released its listener. -/
def Jammed (f : Forum α) : Prop :=
  ∃ id n, (id, n) ∈ f.kept ∧ f.exchange.isActive n = true ∧ id ∉ f.held

/-- What has happened between one forum and another. -/
structure Course (f : Forum α) (new : List (Happening α)) (g : Forum α) : Prop where
  log : g.log = f.log ++ new
  exchange : g.exchange = (f.exchange.run (new.filterMap Happening.act?)).2
  kept : f.kept = [] → (∀ id n, .kept id n ∉ new) → g.kept = []
  jammed : g.stuck = true → g.Jammed

namespace Course

variable {f g h : Forum α} {new more : List (Happening α)}

theorem refl (hf : f.stuck = false) : Course f [] f where
  log := (List.append_nil _).symm
  exchange := rfl
  kept hkept _ := hkept
  jammed hstuck := by
    rw [hf] at hstuck
    cases hstuck

theorem trans (hfg : Course f new g) (hgh : Course g more h) : Course f (new ++ more) h where
  log := by rw [hgh.log, hfg.log, List.append_assoc]
  exchange := by rw [hgh.exchange, hfg.exchange, List.filterMap_append, Exchange.run_append]
  kept hkept hnone := hgh.kept
    (hfg.kept hkept fun id n hmem => hnone id n (List.mem_append_left _ hmem))
    fun id n hmem => hnone id n (List.mem_append_right _ hmem)
  jammed := hgh.jammed

/-- It does not matter whom deliveries hold at first. -/
theorem of_held {held : List Nat} (hfg : Course { f with held } new g) : Course f new g :=
  ⟨hfg.log, hfg.exchange, hfg.kept, hfg.jammed⟩

theorem log_prefix (hfg : Course f new g) : f.log <+: g.log := ⟨new, hfg.log.symm⟩

end Course

variable {f : Forum α}

theorem course_note (hf : f.stuck = false) (x : Happening α) (hx : x.act? = none) :
    Course f [x] (f.note x) where
  log := rfl
  exchange := by
    rw [List.filterMap_cons_none hx]
    rfl
  kept hkept _ := hkept
  jammed hstuck := by
    rw [note, hf] at hstuck
    cases hstuck

/-- An act is done, and if all stands still afterwards, a listener that it took away is the reason.
-/
theorem course_act (hf : f.stuck = false) (a : Exchange.Act α) :
    Course f [.acted a] (f.act a).2 ∧ (f.act a).2.held = f.held := by
  have hgoes (h : Forum α) (hlog : h.log = f.log ++ [.acted a])
      (hexchange : h.exchange = (f.exchange.act a).2) (hkept : h.kept = f.kept)
      (hjammed : h.stuck = true → h.Jammed) : Course f [.acted a] h :=
    ⟨hlog, hexchange, fun hnone _ => hkept.trans hnone, hjammed⟩
  have hgoing : f.stuck = true → False := by simp [hf]
  unfold act
  dsimp only
  split
  · exact ⟨hgoes _ rfl rfl rfl (hgoing · |>.elim), rfl⟩
  · rename_i id _
    split
    · rename_i hends
      simp only [Bool.and_eq_true, Bool.not_eq_true', List.contains_eq_mem, decide_eq_false_iff_not,
        isLoaded, List.any_eq_true, keeps, List.mem_filterMap] at hends
      obtain ⟨hheld, n, ⟨⟨id', n'⟩, hmem, hkeeper⟩, hactive⟩ := hends
      obtain ⟨rfl, rfl⟩ : id' = id ∧ n' = n := by simpa using hkeeper
      exact ⟨hgoes _ rfl rfl rfl fun _ => ⟨id', n', hmem, hactive, hheld⟩, rfl⟩
    · exact ⟨hgoes _ rfl rfl rfl (hgoing · |>.elim), rfl⟩

theorem course_keep (hf : f.stuck = false) (id n : Nat) :
    ∃ new, (∀ level, ∀ x ∈ new, x.Within level) ∧ Course f new (f.keep id n) ∧
      (f.keep id n).held = f.held ∧ (f.keep id n).stuck = false := by
  unfold keep
  split
  · refine ⟨[.kept id n], fun level => List.forall_mem_singleton.mpr trivial, ?_, rfl, hf⟩
    refine ⟨rfl, rfl, fun _ hnone => absurd (List.mem_singleton_self _) (hnone id n), ?_⟩
    simp [hf]
  · exact ⟨[], fun _ => List.forall_mem_nil _, .refl hf, rfl, hf⟩

theorem course_dropAll (ns : List Nat) (hf : f.stuck = false) :
    ∃ new, (∀ level, ∀ x ∈ new, x.Within level) ∧ Course f new (dropAll ns f) ∧
      (dropAll ns f).held = f.held := by
  induction ns generalizing f with
  | nil => exact ⟨[], fun _ => List.forall_mem_nil _, .refl hf, rfl⟩
  | cons n rest ih =>
      obtain ⟨hact, hheld⟩ := course_act hf (.drop n)
      rw [dropAll]
      split
      · exact ⟨_, fun level => List.forall_mem_singleton.mpr (.acted ..), hact, hheld⟩
      · rename_i hgoing
        obtain ⟨new, hnew, hcourse, hheld'⟩ := ih (Bool.eq_false_iff.mpr hgoing)
        exact ⟨_, fun level => List.forall_mem_cons.mpr ⟨.acted .., hnew level⟩, hact.trans hcourse,
          hheld'.trans hheld⟩

theorem course_letGo (hf : f.stuck = false) (id : Nat) :
    ∃ new, (∀ level, ∀ x ∈ new, x.Within level) ∧ Course f new (f.letGo id) ∧
      (f.letGo id).held = f.held.erase id := by
  have hf' : ({ f with held := f.held.erase id } : Forum α).stuck = false := hf
  unfold letGo
  dsimp only
  split
  · exact ⟨[], fun _ => List.forall_mem_nil _, (Course.refl hf').of_held, rfl⟩
  · obtain ⟨new, hnew, hcourse, hheld⟩ := course_dropAll
      (Forum.keeps { f with held := f.held.erase id } id) hf'
    exact ⟨new, hnew, hcourse.of_held, hheld⟩

/-- What is left in the log when a call ends, unless it does not. -/
def ending (level : Nat) (r : Outcome × Forum α) : List (Happening α) :=
  if r.2.stuck then [] else [.ended level r.1]

theorem leave_of_stuck (hf : f.stuck = true) (level id : Nat) (o : Outcome) :
    leave level id o f = (o, f) := if_pos hf

theorem course_leave (hf : f.stuck = false) (level id : Nat) (o : Outcome) :
    ∃ new, (∀ x ∈ new, x.Within level) ∧
      Course f (new ++ ending level (leave level id o f)) (leave level id o f).2 ∧
      (leave level id o f).1 = o ∧
      ((leave level id o f).2.stuck = false → (leave level id o f).2.held = f.held.erase id) := by
  obtain ⟨new, hnew, hcourse, hheld⟩ := course_letGo hf id
  refine ⟨new, hnew level, ?_⟩
  unfold leave
  rw [if_neg (by simp [hf])]
  dsimp only
  cases hstuck : (f.letGo id).stuck with
  | true =>
      simp only [if_true, ending, hstuck, List.append_nil]
      exact ⟨hcourse, trivial, nofun⟩
  | false =>
      have hnote : ((f.letGo id).note (.ended level o)).stuck = false := hstuck
      simp only [Bool.false_eq_true, if_false, ending, hnote]
      exact ⟨hcourse.trans (course_note hstuck _ rfl), trivial, fun _ => hheld⟩

/-! ## One call -/

/-- Calls leave in the log that they began and ended, and between these nothing of their level, and
then their listener is not held any more. Where everything stands still they do nothing. -/
structure Logs (level : Nat) (call : Listening (Nat × α) (Forum α)) : Prop where
  still : ∀ l m f, f.stuck = true → (call l m f).2 = f
  course : ∀ l m f, f.stuck = false → ∃ within, (∀ x ∈ within, x.Within level) ∧
    Course f (.called level l m :: (within ++ ending level (call l m f))) (call l m f).2 ∧
    ((call l m f).2.stuck = false → (call l m f).2.held = f.held.erase l.1)

theorem callAll_cons (call : Listening (Nat × α) (Forum α)) (m : Message) (l : Nat × α)
    (rest : List (Nat × α)) (f : Forum α) :
    Router.callAll call m (l :: rest) f =
      (if (call l m f).1 = .handled then (Router.callAll call m rest (call l m f).2).1 + 1
        else (Router.callAll call m rest (call l m f).2).1,
        (Router.callAll call m rest (call l m f).2).2) := rfl

namespace Logs

variable {level : Nat} {call : Listening (Nat × α) (Forum α)} (hcall : Logs level call)

include hcall

theorem callAll_still (m : Message) (ls : List (Nat × α)) (hf : f.stuck = true) :
    (Router.callAll call m ls f).2 = f := by
  induction ls with
  | nil => rfl
  | cons l rest ih => rw [callAll_cons, hcall.still l m f hf, ih]

theorem callAll (m : Message) (ls : List (Nat × α)) {held : List Nat} (hf : f.stuck = false)
    (hheld : f.held = ls.map (·.1) ++ held) :
    let n := (Router.callAll call m ls f).1
    let g := (Router.callAll call m ls f).2
    ∃ new outcomes, Delivery level m g.stuck ls new outcomes ∧ Course f new g ∧
      (g.stuck = false → n = outcomes.count .handled ∧ g.held = held) := by
  induction ls generalizing f with
  | nil =>
      refine ⟨[], [], ?_, .refl hf, fun _ => ⟨rfl, hheld⟩⟩
      change Delivery level m f.stuck [] [] []
      rw [hf]
      exact .nil
  | cons l rest ih =>
      obtain ⟨within, hwithin, hcourse, hheld'⟩ := hcall.course l m f hf
      dsimp only
      rw [callAll_cons]
      cases hstuck : (call l m f).2.stuck with
      | true =>
          rw [hcall.callAll_still m rest hstuck]
          rw [ending, if_pos hstuck, List.append_nil] at hcourse
          refine ⟨_, [], ?_, hcourse, fun hgoing => ?_⟩
          · rw [hstuck]
            exact .stuck l rest hwithin
          · cases hstuck.symm.trans hgoing
      | false =>
          have hnext : (call l m f).2.held = rest.map (·.1) ++ held := by
            rw [hheld' hstuck, hheld, List.map_cons, List.cons_append, List.erase_cons_head]
          obtain ⟨new, outcomes, hnew, hrest, hresult⟩ := ih hstuck hnext
          rw [ending, if_neg (by simp [hstuck])] at hcourse
          refine ⟨_, _, .cons l (call l m f).1 hwithin hnew, ?_, fun hgoing => ?_⟩
          · have htrans := hcourse.trans hrest
            rwa [List.cons_append, List.append_assoc] at htrans
          · obtain ⟨hcount, hheld⟩ := hresult hgoing
            refine ⟨?_, hheld⟩
            rw [hcount, List.count_cons]
            cases (call l m f).1 <;> rfl

theorem deliverBy (m : Message) (hf : f.stuck = false) :
    let reached := f.router.entries m.topic
    let n := (Forum.deliverBy call m f).1
    let g := (Forum.deliverBy call m f).2
    ∃ new outcomes, Delivery level m g.stuck reached new outcomes ∧ Course f new g ∧
      (g.stuck = false → n = some (outcomes.count .handled) ∧ g.held = f.held) ∧
      (g.stuck = true → n = none) := by
  intro reached n g
  have hf' : ({ f with held := reached.map (·.1) ++ f.held } : Forum α).stuck = false := hf
  obtain ⟨new, outcomes, hnew, hcourse, hresult⟩ := hcall.callAll m reached hf' rfl
  refine ⟨new, outcomes, hnew, hcourse.of_held, fun hgoing => ?_, fun hstuck => if_pos hstuck⟩
  obtain ⟨hcount, hheld⟩ := hresult hgoing
  refine ⟨?_, hheld⟩
  change (if g.stuck then none else some _) = _
  rw [hgoing, hcount]
  rfl

/-- Whatever is done while a plan is followed happens further in. -/
theorem follow {outer : Nat} (hlevel : outer + 1 = level) (plan : Plan α) (hf : f.stuck = false) :
    let g := (Forum.follow call plan f).2
    ∃ within, (∀ x ∈ within, x.Within outer) ∧ Course f within g ∧
      (g.stuck = false → g.held = f.held) := by
  subst hlevel
  dsimp only
  induction plan generalizing f with
  | finish o => exact ⟨[], List.forall_mem_nil _, .refl hf, fun _ => rfl⟩
  | act a next ih =>
      obtain ⟨hact, hheld⟩ := course_act hf a
      rw [Forum.follow]
      dsimp only
      split
      · exact ⟨_, List.forall_mem_singleton.mpr (.acted ..), hact, fun _ => hheld⟩
      · rename_i hgoing
        obtain ⟨within, hwithin, hcourse, hheld'⟩ :=
          ih (f.act a).1 (f.act a).2 (Bool.eq_false_iff.mpr hgoing)
        exact ⟨_, List.forall_mem_cons.mpr ⟨.acted .., hwithin⟩, hact.trans hcourse,
          fun h => (hheld' h).trans hheld⟩
  | keep id n next ih =>
      obtain ⟨new, hnew, hkeep, hheld, hgoing⟩ := course_keep hf id n
      obtain ⟨within, hwithin, hcourse, hheld'⟩ := ih (f.keep id n) hgoing
      exact ⟨new ++ within, List.forall_mem_append.mpr ⟨hnew outer, hwithin⟩, hkeep.trans hcourse,
        fun h => (hheld' h).trans hheld⟩
  | deliver m next ih =>
      obtain ⟨new, outcomes, hnew, hcourse, hresult, hnone⟩ := hcall.deliverBy m hf
      rw [Forum.follow]
      cases hdelivered : Forum.deliverBy call m f with
      | mk n g =>
        rw [hdelivered] at hnew hcourse hresult hnone
        dsimp only at hnew hcourse hresult hnone ⊢
        cases hstuck : g.stuck with
        | true =>
            cases hnone hstuck
            exact ⟨new, hnew.within, hcourse, by simp [hstuck]⟩
        | false =>
            obtain ⟨rfl, hheld⟩ := hresult hstuck
            obtain ⟨within, hwithin, hrest, hheld'⟩ := ih _ g hstuck
            exact ⟨new ++ within, List.forall_mem_append.mpr ⟨hnew.within, hwithin⟩,
              hcourse.trans hrest, fun h => (hheld' h).trans hheld⟩

end Logs

variable (plans : Nat × α → Message → Forum α → Plan α)

/-- A call with room for it: the listener follows its plan. -/
theorem call_succ (room level : Nat) (l : Nat × α) (m : Message) (hf : f.stuck = false) :
    let begun := f.note (.called level l m)
    let followed := follow (call plans room (level + 1)) (plans l m begun) begun
    call plans (room + 1) level l m f = leave level l.1 followed.1 followed.2 := by
  rw [call, if_neg (by simp [hf])]

theorem logs_call (room level : Nat) : Logs level (call plans room level) := by
  induction room generalizing level with
  | zero =>
      refine ⟨fun l m f hf => by rw [call, if_pos hf], fun l m f hf => ?_⟩
      obtain ⟨new, hnew, hleave, -, hheld⟩ := course_leave (f :=
        (f.note (.called level l m)).note .crowded) hf level l.1 .panicked
      have hcalled := (course_note hf (.called level l m) rfl).trans
        (course_note (f := f.note (.called level l m)) hf .crowded rfl)
      rw [call, if_neg (by simp [hf])]
      exact ⟨.crowded :: new, List.forall_mem_cons.mpr ⟨trivial, hnew⟩, hcalled.trans hleave, hheld⟩
  | succ room ih =>
      refine ⟨fun l m f hf => by rw [call, if_pos hf], fun l m f hf => ?_⟩
      rw [call_succ plans room level l m hf]
      let begun := f.note (.called level l m)
      have hbegun : Course f [.called level l m] begun := course_note hf _ rfl
      have hgoing : begun.stuck = false := hf
      obtain ⟨within, hwithin, hfollow, hheld⟩ :=
        (ih (level + 1)).follow rfl (plans l m begun) hgoing
      generalize follow (call plans room (level + 1)) (plans l m begun) begun = followed at *
      cases hstuck : followed.2.stuck with
      | true =>
          rw [leave_of_stuck hstuck]
          refine ⟨within, hwithin, ?_, fun h => ?_⟩
          · rw [ending, if_pos hstuck, List.append_nil]
            exact hbegun.trans hfollow
          · cases hstuck.symm.trans h
      | false =>
          obtain ⟨new, hnew, hleave, -, hheld'⟩ := course_leave hstuck level l.1 followed.1
          refine ⟨within ++ new, List.forall_mem_append.mpr ⟨hwithin, hnew⟩, ?_, fun h => ?_⟩
          · rw [List.append_assoc]
            exact hbegun.trans (hfollow.trans hleave)
          · rw [hheld' h, hheld hstuck]
            rfl

/-! ## More room -/

/-- Two ways of calling listeners that do the same where the first one has room. -/
def Roomier (call call' : Listening (Nat × α) (Forum α)) : Prop :=
  ∀ l m f, .crowded ∉ (call l m f).2.log → call' l m f = call l m f

section

variable {level : Nat} {call call' : Listening (Nat × α) (Forum α)} (hcall : Logs level call)
  (hroom : Roomier call call')

include hcall

/-- Nothing is lost of the log. -/
theorem Logs.log_prefix_callAll (m : Message) (ls : List (Nat × α)) (f : Forum α) :
    f.log <+: (Router.callAll call m ls f).2.log := by
  induction ls generalizing f with
  | nil => exact List.prefix_rfl
  | cons l rest ih =>
      refine List.IsPrefix.trans ?_ (ih (call l m f).2)
      cases hf : f.stuck with
      | true =>
          exact ⟨[], by rw [hcall.still l m f hf, List.append_nil]⟩
      | false =>
          obtain ⟨within, -, hcourse, -⟩ := hcall.course l m f hf
          exact hcourse.log_prefix

include hroom

theorem Roomier.callAll (m : Message) (ls : List (Nat × α)) (f : Forum α)
    (h : .crowded ∉ (Router.callAll call m ls f).2.log) :
    Router.callAll call' m ls f = Router.callAll call m ls f := by
  induction ls generalizing f with
  | nil => rfl
  | cons l rest ih =>
      rw [callAll_cons] at h
      have hl : call' l m f = call l m f :=
        hroom l m f fun hmem => h ((hcall.log_prefix_callAll m rest _).subset hmem)
      rw [callAll_cons, callAll_cons, hl, ih _ h]

theorem Roomier.deliverBy (m : Message) (f : Forum α)
    (h : .crowded ∉ (Forum.deliverBy call m f).2.log) :
    Forum.deliverBy call' m f = Forum.deliverBy call m f := by
  have hcalls := hroom.callAll hcall m (f.router.entries m.topic)
    { f with held := (f.router.entries m.topic).map (·.1) ++ f.held } h
  rw [Forum.deliverBy, Forum.deliverBy]
  dsimp only
  rw [hcalls]

theorem Roomier.follow {outer : Nat} (hlevel : outer + 1 = level) (plan : Plan α)
    (hf : f.stuck = false) (h : .crowded ∉ (Forum.follow call plan f).2.log) :
    Forum.follow call' plan f = Forum.follow call plan f := by
  induction plan generalizing f with
  | finish o => rfl
  | act a next ih =>
      rw [Forum.follow] at h ⊢
      rw [Forum.follow]
      dsimp only at h ⊢
      split
      · rfl
      · rename_i hgoing
        rw [if_neg hgoing] at h
        exact ih _ _ (Bool.eq_false_iff.mpr hgoing) h
  | keep id n next ih =>
      obtain ⟨_, _, _, _, hgoing⟩ := course_keep hf id n
      exact ih (f.keep id n) hgoing h
  | deliver m next ih =>
      obtain ⟨new, outcomes, -, -, hresult, hnone⟩ := hcall.deliverBy m hf
      have hdeliver := hroom.deliverBy hcall m f
      rw [Forum.follow] at h ⊢
      rw [Forum.follow]
      cases hdelivered : Forum.deliverBy call m f with
      | mk n g =>
        rw [hdelivered] at h hresult hnone hdeliver
        dsimp only at h hresult hnone hdeliver
        cases hstuck : g.stuck with
        | true =>
            cases hnone hstuck
            rw [hdeliver h]
        | false =>
            obtain ⟨rfl, -⟩ := hresult hstuck
            obtain ⟨within, -, hcourse, -⟩ := hcall.follow hlevel (next _ g) hstuck
            rw [hdeliver fun hmem => h (hcourse.log_prefix.subset hmem)]
            exact ih _ g hstuck h

end

theorem roomier_call (room level : Nat) :
    Roomier (call plans room level) (call plans (room + 1) level) := by
  induction room generalizing level with
  | zero =>
      intro l m f h
      cases hf : f.stuck with
      | true => rw [call, call, if_pos hf, if_pos hf]
      | false =>
          obtain ⟨new, -, hleave, -, -⟩ := course_leave (f :=
            (f.note (.called level l m)).note .crowded) hf level l.1 .panicked
          rw [call, if_neg (by simp [hf])] at h
          refine absurd (hleave.log_prefix.subset ?_) h
          simp [note]
  | succ room ih =>
      intro l m f h
      cases hf : f.stuck with
      | true => rw [call, call, if_pos hf, if_pos hf]
      | false =>
          rw [call_succ plans room level l m hf] at h
          rw [call_succ plans room level l m hf, call_succ plans (room + 1) level l m hf]
          let begun := f.note (.called level l m)
          have hfollow : follow (call plans (room + 1) (level + 1)) (plans l m begun) begun =
              follow (call plans room (level + 1)) (plans l m begun) begun := by
            refine (ih (level + 1)).follow (logs_call plans room (level + 1)) rfl _ hf
              fun hmem => h ?_
            generalize follow (call plans room (level + 1)) (plans l m begun) begun = followed at *
            cases hstuck : followed.2.stuck with
            | true => rwa [leave_of_stuck hstuck]
            | false =>
                obtain ⟨new, -, hleave, -, -⟩ := course_leave hstuck level l.1 followed.1
                exact hleave.log_prefix.subset hmem
          rw [hfollow]

/-- More room changes nothing where no call lacked it. -/
theorem deliver_add (room level : Nat) (m : Message) (f : Forum α)
    (h : .crowded ∉ (f.deliver plans room level m).2.log) (more : Nat) :
    f.deliver plans (room + more) level m = f.deliver plans room level m := by
  induction more with
  | zero => rfl
  | succ more ih =>
      rw [← ih] at h
      exact ((roomier_call plans (room + more) level).deliverBy (logs_call plans (room + more) level)
        m f h).trans ih

/-! ## Deliveries -/

/-- A delivery to listeners with any plans, at any level and with any room. It calls the listeners
that its topic had when it began, each once and in the order of their subscriptions, one after the
other and whatever they did and however they ended; no other call is made for it. It comes to stand
still in one of these calls, and never returns, only if a listener keeps a handle, after a listener
has ended that no delivery held; so it returns if no listener kept a handle before and none is given
one. When it returns it has called them all, and returns how many of them handled the message. The
router and its handles are those before with all acts of the listeners done to them in turn, and so
the listeners of each topic are those on the sheet on which these acts are noted down. If no call
ever lacked room, it is the same with more room. -/
theorem deliver_reaches_all (room level : Nat) (m : Message) (f : Forum α)
    (hgoing : f.stuck = false) :
    let reached := f.router.entries m.topic
    let n := (f.deliver plans room level m).1
    let g := (f.deliver plans room level m).2
    ∃ new outcomes,
      g.log = f.log ++ new ∧
        Delivery level m g.stuck reached new outcomes ∧
        new.filterMap (·.callAt? level) =
          (reached.take (outcomes.length + if g.stuck then 1 else 0)).map (·, m) ∧
        (g.stuck = true → n = none ∧ g.Jammed) ∧
        (f.kept = [] → (∀ id handle, .kept id handle ∉ new) → g.stuck = false) ∧
        (g.stuck = false →
          new.filterMap (·.callAt? level) = reached.map (·, m) ∧
          outcomes.length = reached.length ∧
          n = some (outcomes.count .handled) ∧
          g.held = f.held ∧
          g.exchange = (f.exchange.run (new.filterMap Happening.act?)).2 ∧
          ∀ s, f.exchange.Matches s → ∀ topic, g.router.listeners topic =
            (s.run (new.filterMap Happening.act?)).2.listeners topic) ∧
        (.crowded ∉ g.log → ∀ more, f.deliver plans (room + more) level m = (n, g)) := by
  intro reached n g
  obtain ⟨new, outcomes, hnew, hcourse, hresult, hnone⟩ :=
    (logs_call plans room level).deliverBy m hgoing
  have hnew : Delivery level m g.stuck reached new outcomes := hnew
  have hcourse : Course f new g := hcourse
  refine ⟨new, outcomes, hcourse.log, hnew, hnew.calls,
    fun hstuck => ⟨hnone hstuck, hcourse.jammed hstuck⟩, fun hkept hnever => ?_, fun hreturns => ?_,
    fun hroom more => deliver_add plans room level m f hroom more⟩
  · -- Whoever keeps a handle was given it.
    rw [Bool.eq_false_iff]
    intro hstuck
    obtain ⟨id, handle, hmem, -, -⟩ := hcourse.jammed hstuck
    rw [hcourse.kept hkept hnever] at hmem
    cases hmem
  · obtain ⟨hcount, hheld⟩ := hresult hreturns
    rw [hreturns] at hnew
    have hlength := hnew.length_outcomes
    have hcalls := hnew.calls
    rw [hlength, List.take_of_length_le (Nat.le_add_right ..)] at hcalls
    refine ⟨hcalls, hlength, hcount, hheld, hcourse.exchange, fun s hs topic => ?_⟩
    rw [router, hcourse.exchange]
    exact (hs.run (new.filterMap Happening.act?)).2.listeners topic

/-- The first listener keeps a handle on another topic, takes itself and the second one away and
panics. The second one is called all the same, and with the first one its handle goes. -/
theorem deliver_reaches_all_keeping :
    let f : Forum String := { exchange := (Exchange.run {} [.subscribe "room" "ann",
      .subscribe "room" "bob", .subscribe "room" "cid"]).2 }
    let plans (l : Nat × String) (_ : Message) (_ : Forum String) : Plan String :=
      if l.2 = "ann" then
        .act (.subscribe "other" "dan") fun _ _ => .keep l.1 3 fun _ =>
          .act (.drop 0) fun _ _ => .act (.drop 1) fun _ _ => .finish .panicked
      else .finish .handled
    let m : Message := { topic := "room", event := default }
    let g := (f.deliver plans 1 0 m).2
    f.stuck = false ∧ (f.deliver plans 1 0 m).1 = some 2 ∧
      (g.log.filterMap (·.callAt? 0)).map (·.1.2) = ["ann", "bob", "cid"] ∧
      g.router.listeners "room" = ["cid"] ∧ g.router.listeners "other" = [] := by
  intro f plans m g
  have hends : (f.deliver plans 1 0 m).2.stuck = false ∧ (f.deliver plans 1 0 m).1 = some 2 ∧
      (f.router.entries m.topic).map (·.2) = ["ann", "bob", "cid"] ∧
      g.router.listeners "room" = ["cid"] ∧ g.router.listeners "other" = [] := by decide +kernel
  obtain ⟨hgoing, hcount, hreached, hroom, hother⟩ := hends
  obtain ⟨new, outcomes, hlog, -, -, -, -, hreturns, -⟩ := deliver_reaches_all plans 1 0 m f rfl
  obtain ⟨hcalls, -⟩ := hreturns hgoing
  refine ⟨rfl, hcount, ?_, hroom, hother⟩
  have hnew : g.log = new := hlog
  rw [hnew, hcalls, List.map_map]
  exact hreached

/-- The first listener keeps a handle on another topic, and the second one takes the first one away.
The third one is never called. -/
theorem delivery_stands_still :
    let f : Forum String := { exchange := (Exchange.run {} [.subscribe "room" "ann",
      .subscribe "room" "bob", .subscribe "room" "cid"]).2 }
    let plans (l : Nat × String) (_ : Message) (_ : Forum String) : Plan String :=
      if l.2 = "ann" then
        .act (.subscribe "other" "dan") fun _ _ => .keep l.1 3 fun _ => .finish .handled
      else if l.2 = "bob" then .act (.drop 0) fun _ _ => .finish .handled
      else .finish .handled
    let delivered := f.deliver plans 1 0 { topic := "room", event := default }
    f.router.listeners "room" = ["ann", "bob", "cid"] ∧ f.kept = [] ∧ delivered.1 = none ∧
      (delivered.2.log.filterMap (·.callAt? 0)).map (·.1.2) = ["ann", "bob"] := by
  decide

end Forum

end Parley
