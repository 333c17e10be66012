import Parley.Proofs.Alternation
import Parley.Proofs.Router.Entries
import Parley.Router.Handle

/-!
# A router as a plain list

What a router does can be told with a sheet of paper: every subscription is written on a line of its
own, and the line is struck out when its listener is released (`Sheet`). The listeners of a topic
are those on its lines that stand. A router with the handles on it always matches the sheet of the
same acts (`Exchange.Matches`): the number of a subscription is that of its line, a handle is active
as long as its line stands, and the entries of a topic are its standing lines from top to bottom.
-/

namespace Parley

variable {α : Type u}

/-! ## The sheet -/

structure Row (α : Type u) where
  topic : String
  listener : α
  /-- Whether the row has not been struck out. -/
  stands : Bool := true

/-- All subscriptions that were ever made, from the first one on. -/
abbrev Sheet (α : Type u) := List (Row α)

namespace Sheet

/-- The listeners that subscribed to a topic and have not been released, in that order. -/
def listeners (s : Sheet α) (topic : String) : List α :=
  (s.filter fun row => row.stands && row.topic == topic).map (·.listener)

def strike (s : Sheet α) (n : Nat) : Sheet α := s.modify n fun row => { row with stands := false }

/-- What an act does to the sheet and should report: a subscription is the first one of its topic if
there were no listeners, a release the last one if it leaves none. -/
def act (s : Sheet α) : Exchange.Act α → Option Report × Sheet α
  | .subscribe topic listener =>
    (some (.subscribed topic (s.listeners topic).isEmpty), s ++ [{ topic, listener }])
  | .unsubscribe n | .drop n =>
    (s[n]?.map fun row =>
      .released row.topic (row.stands && ((s.strike n).listeners row.topic).isEmpty), s.strike n)

def run (s : Sheet α) : List (Exchange.Act α) → List Report × Sheet α
  | [] => ([], s)
  | a :: rest =>
    let (report, s) := s.act a
    let (reports, s) := run s rest
    (report.toList ++ reports, s)

/-! ## Numbered rows -/

/-- The standing rows of a topic with their numbers; the first row has number `k`. -/
def numbered (topic : String) : Nat → Sheet α → List (Nat × α)
  | _, [] => []
  | k, row :: rest =>
    if row.stands && row.topic == topic then (k, row.listener) :: numbered topic (k + 1) rest
    else numbered topic (k + 1) rest

variable {topic : String} {k n : Nat} {s : Sheet α} {row : Row α}

theorem map_numbered (topic : String) (k : Nat) (s : Sheet α) :
    (numbered topic k s).map (·.2) = s.listeners topic := by
  induction s generalizing k with
  | nil => rfl
  | cons row rest ih =>
      rw [numbered, listeners, List.filter_cons]
      split
      · rw [List.map_cons, List.map_cons, ih, listeners]
      · rw [ih, listeners]

theorem listeners_eq_nil_iff (topic : String) (k : Nat) (s : Sheet α) :
    s.listeners topic = [] ↔ numbered topic k s = [] := by
  rw [← map_numbered topic k, List.map_eq_nil_iff]

/-- The numbered rows of a topic are its standing rows. -/
theorem mem_numbered_iff {m : Nat} {l : α} :
    (m, l) ∈ numbered topic k s ↔ ∃ i, m = k + i ∧ s[i]? = some { topic, listener := l } := by
  induction s generalizing k with
  | nil => simp [numbered]
  | cons row rest ih =>
      have htail : (∃ i, m = k + i ∧ (row :: rest)[i]? = some { topic, listener := l }) ↔
          m = k ∧ row = { topic, listener := l } ∨ (m, l) ∈ numbered topic (k + 1) rest := by
        rw [ih]
        constructor
        · rintro ⟨i, hi, hrow⟩
          cases i with
          | zero => exact .inl ⟨hi, Option.some.inj hrow⟩
          | succ i => exact .inr ⟨i, by omega, hrow⟩
        · rintro (⟨rfl, rfl⟩ | ⟨i, hi, hrow⟩)
          · exact ⟨0, rfl, rfl⟩
          · exact ⟨i + 1, by omega, hrow⟩
      rw [htail, numbered]
      obtain ⟨t, l', stands⟩ := row
      split
      · rename_i hrow
        rw [Bool.and_eq_true, beq_iff_eq] at hrow
        obtain ⟨rfl, rfl⟩ := hrow
        simp [eq_comm]
      · rename_i hrow
        rw [Bool.and_eq_true, beq_iff_eq, not_and] at hrow
        have hne : (⟨t, l', stands⟩ : Row α) ≠ { topic, listener := l } := by
          rintro heq
          cases heq
          exact hrow rfl rfl
        simp [hne]

/-- A row that is written at the end of the sheet. -/
theorem numbered_append (topic : String) (k : Nat) (s : Sheet α) (row : Row α) :
    numbered topic k (s ++ [row]) =
      numbered topic k s ++
        if row.stands && row.topic == topic then [(k + s.length, row.listener)] else [] := by
  induction s generalizing k with
  | nil =>
      rw [List.nil_append, numbered, numbered, numbered, List.nil_append]
      split <;> rfl
  | cons hd rest ih =>
      have hk : k + 1 + rest.length = k + (rest.length + 1) := by omega
      rw [List.cons_append, numbered, numbered, ih, List.length_cons, hk]
      split
      · rfl
      · rfl

/-- Striking a row out takes it away from the numbered rows and leaves the others. -/
theorem numbered_strike (topic : String) (k n : Nat) (s : Sheet α) :
    numbered topic k (s.strike n) = (numbered topic k s).filter (·.1 ≠ k + n) := by
  induction s generalizing k n with
  | nil => cases n <;> rfl
  | cons row rest ih =>
      cases n with
      | zero =>
          have hrest : (numbered topic (k + 1) rest).filter (·.1 ≠ k) =
              numbered topic (k + 1) rest := by
            refine List.filter_eq_self.mpr fun e he => ?_
            obtain ⟨i, hi, -⟩ := mem_numbered_iff.mp he
            exact decide_eq_true (by omega)
          show numbered topic k ({ row with stands := false } :: rest) = _
          rw [numbered, numbered, Nat.add_zero]
          split
          · rename_i hrow
            simp at hrow
          · split
            · rw [List.filter_cons_of_neg (by simp)]
              exact hrest.symm
            · exact hrest.symm
      | succ n =>
          have hrest := ih (k + 1) n
          have hn : k + 1 + n = k + (n + 1) := by omega
          show numbered topic k (row :: strike rest n) = _
          rw [numbered, numbered, hrest, hn]
          split
          · rw [List.filter_cons_of_pos (by simp)]
          · rfl

theorem getElem?_strike_self (hrow : s[n]? = some row) :
    (s.strike n)[n]? = some { row with stands := false } := by
  rw [strike, List.getElem?_modify_eq, hrow]
  rfl

theorem getElem?_strike_of_ne {m : Nat} (h : n ≠ m) (s : Sheet α) : (s.strike n)[m]? = s[m]? :=
  List.getElem?_modify_ne _ _ h

theorem length_strike (s : Sheet α) (n : Nat) : (s.strike n).length = s.length :=
  List.length_modify ..

theorem strike_of_length_le (h : s.length ≤ n) : s.strike n = s := List.modify_eq_self h

/-- A row that was struck out before, or is on another topic, is not among the numbered rows. -/
theorem ne_of_mem_numbered (hrow : s[n]? = some row) (h : row.stands = false ∨ row.topic ≠ topic)
    {e : Nat × α} (he : e ∈ numbered topic 0 s) : e.1 ≠ n := by
  rintro rfl
  obtain ⟨i, hi, hrow'⟩ := mem_numbered_iff.mp he
  rw [hi, Nat.zero_add, hrow'] at hrow
  obtain rfl := Option.some.inj hrow
  rcases h with h | h
  · cases h
  · exact h rfl

theorem numbered_strike_of (hrow : s[n]? = some row) (h : row.stands = false ∨ row.topic ≠ topic) :
    numbered topic 0 (s.strike n) = numbered topic 0 s := by
  rw [numbered_strike]
  refine List.filter_eq_self.mpr fun e he => ?_
  rw [Nat.zero_add]
  exact decide_eq_true (ne_of_mem_numbered hrow h he)

theorem listeners_strike_of (hrow : s[n]? = some row)
    (h : row.stands = false ∨ row.topic ≠ topic) :
    (s.strike n).listeners topic = s.listeners topic := by
  rw [← map_numbered topic 0, numbered_strike_of hrow h, map_numbered]

theorem listeners_ne_nil (hrow : s[n]? = some row) (hstands : row.stands = true) :
    s.listeners row.topic ≠ [] := by
  have hmem : (0 + n, row.listener) ∈ numbered row.topic 0 s := by
    obtain ⟨topic, listener, stands⟩ := row
    obtain rfl : stands = true := hstands
    exact mem_numbered_iff.mpr ⟨n, rfl, hrow⟩
  rw [ne_eq, listeners_eq_nil_iff _ 0]
  exact List.ne_nil_of_mem hmem

/-! ## First and last listeners -/

theorem listeners_append (s : Sheet α) (row : Row α) (topic : String) :
    Sheet.listeners (s ++ [row]) topic =
      s.listeners topic ++
        if row.stands && row.topic == topic then [row.listener] else [] := by
  rw [listeners, List.filter_append, List.map_append, List.filter_cons]
  split <;> rfl

end Sheet

/-- Whether a topic has listeners again (`true`) or no longer (`false`), if a report says so. -/
def Report.crossing (topic : String) : Report → List Bool
  | .subscribed t first => if t = topic ∧ first = true then [true] else []
  | .released t last => if t = topic ∧ last = true then [false] else []

namespace Sheet

/-- A report says that a topic has a first listener, or had its last one, exactly if that is so. -/
theorem crossing_act (s : Sheet α) (a : Exchange.Act α) (topic : String) :
    (s.act a).1.toList.flatMap (Report.crossing topic) =
      changes (!(s.listeners topic).isEmpty) [!((s.act a).2.listeners topic).isEmpty] := by
  have hrelease : ∀ n, ((s[n]?.map fun row => Report.released row.topic
      (row.stands && ((s.strike n).listeners row.topic).isEmpty)).toList.flatMap
        (Report.crossing topic)) =
      changes (!(s.listeners topic).isEmpty) [!((s.strike n).listeners topic).isEmpty] := by
    intro n
    cases hrow : s[n]? with
    | none =>
        rw [strike_of_length_le (List.getElem?_eq_none_iff.mp hrow), changes_self_cons]
        rfl
    | some row =>
        by_cases h : row.stands = false ∨ row.topic ≠ topic
        · rw [listeners_strike_of hrow h, changes_self_cons]
          rcases h with h | h
          · simp [Report.crossing, h, changes]
          · simp [Report.crossing, h, changes]
        · rw [not_or, Bool.not_eq_false, ne_eq, Decidable.not_not] at h
          obtain ⟨hstands, rfl⟩ := h
          have hfull := List.isEmpty_eq_false_iff.mpr (listeners_ne_nil hrow hstands)
          rw [hfull]
          cases hlast : ((s.strike n).listeners row.topic).isEmpty <;>
            simp [Report.crossing, changes, hstands, hlast]
  cases a with
  | subscribe t listener =>
      show ([Report.subscribed t (s.listeners t).isEmpty].flatMap _) =
        changes _ [!(Sheet.listeners (s ++ [_]) topic).isEmpty]
      rw [listeners_append]
      by_cases ht : t = topic
      · subst ht
        cases (s.listeners t).isEmpty <;> simp [Report.crossing, changes]
      · simp [Report.crossing, changes, ht]
  | unsubscribe n => exact hrelease n
  | drop n => exact hrelease n

/-- First and last listeners of a topic take turns. -/
theorem alternates_run (s : Sheet α) (acts : List (Exchange.Act α)) (topic : String) :
    Alternates (s.listeners topic).isEmpty ((s.run acts).1.flatMap (Report.crossing topic)) := by
  have hchanges : ∃ bs, (s.run acts).1.flatMap (Report.crossing topic) =
      changes (!(s.listeners topic).isEmpty) bs := by
    induction acts generalizing s with
    | nil => exact ⟨[], rfl⟩
    | cons a rest ih =>
        obtain ⟨bs, hbs⟩ := ih (s.act a).2
        refine ⟨(!((s.act a).2.listeners topic).isEmpty) :: bs, ?_⟩
        rw [changes_cons, ← crossing_act, ← hbs, ← List.flatMap_append]
        rfl
  obtain ⟨bs, hbs⟩ := hchanges
  rw [hbs]
  simpa using alternates_changes (!(s.listeners topic).isEmpty) bs

end Sheet

end Parley
