import Parley.Proofs.Call.Accounts
import Parley.Proofs.Call.Inputs
import Parley.Proofs.Call.MediaOperations
import Parley.Proofs.Listings

/-!
# The ledger of connections

A call makes a connection when it makes a link, and closes it when the link is removed or the call is
torn down. Its ledger is kept by the names of the links, each the id of the participant and a number
that is given out once: a link that was made stands or was closed, and not both, and no link appears
that was not made (`Call.Books`). A connection reports under the name of its link. So what it still
reports after it was closed is for no link that stands, whatever was made in its place.
-/

namespace Parley

namespace Connection

variable {κ : Type} [Connection κ]

/-- A connection that was closed, whatever the network did to it since. -/
inductive Closed : κ → Prop where
  | close (p : κ) : Closed (close p)
  | network {p : κ} (h : Closed p) (n : Network κ) : Closed (network p n).1

end Connection

/-- The participant and the number of a link. -/
def Link.name {κ : Type} (l : Link κ) : String × Nat := (l.remote, l.serial)

namespace Call

variable {κ : Type}

/-- The names of the links that effects say were made. -/
def openings (effects : List CallEffect) : List (String × Nat) :=
  effects.filterMap fun
    | .opened r n => some (r, n)
    | _ => none

@[simp] theorem openings_append (xs ys : List CallEffect) :
    openings (xs ++ ys) = openings xs ++ openings ys := List.filterMap_append

/-- The names of the links that stand, in the order of the participants' ids. -/
def standing (c : Call κ) : List (String × Nat) := c.links.values.map Link.name

/-- The names of the closed links, in the order in which they were closed. -/
def closed (c : Call κ) : List (String × Nat) := c.retired.map Link.name

def ledger (c : Call κ) : List (String × Nat) := c.standing ++ c.closed

theorem standing_eq (c : Call κ) : c.standing = c.links.toList.map fun e => e.2.name :=
  List.map_map

theorem name_mem_standing {c : Call κ} {r : String} {l : Link κ} (hl : c.links.find? r = some l) :
    l.name ∈ c.standing := by
  rw [standing_eq]
  exact List.mem_map_of_mem (Table.find?_eq_some_iff.mp hl)

theorem standing_insert {c : Call κ} {r : String} {l k : Link κ} (hl : c.links.find? r = some l)
    (hk : k.name = l.name) : (c.put r k).standing = c.standing := by
  rw [standing_eq, standing_eq]
  exact Table.map_toList_insert hl hk

theorem standing_map {c c' : Call κ} {f : Link κ → Link κ} (hf : ∀ l, (f l).name = l.name)
    (hlinks : c'.links = c.links.map fun _ l => f l) : c'.standing = c.standing := by
  rw [standing, hlinks, Table.values_map, List.map_map, standing]
  exact congrArg (List.map · c.links.values) (funext hf)

/-- Nothing that is done to a connection changes the names of the links. -/
theorem names_updatePeer (c : Call κ) (remote : String) (serial : Nat) (f : κ → κ) :
    (c.updatePeer remote serial f).standing = c.standing ∧
      (c.updatePeer remote serial f).closed = c.closed := by
  let update (l : Link κ) : Link κ :=
    if l.remote = remote ∧ l.serial = serial then { l with peer := f l.peer } else l
  have hname : ∀ l, (update l).name = l.name := by
    intro l
    unfold update
    split <;> rfl
  refine ⟨standing_map hname rfl, ?_⟩
  change (c.retired.map update).map Link.name = c.retired.map Link.name
  rw [List.map_map, show Link.name ∘ update = Link.name from funext hname]

variable [Connection κ]

/-! ## Steps -/

/-- What a step does to the ledger. What it makes gets the next numbers, links are only ever closed,
and what was closed stays as it is. -/
structure Books (c : Call κ) (t : Step κ) : Prop where
  grows : c.serial ≤ t.1.serial
  numbers : ∀ e ∈ openings t.2, c.serial < e.2 ∧ e.2 ≤ t.1.serial
  ascending : (openings t.2).Pairwise (·.2 < ·.2)
  ledger : t.1.ledger.Perm (openings t.2 ++ c.ledger)
  keeps : c.closed <+: t.1.closed
  closed : (∀ k ∈ c.retired, Connection.Closed k.peer) → ∀ k ∈ t.1.retired, Connection.Closed k.peer

namespace Books

variable {c : Call κ} {t : Step κ}

theorem andThen {f : Call κ → Step κ} (h : Books c t) (hf : Books t.1 (f t.1)) :
    Books c (t.andThen f) where
  grows := Nat.le_trans h.grows hf.grows
  numbers e he := by
    rw [Step.andThen_effects, openings_append] at he
    rcases List.mem_append.mp he with he | he
    · exact ⟨(h.numbers e he).1, Nat.le_trans (h.numbers e he).2 hf.grows⟩
    · exact ⟨Nat.lt_of_le_of_lt h.grows (hf.numbers e he).1, (hf.numbers e he).2⟩
  ascending := by
    rw [Step.andThen_effects, openings_append, List.pairwise_append]
    exact ⟨h.ascending, hf.ascending, fun e he e' he' =>
      Nat.lt_of_le_of_lt (h.numbers e he).2 (hf.numbers e' he').1⟩
  ledger := by
    rw [Step.andThen_effects, openings_append]
    calc (f t.1).1.ledger
        |>.Perm (openings (f t.1).2 ++ t.1.ledger) := hf.ledger
      _ |>.Perm (openings (f t.1).2 ++ (openings t.2 ++ c.ledger)) := h.ledger.append_left _
      _ |>.Perm (openings t.2 ++ openings (f t.1).2 ++ c.ledger) := by
          rw [List.append_assoc]
          exact List.perm_append_comm_assoc ..
  keeps := h.keeps.trans hf.keeps
  closed hc := hf.closed (h.closed hc)

/-- A step in which every link stays where it is. -/
theorem aside (hserial : c.serial ≤ t.1.serial) (hopened : openings t.2 = [])
    (hstanding : t.1.standing = c.standing) (hretired : t.1.retired = c.retired) : Books c t where
  grows := hserial
  numbers := by simp [hopened]
  ascending := by simp [hopened]
  ledger := by
    rw [hopened, Call.ledger, Call.ledger, hstanding, Call.closed, hretired]
    exact .refl _
  keeps := ⟨[], by rw [List.append_nil, Call.closed, Call.closed, hretired]⟩
  closed hc := by rwa [hretired]

theorem nothing (c : Call κ) : Books c (c, []) := aside (Nat.le_refl _) rfl rfl rfl

theorem make {r : String} {k : Link κ} (hl : c.links.find? r = none)
    (hk : k.name = (r, c.serial + 1)) :
    Books c ({ c with serial := c.serial + 1, links := c.links.insert r k },
      [.opened r (c.serial + 1)]) where
  grows := Nat.le_succ _
  numbers e he := by
    rw [List.mem_singleton.mp he]
    exact ⟨Nat.lt_succ_self _, Nat.le_refl _⟩
  ascending := List.pairwise_singleton _ _
  ledger := by
    have hstanding := (Table.perm_toList_insert hl k).map fun e => e.2.name
    rw [List.map_cons, hk, ← standing_eq] at hstanding
    rw [Call.ledger, standing_eq]
    exact hstanding.append_right _
  keeps := List.prefix_rfl
  closed := id

/-- A link that is removed is closed. -/
theorem remove {r : String} {l : Link κ} (hl : c.links.find? r = some l) :
    Books c (c.remove r) := by
  rw [Call.remove, hl]
  have hclosed : (c.retired ++ [l.close]).map Link.name = c.closed ++ [l.name] := List.map_append
  refine ⟨Nat.le_refl _, List.forall_mem_nil _, .nil, ?_, ⟨[l.name], hclosed.symm⟩,
    fun hc k hk => ?_⟩
  · have hstanding := (Table.perm_toList_erase hl).map fun e => e.2.name
    rw [← standing_eq] at hstanding
    change (_ ++ (c.retired ++ [l.close]).map Link.name).Perm (c.standing ++ c.closed)
    rw [hclosed, standing_eq]
    refine .trans ?_ (hstanding.append_right c.closed).symm
    rw [List.map_cons, List.cons_append, ← List.append_assoc]
    exact List.perm_append_singleton _ _
  · rcases List.mem_append.mp hk with hk | hk
    · exact hc k hk
    · rw [List.mem_singleton.mp hk]
      exact .close l.peer

theorem of_op {s : Setting κ} {q : Event → Prop} (h : Op s q c t) : Books c t := by
  cases h with
  | note _ _ => exact aside (Nat.le_refl _) rfl rfl rfl
  | say _ => exact aside (Nat.le_refl _) rfl rfl rfl
  | refuse _ _ => exact aside (Nat.le_succ _) rfl rfl rfl
  | make hl _ => exact make hl rfl
  | report o hl hk =>
      refine aside (Nat.le_refl _) (by simp [putReported, openings]) (standing_insert hl ?_) rfl
      exact Prod.ext hk.remote hk.serial
  | describe _ _ => exact aside (Nat.le_refl _) (by simp [openings, sendDescription]) rfl rfl
  | track _ hl => exact aside (Nat.le_refl _) rfl (standing_insert hl rfl) rfl
  | clear hl => exact aside (Nat.le_refl _) (by split <;> rfl) (standing_insert hl rfl) rfl
  | remove hl => exact remove hl

omit [Connection κ] in
theorem openings_releaseAll (s : MediaStream) : openings (releaseAll s) = [] := by
  simp [openings, releaseAll]

theorem setControl (control : Control) (c : Call κ) : Books c (c.setControl control) := by
  unfold Call.setControl
  split
  · exact nothing c
  · exact aside (Nat.le_refl _) rfl rfl rfl

theorem say {effects : List CallEffect} (h : openings effects = []) : Books c (c, effects) :=
  aside (Nat.le_refl _) h rfl rfl

theorem of_mediaOp (h : MediaOp c t) : Books c t := by
  cases h with
  | control control => exact setControl control c
  | epoch => exact aside (Nat.le_refl _) rfl rfl rfl
  | attach stream =>
      refine aside (Nat.le_refl _) rfl ?_ rfl
      exact standing_map (f := fun l => l.attach stream) (fun _ => rfl) rfl
  | detach stream =>
      refine aside (Nat.le_refl _) (openings_releaseAll _) ?_ rfl
      exact standing_map (f := fun l => l.detach stream) (fun _ => rfl) rfl
  | release _ => exact say (openings_releaseAll _)
  | acquire _ _ => exact say rfl
  | say _ => exact say rfl
  | notice _ => exact say rfl

theorem ready {remote : String} {l : Link κ} {k : Link κ × List Candidate}
    (hl : c.links.find? remote = some l) (hk : k.1.Follows l) : Books c (c.putReady remote k) := by
  refine aside (Nat.le_refl _) (by simp [putReady, openings, sendCandidate])
    (standing_insert hl ?_) rfl
  exact Prod.ext hk.remote hk.serial

theorem teardown (c : Call κ) : Books c c.teardown := by
  unfold Call.teardown
  split
  · exact nothing c
  · refine .andThen ?_ (.andThen (setControl .start _) (say rfl))
    have hclosed : (c.retired ++ c.links.values.map Link.close).map Link.name =
        c.closed ++ c.standing := by
      rw [List.map_append, List.map_map]
      rfl
    refine ⟨Nat.le_refl _, by simp [openings_releaseAll], by simp [openings_releaseAll], ?_,
      ⟨c.standing, hclosed.symm⟩, fun hc k hk => ?_⟩
    · rw [openings_releaseAll]
      change (c.retired ++ c.links.values.map Link.close).map Link.name |>.Perm _
      rw [hclosed]
      exact List.perm_append_comm
    · rcases List.mem_append.mp hk with hk | hk
      · exact hc k hk
      · obtain ⟨l, -, rfl⟩ := List.mem_map.mp hk
        exact .close l.peer

theorem step (s : Setting κ) (c : Call κ) (i : Input) : Books c (c.step s i) := by
  by_cases hi : i = .teardown
  · subst hi
    exact teardown c
  · exact of_makes .andThen .nothing .of_op .ready .of_mediaOp (makes_step hi s c)

/-- The network makes and closes no connection. -/
theorem network (c : Call κ) (remote : String) (serial : Nat) (n : Connection.Network κ) :
    Books c (c.updatePeer remote serial fun p => (Connection.network p n).1, []) := by
  obtain ⟨hstanding, hclosed⟩ :=
    c.names_updatePeer remote serial fun p => (Connection.network p n).1
  refine ⟨Nat.le_refl _, nofun, .nil, ?_, ⟨[], by rw [List.append_nil, hclosed]⟩, fun hc k hk => ?_⟩
  · rw [Call.ledger, hstanding, hclosed]
    exact .refl _
  · obtain ⟨l, hl, rfl⟩ := List.mem_map.mp hk
    split
    · exact (hc l hl).network n
    · exact hc l hl

end Books

/-- No two links have one number. -/
theorem nodup_ledger {t : Step κ} (h : Books {} t) : (t.1.ledger.map (·.2)).Nodup := by
  have hledger : t.1.ledger.Perm (openings t.2) := by
    have hperm := h.ledger
    rwa [show ({} : Call κ).ledger = [] from rfl, List.append_nil] at hperm
  refine (hledger.map (·.2)).nodup_iff.mpr (List.Pairwise.map _ (fun a b hlt => ?_) h.ascending)
  exact Nat.ne_of_lt hlt

omit [Connection κ] in
theorem serial_ne_of_closed {c : Call κ} (h : (c.ledger.map (·.2)).Nodup) {e : String × Nat}
    (he : e ∈ c.closed) {r : String} {l : Link κ} (hl : c.links.find? r = some l) :
    l.serial ≠ e.2 := by
  rw [ledger, List.map_append, List.nodup_append] at h
  exact h.2.2 l.serial (List.mem_map_of_mem (f := Prod.snd) (name_mem_standing hl)) e.2
    (List.mem_map_of_mem he)

/-- A report under a number that no link has is passed over. -/
theorem onSignal_of_stale {c : Call κ} {x : PeerSignal}
    (h : ∀ l, c.links.find? x.remote = some l → l.serial ≠ x.serial) : c.onSignal x = (c, []) := by
  unfold onSignal
  split
  · rfl
  · cases hl : c.links.find? x.remote with
    | none => rfl
    | some l => exact if_pos (h l hl)

end Call

namespace Agent

variable {κ : Type} [Connection κ]

theorem books_run (a : Agent κ) (history : List (Setting κ × Turn κ)) :
    Call.Books a.call ((a.run history).1.call, (a.run history).2) :=
  run_of_steps .nothing .andThen .step .network a history

/-- Whatever an agent lived through: the connections that were made got numbers of their own, each
of them is that of one link that stands, at the participant it was made for, or it was closed, and
there are no others. What is reported under the number of a closed one, however late and as whose
report it may come, changes nothing, and nothing is sent or told. -/
theorem no_connection_leaks (history : List (Setting κ × Turn κ)) :
    let c := (run {} history).1.call
    let made := Call.openings (run {} history).2
    made.Pairwise (·.2 < ·.2) ∧ made.Perm (c.standing ++ c.closed) ∧
      (∀ r l, c.links.find? r = some l → l.remote = r) ∧
      (∀ k ∈ c.retired, Connection.Closed k.peer) ∧
      ∀ k ∈ c.retired, ∀ (later : List (Setting κ × Turn κ)) (s : Setting κ) (r : String)
        (e : PeerEvent),
        let d := ((run {} history).1.run later).1.call
        d.step s (.signal ⟨r, k.serial, e⟩) = (d, []) := by
  intro c made
  have hbooks : Call.Books {} (c, (run {} history).2) := books_run {} history
  have hledger : c.ledger.Perm (made ++ []) := hbooks.ledger
  rw [List.append_nil] at hledger
  refine ⟨hbooks.ascending, hledger.symm, (Orderly.empty.run history).proper.remote,
    hbooks.closed nofun, fun k hk later s r e => ?_⟩
  have hlater := books_run (run {} history).1 later
  have hall := hbooks.andThen (f := fun _ => (((run {} history).1.run later).1.call,
    ((run {} history).1.run later).2)) hlater
  have hclosed : k.name ∈ ((run {} history).1.run later).1.call.closed :=
    hlater.keeps.subset (List.mem_map_of_mem hk)
  exact Call.onSignal_of_stale fun l hl =>
    Call.serial_ne_of_closed (Call.nodup_ledger hall) hclosed hl

end Agent

end Parley
