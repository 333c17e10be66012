import Parley.Json.Canonical
import Parley.Proofs.Json.Printing

/-!
# Data that is read back as it was

Data that is passed through is printed from a value and kept as a value again. The reader sorts the
members of objects, rounds the numbers that do not fit in 64 bits and refuses what nests too deep,
so what comes back is the same only for the values that such data consists of: keys in ascending
order, integers in range, bounded nesting.
-/

namespace Parley.Json

/-- A value as data that is passed through is kept: its keys in ascending order and its numbers
integers in range. -/
inductive Canonical : Json → Prop
  | null : Canonical .null
  | bool (b : Bool) : Canonical (.bool b)
  | integer {n : Int} : InRange n → Canonical (.number (.integer n))
  | string (s : String) : Canonical (.string s)
  | array {items : List Json} : (∀ x ∈ items, Canonical x) → Canonical (.array items)
  | object {members : List (String × Json)} : members.Pairwise (fun a b => a.1 < b.1) →
      (∀ m ∈ members, Canonical m.2) → Canonical (.object members)

theorem Canonical.integral {x : Json} (h : Canonical x) : Integral x := by
  induction h with
  | null => exact .null
  | bool b => exact .bool b
  | integer _ => exact .integer _
  | string s => exact .string s
  | array _ ih => exact .array ih
  | object _ _ ih => exact .object ih

mutual

/-- How many arrays and objects there are around the innermost value. -/
def nesting : Json → Nat
  | .array items => 1 + nestingOfItems items
  | .object members => 1 + nestingOfMembers members
  | _ => 0

def nestingOfItems : List Json → Nat
  | [] => 0
  | x :: rest => max x.nesting (nestingOfItems rest)

def nestingOfMembers : List (String × Json) → Nat
  | [] => 0
  | (_, x) :: rest => max x.nesting (nestingOfMembers rest)

end

/-- Data that can be passed through. -/
structure Passable (x : Json) : Prop where
  canonical : Canonical x
  nesting_le : x.nesting ≤ 127

/-! ## Trees of canonical values -/

mutual

theorem depth_tree : ∀ x : Json, (tree x).depth = x.nesting
  | .null => rfl
  | .bool _ => rfl
  | .number (.integer _) => rfl
  | .number (.double _) => rfl
  | .number (.single _) => rfl
  | .string _ => rfl
  | .array items => by rw [tree, Tree.depth, nesting, depthOfItems_itemTrees items]
  | .object members => by rw [tree, Tree.depth, nesting, depthOfMembers_memberTrees members]

theorem depthOfItems_itemTrees : ∀ items : List Json,
    depthOfItems (itemTrees items) = nestingOfItems items
  | [] => rfl
  | x :: rest => by
    rw [itemTrees, depthOfItems, nestingOfItems, depth_tree x, depthOfItems_itemTrees rest]

theorem depthOfMembers_memberTrees : ∀ members : List (String × Json),
    depthOfMembers (memberTrees members) = nestingOfMembers members
  | [] => rfl
  | (k, x) :: rest => by
    rw [memberTrees, depthOfMembers, nestingOfMembers, depth_tree x,
      depthOfMembers_memberTrees rest]

end

theorem itemsOfTrees?_itemTrees {items : List Json} (h : ∀ x ∈ items, ofTree? (tree x) = some x) :
    itemsOfTrees? (itemTrees items) = some items := by
  induction items with
  | nil => rfl
  | cons x rest ih =>
      obtain ⟨hx, hrest⟩ := List.forall_mem_cons.mp h
      rw [itemTrees, itemsOfTrees?, hx, ih hrest]
      rfl

theorem membersOfTrees?_memberTrees {members : List (String × Json)}
    (h : ∀ m ∈ members, ofTree? (tree m.2) = some m.2) (done : List (String × Json))
    (hordered : (done ++ members).Pairwise (fun a b => a.1 < b.1)) :
    membersOfTrees? done (memberTrees members) = some (done ++ members) := by
  induction members generalizing done with
  | nil => rw [memberTrees, membersOfTrees?, List.append_nil]
  | cons m rest ih =>
      obtain ⟨k, x⟩ := m
      obtain ⟨hx, hrest⟩ := List.forall_mem_cons.mp h
      have hplace := Table.place_of_ordered hordered
      rw [List.append_cons] at hordered
      rw [memberTrees, membersOfTrees?, hx, List.append_cons, ← ih hrest _ hordered, ← hplace]
      rfl

theorem ofTree?_tree {x : Json} (h : Canonical x) : ofTree? (tree x) = some x := by
  induction h with
  | null => rfl
  | bool b => rfl
  | integer hn => simp [tree, ofTree?, Numeral.number?, integer?_ofInt hn]
  | string s => rfl
  | array _ ih => rw [tree, ofTree?, itemsOfTrees?_itemTrees ih, Option.map_some]
  | object hordered _ ih => rw [tree, ofTree?, membersOfTrees?_memberTrees ih [] hordered]; rfl

/-- Data that is printed is kept as it was. -/
theorem parse?_render {x : Json} (h : Passable x) : parse? x.render = some x := by
  have hdepth : (tree x).depth ≤ depthLimit := by
    rw [depth_tree]
    exact h.nesting_le
  rw [parse?, read?_render h.canonical.integral, Option.bind_eq_bind, Option.bind_some, ofKeptTree?,
    if_pos hdepth, ofTree?_tree h.canonical]

end Parley.Json
