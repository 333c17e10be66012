import Parley.Json.Record
import Parley.Proofs.Json.Printing
import Parley.Signal

/-!
# Records that are read back

A reader undoes a writer if it takes the tree of what was written for what was there before
(`ReadsBack`). Readers of records are put together from readers of fields, and so is the proof that
they undo their writers: a field that is required, one that may be left out and a list keep the
property, and a printed record gives each name the member that was written for it.
-/

namespace Parley.Json

/-- `read` undoes `write`, and what is written is never taken for a field that is left out. -/
structure ReadsBack {α : Type} (read : Tree → Option α) (write : α → Json) : Prop where
  integral : ∀ x, Integral (write x)
  present : ∀ x, tree (write x) ≠ .null
  read_tree : ∀ x, read (tree (write x)) = some x

variable {α : Type} {read : Tree → Option α} {write : α → Json}

/-! ## Plain values -/

theorem readsBack_string : ReadsBack Tree.string? .string where
  integral := .string
  present _ := nofun
  read_tree _ := rfl

theorem readsBack_bool : ReadsBack Tree.bool? .bool where
  integral := .bool
  present _ := nofun
  read_tree _ := rfl

@[simp] theorem integral_ofNat (n : Nat) : Integral (.ofNat n) := .integer _

theorem nat?_ofNat {limit n : Nat} (h : n ≤ limit) (hlimit : limit ≤ significandLimit) :
    (tree (.ofNat n)).nat? limit = some n := by
  have hrange : InRange n := by
    rw [significandLimit] at hlimit
    constructor <;> omega
  change (Tree.number (Numeral.ofInt n)).nat? limit = some n
  simp only [Tree.nat?, integer?_ofInt hrange]
  exact if_pos h

theorem readsBack_u16 : ReadsBack Tree.u16? fun n => .ofNat n.toNat where
  integral _ := .integer _
  present _ := nofun
  read_tree n := by
    have hn : n.toNat ≤ 0xFFFF := Nat.le_of_lt_succ n.toNat_lt
    rw [Tree.u16?, nat?_ofNat hn (by decide), Option.map_some, UInt16.ofNat_toNat]

theorem readsBack_u32 : ReadsBack Tree.u32? fun n => .ofNat n.toNat where
  integral _ := .integer _
  present _ := nofun
  read_tree n := by
    have hn : n.toNat ≤ 0xFFFFFFFF := Nat.le_of_lt_succ n.toNat_lt
    rw [Tree.u32?, nat?_ofNat hn (by decide), Option.map_some, UInt32.ofNat_toNat]

/-- A choice that is known by its name. -/
theorem readsBack_choice {named : String → Option α} {name : α → String}
    (h : ∀ x, named (name x) = some x) :
    ReadsBack (Tree.choice? named) fun x => .string (name x) where
  integral _ := .string _
  present _ := nofun
  read_tree := h

theorem ReadsBack.listOf (h : ReadsBack read write) :
    ReadsBack (Tree.listOf? read) fun xs => .array (xs.map write) where
  integral xs := by
    simp only [integral_array, List.forall_mem_map]
    exact fun x _ => h.integral x
  present _ := nofun
  read_tree xs := by
    rw [tree, Tree.listOf?, itemTrees_eq_map]
    induction xs with
    | nil => rfl
    | cons x xs ih =>
        rw [List.map_cons, List.map_cons, List.mapM_cons, h.read_tree, ih]
        rfl

/-! ## Fields -/

theorem ReadsBack.required (h : ReadsBack read write) (x : α) :
    Json.required read (some (tree (write x))) = some x := h.read_tree x

theorem ReadsBack.withDefault (h : ReadsBack read write) (default x : α) :
    Json.withDefault default read (some (tree (write x))) = some x := h.read_tree x

theorem ReadsBack.optional (h : ReadsBack read write) (v : Option α) :
    Json.optional read ((v.map write).map tree) = some v := by
  cases v with
  | none => rfl
  | some x =>
      have hnullable : Json.nullable read (tree (write x)) = (read (tree (write x))).map some := by
        unfold Json.nullable
        split
        · rename_i hnull
          exact absurd hnull (h.present x)
        · rfl
      exact hnullable.trans (congrArg (Option.map some) (h.read_tree x))

theorem keys_optionalMember (name : String) (v : Option Json) :
    ((optionalMember name v).map Prod.fst).Sublist [name] := by
  cases v with
  | none => exact List.nil_sublist _
  | some x => exact List.Sublist.refl _

theorem integral_optionalMember (h : ReadsBack read write) (name : String) (v : Option α) :
    ∀ m ∈ optionalMember name (v.map write), Integral m.2 := by
  cases v with
  | none => exact nofun
  | some x => exact List.forall_mem_singleton.mpr (h.integral x)

theorem lookup_optionalMember (key name : String) (v : Option Json) :
    (optionalMember name v).lookup key = if key == name then v else none := by
  cases v with
  | none => simp [optionalMember]
  | some x =>
      simp only [optionalMember, Option.map_some, Option.toList_some, List.lookup_cons,
        List.lookup_nil]
      cases key == name <;> rfl

/-! ## Members by name -/

theorem memberOf?_cons_of_ne {k name : String} (h : k ≠ name) (t : Tree)
    (members : List (Option String × Tree)) :
    memberOf? ((some k, t) :: members) name = memberOf? members name := by
  have hskip : ¬ ((some k, t).1 == some name) = true := by simpa using h
  rw [memberOf?, List.filter_cons, if_neg hskip, memberOf?]

theorem memberOf?_cons_self {name : String} {members : List (String × Json)}
    (h : name ∉ members.map Prod.fst) (t : Tree) :
    memberOf? ((some name, t) :: memberTrees members) name = some (some t) := by
  have hrest : (memberTrees members).filter (·.1 == some name) = [] := by
    rw [memberTrees_eq_map, List.filter_eq_nil_iff]
    intro m hm
    obtain ⟨e, he, rfl⟩ := List.mem_map.mp hm
    have hne : e.1 ≠ name := fun heq => h (heq ▸ List.mem_map_of_mem he)
    simpa using hne
  have hkept : ((some name, t).1 == some name) = true := beq_self_eq_true _
  rw [memberOf?, List.filter_cons, if_pos hkept, hrest]

theorem memberOf?_memberTrees {members : List (String × Json)}
    (h : (members.map Prod.fst).Nodup) (name : String) :
    memberOf? (memberTrees members) name = some ((members.lookup name).map tree) := by
  induction members with
  | nil => rfl
  | cons m rest ih =>
      obtain ⟨k, x⟩ := m
      obtain ⟨hk, hrest⟩ := List.nodup_cons.mp h
      rw [memberTrees, List.lookup_cons]
      by_cases heq : k = name
      · subst heq
        rw [memberOf?_cons_self hk, beq_self_eq_true]
        rfl
      · have hbeq : (name == k) = false := beq_eq_false_iff_ne.mpr (Ne.symm heq)
        rw [memberOf?_cons_of_ne heq, ih hrest, hbeq]

/-- A record that was printed gives each name the member that was written for it. -/
theorem fields?_tree {members : List (String × Json)} (h : (members.map Prod.fst).Nodup)
    (names : List String) :
    (tree (.object members)).fields? names =
      some ⟨true, names.map fun name => (members.lookup name).map tree⟩ := by
  have hkeys : (memberTrees members).all (·.1.isSome) = true := by
    rw [memberTrees_eq_map, List.all_map, List.all_eq_true]
    exact fun _ _ => rfl
  have hvalues : names.mapM (memberOf? (memberTrees members)) =
      some (names.map fun name => (members.lookup name).map tree) := by
    induction names with
    | nil => rfl
    | cons name names ih =>
        rw [List.mapM_cons, memberOf?_memberTrees h, ih]
        rfl
  rw [tree, Tree.fields?, if_pos hkeys, hvalues, Option.map_some]

end Parley.Json
