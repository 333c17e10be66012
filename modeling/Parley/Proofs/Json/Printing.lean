import Parley.Proofs.Json.Scanning
import Parley.Text.Blank

/-!
# Printing a value and reading its tree

A printed value whose numbers are integers is the text of one tree. The scanner gives the tokens of
that tree back; a number is the only token that needs to know what comes after it, and inside of a
value there is always a mark.
-/

namespace Parley.Json

/-- A value whose numbers are all integers. -/
inductive Integral : Json → Prop
  | null : Integral .null
  | bool (b : Bool) : Integral (.bool b)
  | integer (n : Int) : Integral (.number (.integer n))
  | string (s : String) : Integral (.string s)
  | array {items : List Json} : (∀ x ∈ items, Integral x) → Integral (.array items)
  | object {members : List (String × Json)} : (∀ m ∈ members, Integral m.2) →
      Integral (.object members)

@[simp] theorem integral_bool (b : Bool) : Integral (.bool b) := .bool b

@[simp] theorem integral_string (s : String) : Integral (.string s) := .string s

@[simp] theorem integral_array {items : List Json} :
    Integral (.array items) ↔ ∀ x ∈ items, Integral x := by
  constructor
  · rintro ⟨⟩
    assumption
  · exact .array

@[simp] theorem integral_object {members : List (String × Json)} :
    Integral (.object members) ↔ ∀ m ∈ members, Integral m.2 := by
  constructor
  · rintro ⟨⟩
    assumption
  · exact .object

/-! ## The tree of a value -/

mutual

/-- The tree of a printed value. Numbers that are no integers are not told apart. -/
def tree : Json → Tree
  | .null => .null
  | .bool b => .bool b
  | .number (.integer n) => .number (.ofInt n)
  | .number _ => .null
  | .string s => .string (some s)
  | .array items => .array (itemTrees items)
  | .object members => .object (memberTrees members)

def itemTrees : List Json → List Tree
  | [] => []
  | x :: rest => tree x :: itemTrees rest

def memberTrees : List (String × Json) → List (Option String × Tree)
  | [] => []
  | (k, x) :: rest => (some k, tree x) :: memberTrees rest

end

theorem itemTrees_eq_map (items : List Json) : itemTrees items = items.map tree := by
  induction items with
  | nil => rfl
  | cons x rest ih => rw [itemTrees, ih, List.map_cons]

theorem memberTrees_eq_map (members : List (String × Json)) :
    memberTrees members = members.map fun m => (some m.1, tree m.2) := by
  induction members with
  | nil => rfl
  | cons m rest ih => rw [memberTrees, ih, List.map_cons]

/-! ## From characters to tokens -/

/-- The scanner takes the characters of `x` for the tokens of its tree, before anything that a value
may stop at. -/
def Scans (x : Json) : Prop :=
  ∀ (done : List Token) {rest : List Char}, Stops rest →
    scan done (chars x ++ rest) = scan ((tree x).tokens.reverse ++ done) rest

theorem scan_stringChars (s : String) (done : List Token) (rest : List Char) :
    scan done (stringChars s ++ rest) = scan (.string (some s) :: done) rest := by
  have hchars : stringChars s ++ rest = '"' :: (s.toList.flatMap escapeChars ++ '"' :: rest) := by
    simp [stringChars]
  rw [hchars]
  exact scan_string (scanString_stringChars s rest) done

theorem scan_integerChars (n : Int) (done : List Token) {rest : List Char} (h : Stops rest) :
    scan done (integerChars n ++ rest) = scan (.number (.ofInt n) :: done) rest := by
  have hnumeral := fun negative => scanNumeral_toDigits negative n.natAbs h
  by_cases hsign : n < 0
  · rw [integerChars, if_pos hsign, List.cons_append, Decimal.digitChars,
      scan_negative (hnumeral true), Numeral.ofInt, decide_eq_true hsign]
  · rw [integerChars, if_neg hsign, Decimal.digitChars, Numeral.ofInt, decide_eq_false hsign]
    obtain ⟨c, cs, hcs, hdigit⟩ := exists_toDigits_cons n.natAbs
    have hfirst := hnumeral false
    rw [hcs] at hfirst ⊢
    exact scan_number hdigit hfirst done

theorem stops_moreItemsChars (items : List Json) (rest : List Char) :
    Stops (moreItemsChars items ++ rest) := by
  cases items with
  | nil => exact .closeArray
  | cons x items => exact .comma

theorem stops_moreMembersChars (members : List (String × Json)) (rest : List Char) :
    Stops (moreMembersChars members ++ rest) := by
  cases members with
  | nil => exact .closeObject
  | cons m members => exact .comma

theorem scan_moreItemsChars {items : List Json} (h : ∀ x ∈ items, Scans x) (done : List Token)
    (rest : List Char) :
    scan done (moreItemsChars items ++ rest) =
      scan ((moreItemTokens (itemTrees items)).reverse ++ done) rest := by
  induction items generalizing done with
  | nil =>
      rw [moreItemsChars, List.singleton_append, scan]
      rfl
  | cons x items ih =>
      obtain ⟨hx, hitems⟩ := List.forall_mem_cons.mp h
      simp only [moreItemsChars, List.cons_append, List.append_assoc]
      rw [scan, hx _ (stops_moreItemsChars items rest), ih hitems]
      simp [itemTrees, moreItemTokens]

theorem scan_moreMembersChars {members : List (String × Json)} (h : ∀ m ∈ members, Scans m.2)
    (done : List Token) (rest : List Char) :
    scan done (moreMembersChars members ++ rest) =
      scan ((moreMemberTokens (memberTrees members)).reverse ++ done) rest := by
  induction members generalizing done with
  | nil =>
      rw [moreMembersChars, List.singleton_append, scan]
      rfl
  | cons m members ih =>
      obtain ⟨k, x⟩ := m
      obtain ⟨hx, hmembers⟩ := List.forall_mem_cons.mp h
      simp only [moreMembersChars, List.cons_append, List.append_assoc]
      rw [scan, scan_stringChars, scan, hx _ (stops_moreMembersChars members rest), ih hmembers]
      simp [memberTrees, moreMemberTokens]

theorem scans_of_integral {x : Json} (h : Integral x) : Scans x := by
  induction h with
  | null =>
      intro done rest _
      simp [chars, nullChars, scan, tree, Tree.tokens]
  | bool b =>
      intro done rest _
      cases b <;> simp [chars, boolChars, scan, tree, Tree.tokens]
  | integer n => exact fun done _ hrest => scan_integerChars n done hrest
  | string s => exact fun done rest _ => scan_stringChars s done rest
  | @array items _ ih =>
      intro done rest _
      cases items with
      | nil => simp [chars, itemsChars, scan, tree, itemTrees, Tree.tokens, itemTokens]
      | cons x items =>
          obtain ⟨hx, hitems⟩ := List.forall_mem_cons.mp ih
          simp only [chars, itemsChars, List.cons_append, List.append_assoc]
          rw [scan, hx _ (stops_moreItemsChars items rest), scan_moreItemsChars hitems]
          simp [tree, itemTrees, Tree.tokens, itemTokens]
  | @object members _ ih =>
      intro done rest _
      cases members with
      | nil => simp [chars, membersChars, scan, tree, memberTrees, Tree.tokens, memberTokens]
      | cons m members =>
          obtain ⟨k, x⟩ := m
          obtain ⟨hx, hmembers⟩ := List.forall_mem_cons.mp ih
          simp only [chars, membersChars, List.cons_append, List.append_assoc]
          rw [scan, scan_stringChars, scan, hx _ (stops_moreMembersChars members rest),
            scan_moreMembersChars hmembers]
          simp [tree, memberTrees, Tree.tokens, memberTokens]

/-- A printed value is the text of its tree. -/
theorem read?_render {x : Json} (h : Integral x) : Tree.read? x.render = some (tree x) := by
  have hscan := scans_of_integral h [] .nil
  rw [List.append_nil, List.append_nil, scan, List.reverse_reverse] at hscan
  rw [read?_eq_some_iff, tokens?, render, String.toList_ofList, hscan]

/-! ## What a printed value begins with -/

theorem isBlank_eq_false_of_isDigit {c : Char} (h : isDigit c = true) : Text.isBlank c = false := by
  have hbounds : 0x30 ≤ c.toNat ∧ c.toNat ≤ 0x39 := Char.isDigit_iff_toNat.mp h
  simp only [Text.isBlank, Bool.or_eq_false_iff, Bool.and_eq_false_iff, decide_eq_false_iff_not,
    beq_eq_false_iff_ne]
  omega

theorem isAllBlank_eq_false_of_cons {s : String} {c : Char} {cs : List Char}
    (hs : s.toList = c :: cs) (hc : Text.isBlank c = false) : Text.isAllBlank s = false := by
  rw [Text.isAllBlank, hs, List.all_cons, hc, Bool.false_and]

/-- A printed value is never taken for an empty payload. -/
theorem isAllBlank_render {x : Json} (h : Integral x) : Text.isAllBlank x.render = false := by
  have hchars : x.render.toList = chars x := String.toList_ofList
  cases h with
  | null => exact isAllBlank_eq_false_of_cons hchars rfl
  | bool b => cases b <;> exact isAllBlank_eq_false_of_cons hchars rfl
  | integer n =>
      by_cases hsign : n < 0
      · have hminus : chars (.number (.integer n)) = '-' :: Nat.toDigits 10 n.natAbs :=
          if_pos hsign
        exact isAllBlank_eq_false_of_cons (hchars.trans hminus) rfl
      · have hdigits : chars (.number (.integer n)) = Nat.toDigits 10 n.natAbs := if_neg hsign
        obtain ⟨c, cs, hcs, hdigit⟩ := exists_toDigits_cons n.natAbs
        exact isAllBlank_eq_false_of_cons (hchars.trans (hdigits.trans hcs))
          (isBlank_eq_false_of_isDigit hdigit)
  | string s => exact isAllBlank_eq_false_of_cons hchars rfl
  | array => exact isAllBlank_eq_false_of_cons hchars rfl
  | object => exact isAllBlank_eq_false_of_cons hchars rfl

end Parley.Json
