import Mathlib.Algebra.Group.Nat.Defs

/-!
# Decimal digits

What digits spell, for the readers that add them up one by one: the lengths and actions of frames,
and the numbers of JSON. The digits that are printed for a number spell it and tell it from every
other one, and only zero is printed with a zero in front. Of the spellings of a number there is one
for each width that is wide enough, and one without a zero in front, which is the printed one.
-/

namespace Parley.Text

/-- Decimal digits, at least one, and the number that they spell. -/
structure Spells (cs : List Char) (n : Nat) : Prop where
  nonempty : cs ≠ []
  digits : ∀ c ∈ cs, c.isDigit = true
  value : Nat.ofDigitChars 10 cs 0 = n

theorem foldl_digits (cs : List Char) (n : Nat) :
    cs.foldl (fun n c => n * 10 + (c.toNat - 0x30)) n = Nat.ofDigitChars 10 cs n := by
  rw [Nat.ofDigitChars_eq_foldl]
  congr
  funext n c
  rw [Nat.mul_comm]
  rfl

theorem spells_toDigits (n : Nat) : Spells (Nat.toDigits 10 n) n :=
  ⟨Nat.toDigits_ne_nil, fun _ => Nat.isDigit_of_mem_toDigits (by decide) (by decide),
    Nat.ofDigitChars_ten_toDigits⟩

/-- Printed digits end at the first character that is no digit, so they tell the number. -/
theorem toDigits_inj {m n : Nat} {c : Char} (hc : c.isDigit = false) {xs ys : List Char}
    (h : Nat.toDigits 10 m ++ c :: xs = Nat.toDigits 10 n ++ c :: ys) : m = n := by
  have hdigits : ∀ k zs, (Nat.toDigits 10 k ++ c :: zs).takeWhile (·.isDigit) =
      Nat.toDigits 10 k := by
    intro k zs
    rw [List.takeWhile_append_of_pos (spells_toDigits k).digits,
      List.takeWhile_cons_of_neg (by simp [hc]), List.append_nil]
  have heq := congrArg (List.takeWhile (·.isDigit)) h
  rw [hdigits, hdigits] at heq
  rw [← (spells_toDigits m).value, heq, (spells_toDigits n).value]

theorem digitChar_ne_zero : ∀ n < 10, n ≠ 0 → Nat.digitChar n ≠ '0' := by decide

/-- The digits of a number other than zero do not begin with a zero. -/
theorem toDigits_head {n : Nat} (h : n ≠ 0) : ∃ c cs, Nat.toDigits 10 n = c :: cs ∧ c ≠ '0' := by
  induction n using Nat.strongRecOn with
  | _ n ih =>
      by_cases hsmall : n < 10
      · exact ⟨_, [], Nat.toDigits_of_lt_base hsmall, digitChar_ne_zero n hsmall h⟩
      · obtain ⟨c, cs, hcs, hc⟩ := ih (n / 10) (by omega) (by omega)
        refine ⟨c, cs ++ [(n % 10).digitChar], ?_, hc⟩
        rw [Nat.toDigits_of_base_le (by decide) (by omega), hcs]
        rfl

/-! ## How many spellings a number has -/

theorem digit_bounds {c : Char} (h : c.isDigit = true) : 0x30 ≤ c.toNat ∧ c.toNat ≤ 0x39 :=
  Char.isDigit_iff_toNat.mp h

/-- Equally many digits that lead to the same number, from whatever numbers before them, are the
same digits. -/
theorem ofDigitChars_inj {cs ds : List Char} (hcs : ∀ c ∈ cs, c.isDigit = true)
    (hds : ∀ d ∈ ds, d.isDigit = true) (hlength : cs.length = ds.length) {m n : Nat}
    (h : Nat.ofDigitChars 10 cs m = Nat.ofDigitChars 10 ds n) : m = n ∧ cs = ds := by
  induction cs generalizing ds m n with
  | nil =>
      rw [List.eq_nil_of_length_eq_zero hlength.symm] at h ⊢
      exact ⟨h, rfl⟩
  | cons c cs ih =>
      cases ds with
      | nil => cases hlength
      | cons d ds =>
          obtain ⟨hc, hcs⟩ := List.forall_mem_cons.mp hcs
          obtain ⟨hd, hds⟩ := List.forall_mem_cons.mp hds
          rw [Nat.ofDigitChars_cons, Nat.ofDigitChars_cons] at h
          obtain ⟨hhead, htail⟩ := ih hcs hds (Nat.succ.inj hlength) h
          have hc := digit_bounds hc
          have hd := digit_bounds hd
          change 10 * m + (c.toNat - 0x30) = 10 * n + (d.toNat - 0x30) at hhead
          have hsame : c = d := Char.toNat_inj.mp (by omega)
          exact ⟨by omega, by rw [hsame, htail]⟩

theorem ofDigitChars_lt {cs : List Char} (h : ∀ c ∈ cs, c.isDigit = true) (n : Nat) :
    Nat.ofDigitChars 10 cs n < (n + 1) * 10 ^ cs.length := by
  induction cs generalizing n with
  | nil => simp
  | cons c cs ih =>
      obtain ⟨hc, hcs⟩ := List.forall_mem_cons.mp h
      have hc := digit_bounds hc
      have hdigit : 10 * n + (c.toNat - '0'.toNat) + 1 ≤ (n + 1) * 10 := by
        change 10 * n + (c.toNat - 0x30) + 1 ≤ _
        omega
      calc Nat.ofDigitChars 10 (c :: cs) n
          = Nat.ofDigitChars 10 cs (10 * n + (c.toNat - '0'.toNat)) := Nat.ofDigitChars_cons
        _ < (10 * n + (c.toNat - '0'.toNat) + 1) * 10 ^ cs.length := ih hcs _
        _ ≤ (n + 1) * 10 * 10 ^ cs.length := Nat.mul_le_mul_right _ hdigit
        _ = (n + 1) * 10 ^ (c :: cs).length := by
          rw [List.length_cons, Nat.pow_succ, Nat.mul_assoc, Nat.mul_comm 10]

namespace Spells

variable {cs ds : List Char} {n : Nat}

/-- A number has only one spelling of each length. -/
theorem unique (h : Spells cs n) (h' : Spells ds n) (hlength : cs.length = ds.length) : cs = ds :=
  (ofDigitChars_inj h.digits h'.digits hlength (h.value.trans h'.value.symm)).2

theorem lt (h : Spells cs n) : n < 10 ^ cs.length := by
  have hlt := ofDigitChars_lt h.digits 0
  rwa [h.value, Nat.zero_add, Nat.one_mul] at hlt

/-- Digits of which the first is no zero spell a number of as many digits. -/
theorem le {c : Char} (h : Spells (c :: cs) n) (hc : c ≠ '0') : 10 ^ cs.length ≤ n := by
  have hbounds := digit_bounds (h.digits c List.mem_cons_self)
  have hne : c.toNat ≠ 0x30 := fun heq => hc (Char.toNat_inj.mp heq)
  have hvalue := h.value
  rw [Nat.ofDigitChars_cons, Nat.ofDigitChars_eq_ofDigitChars_zero] at hvalue
  have hfirst : 1 ≤ 10 * 0 + (c.toNat - '0'.toNat) := by
    change 1 ≤ 10 * 0 + (c.toNat - 0x30)
    omega
  have hle := Nat.mul_le_mul_left (10 ^ cs.length) hfirst
  omega

/-- No other spelling of the number is shorter. -/
theorem length_le {c : Char} (h : Spells (c :: cs) n) (hc : c ≠ '0') (h' : Spells ds n) :
    (c :: cs).length ≤ ds.length :=
  (Nat.pow_lt_pow_iff_right (by decide)).mp (Nat.lt_of_le_of_lt (h.le hc) h'.lt)

end Spells

/-- Digits and nothing else, without a zero in front. -/
structure IsPlainNumber (s : String) : Prop where
  digits : ∀ c ∈ s.toList, c.isDigit = true
  noZero : ∀ rest, s.toList = '0' :: rest → rest = []

theorem isPlainNumber_toDigits (n : Nat) : IsPlainNumber (String.ofList (Nat.toDigits 10 n)) := by
  constructor
  · rw [String.toList_ofList]
    exact (spells_toDigits n).digits
  · intro rest hrest
    rw [String.toList_ofList] at hrest
    by_cases hn : n = 0
    · subst hn
      exact (List.cons.inj hrest).2.symm
    · obtain ⟨c, cs, hcs, hc⟩ := toDigits_head hn
      rw [hcs] at hrest
      exact absurd (List.cons.inj hrest).1 hc

/-- A number has one plain spelling, which is the one that is printed. -/
theorem Spells.eq_toDigits {s : String} {n : Nat} (h : Spells s.toList n) (hs : IsPlainNumber s) :
    s = String.ofList (Nat.toDigits 10 n) := by
  have hprinted := spells_toDigits n
  have hlength : s.toList.length = (Nat.toDigits 10 n).length := by
    cases hcs : s.toList with
    | nil => exact absurd hcs h.nonempty
    | cons c cs =>
        rw [hcs] at h
        by_cases hc : c = '0'
        · subst hc
          obtain rfl := hs.noZero cs hcs
          obtain rfl : 0 = n := h.value
          rfl
        · have hpos : n ≠ 0 := by
            have hlow := h.le hc
            have : 0 < 10 ^ cs.length := Nat.pow_pos (by decide)
            omega
          obtain ⟨d, ds, hds, hd⟩ := toDigits_head hpos
          rw [hds] at hprinted ⊢
          exact Nat.le_antisymm (h.length_le hc hprinted) (hprinted.length_le hd h)
  rw [← h.unique hprinted hlength, String.ofList_toList]

end Parley.Text
