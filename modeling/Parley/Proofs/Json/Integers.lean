import Parley.Json.Number
import Parley.Json.Token
import Parley.Proofs.Text.Digits

/-!
# Integers

An integer is printed as a numeral of its digits alone. What is read back of it depends on where the
digits end, so what follows has to be one of the marks that follow a value inside of another value,
or nothing. The numeral is read as that integer if it fits in 64 bits, signed or unsigned.
-/

namespace Parley.Json

/-- The integers that are read back as integers. -/
def InRange (n : Int) : Prop := -0x8000000000000000 ≤ n ∧ n ≤ 0xFFFFFFFFFFFFFFFF

instance (n : Int) : Decidable (InRange n) := inferInstanceAs (Decidable (_ ∧ _))

/-- The digits of a number, as a numeral holds them. -/
def digitsOf (n : Nat) : List Nat := (Nat.toDigits 10 n).map digitValue

/-- The numeral that an integer is printed as. -/
def Numeral.ofInt (n : Int) : Numeral := ⟨n < 0, digitsOf n.natAbs, [], none⟩

/-! ## Reading the numeral -/

/-- Nothing follows, or what follows a value inside of another value. -/
def Stops (rest : List Char) : Prop := ∀ c ∈ rest.head?, c = ',' ∨ c = ']' ∨ c = '}'

theorem Stops.nil : Stops [] := nofun

theorem Stops.comma {rest : List Char} : Stops (',' :: rest) := by
  rintro c ⟨⟩
  exact .inl rfl

theorem Stops.closeArray {rest : List Char} : Stops (']' :: rest) := by
  rintro c ⟨⟩
  exact .inr (.inl rfl)

theorem Stops.closeObject {rest : List Char} : Stops ('}' :: rest) := by
  rintro c ⟨⟩
  exact .inr (.inr rfl)

theorem Stops.cases {rest : List Char} (h : Stops rest) :
    rest = [] ∨ ∃ more, rest = ',' :: more ∨ rest = ']' :: more ∨ rest = '}' :: more := by
  cases rest with
  | nil => exact .inl rfl
  | cons c more =>
      rcases h c rfl with rfl | rfl | rfl
      · exact .inr ⟨more, .inl rfl⟩
      · exact .inr ⟨more, .inr (.inl rfl)⟩
      · exact .inr ⟨more, .inr (.inr rfl)⟩

theorem scanDigits_append {cs rest : List Char} (h : ∀ c ∈ cs, isDigit c = true)
    (hrest : Stops rest) : scanDigits (cs ++ rest) = (cs.map digitValue, rest) := by
  have hstop : rest.takeWhile isDigit = [] ∧ rest.dropWhile isDigit = rest := by
    rcases hrest.cases with rfl | ⟨more, rfl | rfl | rfl⟩ <;> exact ⟨rfl, rfl⟩
  rw [scanDigits, List.takeWhile_append_of_pos h, List.dropWhile_append_of_pos h, hstop.1, hstop.2,
    List.append_nil]

theorem scanFraction_of_stops {rest : List Char} (h : Stops rest) :
    scanFraction rest = some ([], rest) := by
  rcases h.cases with rfl | ⟨more, rfl | rfl | rfl⟩ <;> rfl

theorem scanExponent_of_stops {rest : List Char} (h : Stops rest) :
    scanExponent rest = some (none, rest) := by
  rcases h.cases with rfl | ⟨more, rfl | rfl | rfl⟩ <;> rfl

theorem isDigit_of_mem_toDigits {n : Nat} : ∀ c ∈ Nat.toDigits 10 n, isDigit c = true :=
  (Text.spells_toDigits n).digits

theorem exists_toDigits_cons (n : Nat) :
    ∃ c cs, Nat.toDigits 10 n = c :: cs ∧ isDigit c = true := by
  have hspells := Text.spells_toDigits n
  obtain ⟨c, cs, hcs⟩ := List.exists_cons_of_ne_nil hspells.nonempty
  exact ⟨c, cs, hcs, hspells.digits c (hcs ▸ List.mem_cons_self)⟩

theorem digitValue_ne_zero {c : Char} (hdigit : isDigit c = true) (hc : c ≠ '0') :
    digitValue c ≠ 0 := by
  have hlow : 0x30 ≤ c.toNat := (Char.isDigit_iff_toNat.mp hdigit).1
  intro hvalue
  have htoNat : c.toNat = 0x30 := Nat.le_antisymm (Nat.sub_eq_zero_iff_le.mp hvalue) hlow
  exact hc (Char.toNat_inj.mp htoNat)

theorem isWhole_digitsOf (n : Nat) : isWhole (digitsOf n) = true := by
  by_cases hsmall : n < 10
  · rw [digitsOf, Nat.toDigits_of_lt_base hsmall]
    rfl
  · obtain ⟨c, cs, hcs, hc⟩ := Text.toDigits_head (n := n) (by omega)
    have hdigit : isDigit c = true := isDigit_of_mem_toDigits c (hcs ▸ List.mem_cons_self)
    rw [digitsOf, hcs, List.map_cons]
    cases cs with
    | nil => rfl
    | cons d ds => exact bne_iff_ne.mpr (digitValue_ne_zero hdigit hc)

theorem scanNumeral_toDigits (negative : Bool) (n : Nat) {rest : List Char} (h : Stops rest) :
    scanNumeral negative (Nat.toDigits 10 n ++ rest) =
      some (⟨negative, digitsOf n, [], none⟩, rest) := by
  have hwhole := isWhole_digitsOf n
  rw [digitsOf] at hwhole
  simp only [scanNumeral, scanDigits_append isDigit_of_mem_toDigits h, hwhole, if_true,
    scanFraction_of_stops h, scanExponent_of_stops h, digitsOf]

/-! ## What the numeral stands for -/

/-- Digits that fit are all taken. -/
theorem takeWhole_of_fits {ds : List Nat} {acc : Nat}
    (h : ds.foldl (fun m d => m * 10 + d) acc ≤ significandLimit) :
    takeWhole acc ds = (ds.foldl (fun m d => m * 10 + d) acc, 0) := by
  induction ds generalizing acc with
  | nil => rfl
  | cons d ds ih =>
      have hgrows : ∀ (ds : List Nat) (acc : Nat), acc ≤ ds.foldl (fun m d => m * 10 + d) acc := by
        intro ds
        induction ds with
        | nil => exact fun _ => Nat.le_refl _
        | cons d ds ih => exact fun acc => Nat.le_trans (by omega) (ih (acc * 10 + d))
      rw [takeWhole, if_pos (Nat.le_trans (hgrows ds _) h)]
      exact ih h

theorem foldl_digitsOf (n : Nat) : (digitsOf n).foldl (fun m d => m * 10 + d) 0 = n := by
  rw [digitsOf, List.foldl_map]
  exact (Text.foldl_digits _ _).trans Nat.ofDigitChars_ten_toDigits

theorem takeWhole_digitsOf {n : Nat} (h : n ≤ significandLimit) :
    takeWhole 0 (digitsOf n) = (n, 0) := by
  have hvalue := foldl_digitsOf n
  rw [takeWhole_of_fits (by rwa [hvalue]), hvalue]

theorem integer?_ofInt {n : Int} (h : InRange n) : (Numeral.ofInt n).integer? = some n := by
  obtain ⟨hlow, hhigh⟩ := h
  have htake : takeWhole 0 (digitsOf n.natAbs) = (n.natAbs, 0) := by
    refine takeWhole_digitsOf ?_
    rw [significandLimit]
    omega
  have hread : (Numeral.ofInt n).integer? =
      if n < 0 then
        if 0 < n.natAbs ∧ n.natAbs ≤ 0x8000000000000000 then some (-(n.natAbs : Int)) else none
      else some (n.natAbs : Int) := by
    simp only [Numeral.integer?, Numeral.ofInt, htake, List.isEmpty_nil, Option.isNone_none,
      and_self, if_true, ne_eq, not_true_eq_false, if_false, decide_eq_true_eq]
  rw [hread]
  by_cases hsign : n < 0
  · have hvalue : -(n.natAbs : Int) = n := by omega
    rw [if_pos hsign, if_pos (by omega), hvalue]
  · have hvalue : (n.natAbs : Int) = n := by omega
    rw [if_neg hsign, hvalue]

end Parley.Json
