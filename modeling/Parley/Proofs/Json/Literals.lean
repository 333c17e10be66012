import Parley.Json.Token
import Parley.Json.Printer

/-!
# String literals

Between its quotes a literal holds characters that stand for themselves and escapes. Each gives the
number of a character or half of a surrogate pair (`Units`), and the numbers give the text if every
half is part of a pair (`Joined`). The scanner takes exactly these literals, and what is printed for
a text is one of them. No character of a text takes less than one character of its literal.
-/

namespace Parley.Json

/-! ## What a literal holds -/

/-- The inside of a literal and the numbers that it stands for. -/
inductive Units : List Char → List Nat → Prop
  | nil : Units [] []
  /-- A character that is not escaped. -/
  | plain {c : Char} {body : List Char} {units : List Nat} : c ≠ '"' → c ≠ '\\' → ¬ c < ' ' →
      Units body units → Units (c :: body) (c.toNat :: units)
  /-- An escape of one letter. -/
  | letter {c e : Char} {body : List Char} {units : List Nat} : escapeChar? c = some e →
      Units body units → Units ('\\' :: c :: body) (e.toNat :: units)
  /-- An escape of four hexadecimal digits. -/
  | digits {a b c d : Char} {n : Nat} {body : List Char} {units : List Nat} :
      unit? a b c d = some n → Units body units →
      Units ('\\' :: 'u' :: a :: b :: c :: d :: body) (n :: units)

/-- Numbers and the characters that they give. -/
inductive Joined : List Nat → List Char → Prop
  | nil : Joined [] []
  | plain {n : Nat} {units : List Nat} {cs : List Char} : isHighSurrogate n = false →
      isLowSurrogate n = false → Joined units cs → Joined (n :: units) (Char.ofNat n :: cs)
  /-- Both halves of a pair. -/
  | pair {high low : Nat} {units : List Nat} {cs : List Char} : isHighSurrogate high = true →
      isLowSurrogate low = true → Joined units cs →
      Joined (high :: low :: units) (pairChar high low :: cs)

/-- `body` is the inside of a literal of the text `s`. A literal with half a surrogate pair is the
literal of no text. -/
def Literal (body : List Char) (s : String) : Prop :=
  ∃ units, Units body units ∧ Joined units s.toList

/-! ## The scanner -/

/-- The readers keep what they have last first, so what they read next goes in front of it. -/
theorem reverse_cons_append {α : Type} (a : α) (done more : List α) :
    (a :: done).reverse ++ more = done.reverse ++ a :: more := by
  rw [List.reverse_cons, List.append_assoc]
  rfl

/-- An escape of one letter is not the beginning of one of four digits. -/
theorem scanUnits_letter {c e : Char} (h : escapeChar? c = some e) (done : List Nat)
    (cs : List Char) : scanUnits done ('\\' :: c :: cs) = scanUnits (e.toNat :: done) cs := by
  have hu : c ≠ 'u' := by
    rintro rfl
    cases h
  rw [scanUnits, h]
  rintro a b c d rest ⟨⟩
  exact fun _ => hu rfl

theorem scanUnits_of_units {body : List Char} {units : List Nat} (h : Units body units)
    (done : List Nat) (rest : List Char) :
    scanUnits done (body ++ '"' :: rest) = some (done.reverse ++ units, rest) := by
  induction h generalizing done with
  | nil =>
      rw [List.append_nil]
      rfl
  | plain hquote hslash hcontrol _ ih =>
      rw [List.cons_append, scanUnits, if_neg hcontrol, ih, reverse_cons_append]
      · exact hquote
      · rintro _ _ _ _ _ rfl
        exact absurd rfl hslash
      · rintro _ _ rfl
        exact absurd rfl hslash
  | letter he _ ih =>
      rw [List.cons_append, List.cons_append, scanUnits_letter he, ih, reverse_cons_append]
  | digits hn _ ih =>
      simp only [List.cons_append]
      rw [scanUnits, hn]
      dsimp only
      rw [ih, reverse_cons_append]

theorem units_of_scanUnits {done units : List Nat} {cs rest : List Char}
    (h : scanUnits done cs = some (units, rest)) :
    ∃ body more, cs = body ++ '"' :: rest ∧ Units body more ∧ units = done.reverse ++ more := by
  fun_induction scanUnits done cs with
  | case1 => cases h
  | case2 done rest =>
      cases h
      exact ⟨[], [], rfl, .nil, (List.append_nil _).symm⟩
  | case3 => cases h
  | case4 done a b c d cs n hn ih =>
      obtain ⟨body, more, rfl, hmore, rfl⟩ := ih h
      exact ⟨'\\' :: 'u' :: a :: b :: c :: d :: body, n :: more, rfl, .digits hn hmore,
        reverse_cons_append ..⟩
  | case5 => cases h
  | case6 done c cs _ e he ih =>
      obtain ⟨body, more, rfl, hmore, rfl⟩ := ih h
      exact ⟨'\\' :: c :: body, e.toNat :: more, rfl, .letter he hmore, reverse_cons_append ..⟩
  | case7 => cases h
  | case8 done c cs hquote hlong hslash hcontrol ih =>
      obtain ⟨body, more, rfl, hmore, rfl⟩ := ih h
      refine ⟨c :: body, c.toNat :: more, rfl, .plain hquote ?_ hcontrol hmore, ?_⟩
      · -- A backslash alone at the end of the text is no escape, but there is a quote to come.
        rintro rfl
        cases body <;> exact hslash _ _ rfl rfl
      · exact reverse_cons_append ..

theorem scanUnits_eq_some_iff {units : List Nat} {cs rest : List Char} :
    scanUnits [] cs = some (units, rest) ↔ ∃ body, cs = body ++ '"' :: rest ∧ Units body units := by
  constructor
  · intro h
    obtain ⟨body, more, hcs, hbody, rfl⟩ := units_of_scanUnits h
    exact ⟨body, hcs, hbody⟩
  · rintro ⟨body, rfl, hbody⟩
    exact scanUnits_of_units hbody [] rest

theorem joinUnits_of_joined {units : List Nat} {cs : List Char} (h : Joined units cs)
    (done : List Char) : joinUnits done units = some (done.reverse ++ cs) := by
  induction h generalizing done with
  | nil =>
      rw [List.append_nil]
      rfl
  | plain hhigh hlow _ ih =>
      rw [joinUnits.eq_def]
      dsimp only
      rw [hhigh, if_neg Bool.false_ne_true, hlow, if_neg Bool.false_ne_true, ih,
        reverse_cons_append]
  | pair hhigh hlow _ ih =>
      rw [joinUnits, if_pos hhigh, if_pos hlow, ih, reverse_cons_append]

theorem joined_of_joinUnits {done : List Char} {units : List Nat} {cs : List Char}
    (h : joinUnits done units = some cs) :
    ∃ more, Joined units more ∧ cs = done.reverse ++ more := by
  fun_induction joinUnits done units with
  | case1 done =>
      cases h
      exact ⟨[], .nil, (List.append_nil _).symm⟩
  | case2 done high hhigh low units hlow ih =>
      obtain ⟨more, hmore, rfl⟩ := ih h
      exact ⟨_, .pair hhigh hlow hmore, reverse_cons_append ..⟩
  | case3 => cases h
  | case4 => cases h
  | case5 => cases h
  | case6 done n units hhigh hlow ih =>
      obtain ⟨more, hmore, rfl⟩ := ih h
      exact ⟨_, .plain (eq_false_of_ne_true hhigh) (eq_false_of_ne_true hlow) hmore,
        reverse_cons_append ..⟩

theorem joinUnits_eq_some_iff {units : List Nat} {cs : List Char} :
    joinUnits [] units = some cs ↔ Joined units cs := by
  constructor
  · intro h
    obtain ⟨more, hmore, rfl⟩ := joined_of_joinUnits h
    exact hmore
  · exact fun h => joinUnits_of_joined h []

theorem scanString_eq_some_iff {cs rest : List Char} {s : String} :
    scanString cs = some (some s, rest) ↔ ∃ body, cs = body ++ '"' :: rest ∧ Literal body s := by
  rw [scanString, Option.map_eq_some_iff]
  constructor
  · rintro ⟨⟨units, rest'⟩, hunits, hjoin⟩
    obtain ⟨hs, rfl⟩ := Prod.mk.inj hjoin
    obtain ⟨body, rfl, hbody⟩ := scanUnits_eq_some_iff.mp hunits
    obtain ⟨chars, hchars, rfl⟩ := Option.map_eq_some_iff.mp hs
    refine ⟨body, rfl, units, hbody, ?_⟩
    rw [String.toList_ofList]
    exact joinUnits_eq_some_iff.mp hchars
  · rintro ⟨body, rfl, units, hbody, hjoined⟩
    refine ⟨(units, rest), scanUnits_eq_some_iff.mpr ⟨body, rfl, hbody⟩, ?_⟩
    dsimp only
    rw [joinUnits_eq_some_iff.mpr hjoined, Option.map_some, String.ofList_toList]

/-! ## Lengths -/

theorem Units.length_le {body : List Char} {units : List Nat} (h : Units body units) :
    units.length ≤ body.length := by
  induction h with
  | nil => exact Nat.le_refl _
  | plain _ _ _ _ ih => exact Nat.succ_le_succ ih
  | letter _ _ ih =>
      simp only [List.length_cons]
      omega
  | digits _ _ ih =>
      simp only [List.length_cons]
      omega

theorem Joined.length_le {units : List Nat} {cs : List Char} (h : Joined units cs) :
    cs.length ≤ units.length := by
  induction h with
  | nil => exact Nat.le_refl _
  | plain _ _ _ ih => exact Nat.succ_le_succ ih
  | pair _ _ _ ih =>
      simp only [List.length_cons]
      omega

theorem Literal.length_le {body : List Char} {s : String} (h : Literal body s) :
    s.toList.length ≤ body.length := by
  obtain ⟨units, hunits, hjoined⟩ := h
  exact Nat.le_trans hjoined.length_le hunits.length_le

/-! ## The printer -/

theorem unit?_control : ∀ n < 32,
    unit? '0' '0' (Nat.digitChar (n / 16)) (Nat.digitChar (n % 16)) = some n := by decide

theorem units_escapeChars (c : Char) {body : List Char} {units : List Nat} (h : Units body units) :
    Units (escapeChars c ++ body) (c.toNat :: units) := by
  have hletter : ∀ {d e : Char}, c = e → escapeChar? d = some e →
      Units ('\\' :: d :: body) (c.toNat :: units) := by
    rintro d e rfl he
    exact .letter he h
  unfold escapeChars
  split
  · exact hletter ‹_› rfl
  rename_i hquote
  split
  · exact hletter ‹_› rfl
  rename_i hslash
  split
  · exact hletter ‹_› rfl
  split
  · exact hletter ‹_› rfl
  split
  · exact hletter ‹_› rfl
  split
  · exact hletter ‹_› rfl
  split
  · exact hletter ‹_› rfl
  split
  · rename_i hcontrol
    exact .digits (unit?_control c.toNat hcontrol) h
  · rename_i hcontrol
    exact .plain hquote hslash hcontrol h

theorem units_flatMap_escapeChars (cs : List Char) :
    Units (cs.flatMap escapeChars) (cs.map Char.toNat) := by
  induction cs with
  | nil => exact .nil
  | cons c cs ih =>
      rw [List.flatMap_cons]
      exact units_escapeChars c ih

theorem joined_map_toNat (cs : List Char) : Joined (cs.map Char.toNat) cs := by
  induction cs with
  | nil => exact .nil
  | cons c cs ih =>
      -- The numbers between the two halves of the range of characters are those of no character.
      have hvalid : c.toNat < 0xD800 ∨ 0xDFFF < c.toNat ∧ c.toNat < 0x110000 := c.valid
      have hhigh : isHighSurrogate c.toNat = false := by
        simp only [isHighSurrogate, Bool.and_eq_false_iff, decide_eq_false_iff_not]
        omega
      have hlow : isLowSurrogate c.toNat = false := by
        simp only [isLowSurrogate, Bool.and_eq_false_iff, decide_eq_false_iff_not]
        omega
      have hjoined := Joined.plain hhigh hlow ih
      rwa [Char.ofNat_toNat] at hjoined

theorem literal_escapeChars (s : String) : Literal (s.toList.flatMap escapeChars) s :=
  ⟨_, units_flatMap_escapeChars _, joined_map_toNat _⟩

theorem scanString_stringChars (s : String) (rest : List Char) :
    scanString (s.toList.flatMap escapeChars ++ '"' :: rest) = some (some s, rest) :=
  scanString_eq_some_iff.mpr ⟨_, rfl, literal_escapeChars s⟩

end Parley.Json
