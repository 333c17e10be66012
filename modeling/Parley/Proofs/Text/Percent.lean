import Parley.Text.Percent

/-!
# What is escaped can be read

An escaped text holds nothing but characters that stand for themselves and escapes, each with its
two digits (`Escaped`), whatever the text is. So no mark of an address can come from it, and reading
it gives the text back (`decode?_encode`).
-/

namespace Parley.Text.Percent

/-- A letter or digit of ASCII, or one of the four marks. -/
def IsPlain (c : Char) : Prop := c.isAlphanum = true ∨ c ∈ ['-', '_', '.', '~']

/-- An upper-case hexadecimal digit. -/
def IsHexDigit (c : Char) : Prop := c ∈ "0123456789ABCDEF".toList

/-- Characters that stand for themselves, and escapes. -/
inductive Escaped : List Char → Prop
  | nil : Escaped []
  | plain {c : Char} {rest : List Char} : IsPlain c → Escaped rest → Escaped (c :: rest)
  | escape {high low : Char} {rest : List Char} :
      IsHexDigit high → IsHexDigit low → Escaped rest → Escaped ('%' :: high :: low :: rest)

theorem hexValue_hexDigit : ∀ n < 16, hexValue (hexDigit n) = some n := by decide

theorem isHexDigit_hexDigit : ∀ n < 16, IsHexDigit (hexDigit n) := by
  unfold IsHexDigit
  decide

/-- A byte that stands for itself is a plain character of ASCII, and no percent sign. -/
theorem plain_of_isUnreserved {b : UInt8} (h : isUnreserved b = true) :
    IsPlain (Char.ofNat b.toNat) ∧ Char.ofNat b.toNat ≠ '%' ∧
      (Char.ofNat b.toNat).toNat = b.toNat ∧ b.toNat < 0x80 := by
  have hall : ∀ n < 256, isUnreserved (UInt8.ofNat n) = true →
      ((Char.ofNat n).isAlphanum = true ∨ Char.ofNat n ∈ ['-', '_', '.', '~']) ∧
        Char.ofNat n ≠ '%' ∧ (Char.ofNat n).toNat = n ∧ n < 0x80 := by decide +kernel
  exact hall b.toNat b.toNat_lt (UInt8.ofNat_toNat.symm ▸ h)

theorem escaped_append {cs ds : List Char} (hcs : Escaped cs) (hds : Escaped ds) :
    Escaped (cs ++ ds) := by
  induction hcs with
  | nil => exact hds
  | plain hc _ ih => exact .plain hc ih
  | escape hhigh hlow _ ih => exact .escape hhigh hlow ih

theorem digits_lt (b : UInt8) : b.toNat / 16 < 16 ∧ b.toNat % 16 < 16 := by
  have hb := b.toNat_lt
  omega

theorem escaped_encodeByte (b : UInt8) : Escaped (encodeByte b) := by
  obtain ⟨hhigh, hlow⟩ := digits_lt b
  unfold encodeByte
  split
  · rename_i h
    exact .plain (plain_of_isUnreserved h).1 .nil
  · exact .escape (isHexDigit_hexDigit _ hhigh) (isHexDigit_hexDigit _ hlow) .nil

/-- Nothing of an escaped text could be taken for a mark of an address. -/
theorem escaped_encode (s : String) : Escaped (encode s).toList := by
  rw [encode, String.toList_ofList]
  induction bytes s with
  | nil => exact .nil
  | cons b bs ih => exact escaped_append (escaped_encodeByte b) ih

theorem decodeBytes_cons {c : Char} (hc : c ≠ '%') (hascii : c.toNat < 0x80) (rest : List Char) :
    decodeBytes (c :: rest) = (decodeBytes rest).map (UInt8.ofNat c.toNat :: ·) := by
  rw [decodeBytes, if_neg (not_or.mpr ⟨hc, Nat.not_le.mpr hascii⟩)]
  rintro _ _ _ rfl
  exact (hc rfl).elim

theorem decodeBytes_encodeByte (b : UInt8) (rest : List Char) :
    decodeBytes (encodeByte b ++ rest) = (decodeBytes rest).map (b :: ·) := by
  unfold encodeByte
  split
  · rename_i h
    obtain ⟨-, hpercent, hsame, hascii⟩ := plain_of_isUnreserved h
    rw [List.singleton_append, decodeBytes_cons hpercent (hsame.symm ▸ hascii), hsame,
      UInt8.ofNat_toNat]
  · obtain ⟨hhigh, hlow⟩ := digits_lt b
    have hvalue : b.toNat / 16 * 16 + b.toNat % 16 = b.toNat := Nat.div_add_mod' ..
    change decodeBytes ('%' :: hexDigit (b.toNat / 16) :: hexDigit (b.toNat % 16) :: rest) = _
    rw [decodeBytes, hexValue_hexDigit _ hhigh, hexValue_hexDigit _ hlow]
    simp only [Option.bind_eq_bind, Option.bind_some, hvalue, UInt8.ofNat_toNat]
    cases decodeBytes rest <;> rfl

theorem decodeBytes_flatMap_encodeByte (bs : List UInt8) :
    decodeBytes (bs.flatMap encodeByte) = some bs := by
  induction bs with
  | nil => rfl
  | cons b bs ih => rw [List.flatMap_cons, decodeBytes_encodeByte, ih, Option.map_some]

/-- Escaping loses nothing. -/
theorem decode?_encode (s : String) : decode? (encode s) = some s := by
  rw [decode?, encode, String.toList_ofList, decodeBytes_flatMap_encodeByte, Option.bind_eq_bind,
    Option.bind_some, ofBytes?_bytes]

end Parley.Text.Percent
