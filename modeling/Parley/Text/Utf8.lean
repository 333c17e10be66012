/-!
# Bytes of a text

A text travels as its UTF-8 bytes. `bytes` and `ofBytes?` go one way and back; `ofBytesLossy`
shows bytes that need not be valid, with U+FFFD for each longest run of bytes that could have
begun a character.
-/

namespace Parley.Text

def bytes (s : String) : List UInt8 := s.toByteArray.data.toList

/-- The text with these UTF-8 bytes, if they are valid. -/
def ofBytes? (bs : List UInt8) : Option String := String.fromUTF8? ⟨bs.toArray⟩

theorem ofBytes?_bytes (s : String) : ofBytes? (bytes s) = some s := by
  have h : (⟨(bytes s).toArray⟩ : ByteArray) = s.toByteArray := by
    simp [bytes]
  rw [ofBytes?, h, String.fromUTF8?, dif_pos s.isValidUTF8]
  rfl

theorem bytes_of_ofBytes? {bs : List UInt8} {s : String} (h : ofBytes? bs = some s) :
    bytes s = bs := by
  rw [ofBytes?, String.fromUTF8?] at h
  split at h
  · cases h
    exact List.toList_toArray
  · cases h

theorem bytes_append (s t : String) : bytes (s ++ t) = bytes s ++ bytes t := by
  simp [bytes, String.toByteArray_append]

theorem bytes_length (s : String) : (bytes s).length = s.utf8ByteSize := by
  rw [bytes, Array.length_toList]
  rfl

/-! ## Showing bytes that need not be valid -/

def isContinuation (b : UInt8) : Bool := 0x80 ≤ b && b ≤ 0xBF

/-- The bytes that may follow a leading byte; the bounds leave out overlong forms, surrogates
and numbers above U+10FFFF. -/
def secondFits (lead second : UInt8) : Bool :=
  if lead == 0xE0 then 0xA0 ≤ second && second ≤ 0xBF
  else if lead == 0xED then 0x80 ≤ second && second ≤ 0x9F
  else if lead == 0xF0 then 0x90 ≤ second && second ≤ 0xBF
  else if lead == 0xF4 then 0x80 ≤ second && second ≤ 0x8F
  else isContinuation second

/-- How many bytes a character has that begins with this byte; 0 if none does. -/
def leadWidth (b : UInt8) : Nat :=
  if b < 0x80 then 1
  else if 0xC2 ≤ b && b ≤ 0xDF then 2
  else if 0xE0 ≤ b && b ≤ 0xEF then 3
  else if 0xF0 ≤ b && b ≤ 0xF4 then 4
  else 0

def low6 (b : UInt8) : Nat := b.toNat % 64

/-- The first character of `a :: rest` and how many bytes of `rest` belong to it: U+FFFD with the
bytes up to the first that cannot follow, if the bytes are ill-formed. -/
def firstChar (a : UInt8) (rest : List UInt8) : Char × Nat :=
  match leadWidth a, rest with
  | 1, _ => (Char.ofNat a.toNat, 0)
  | 2, b :: _ =>
    if isContinuation b then (Char.ofNat (a.toNat % 32 * 64 + low6 b), 1) else ('\uFFFD', 0)
  | 3, b :: more =>
    if !secondFits a b then ('\uFFFD', 0)
    else match more with
      | c :: _ =>
        if isContinuation c then
          (Char.ofNat ((a.toNat % 16 * 64 + low6 b) * 64 + low6 c), 2)
        else ('\uFFFD', 1)
      | [] => ('\uFFFD', 1)
  | 4, b :: more =>
    if !secondFits a b then ('\uFFFD', 0)
    else match more with
      | c :: d :: _ =>
        if !isContinuation c then ('\uFFFD', 1)
        else if isContinuation d then
          (Char.ofNat (((a.toNat % 8 * 64 + low6 b) * 64 + low6 c) * 64 + low6 d), 3)
        else ('\uFFFD', 2)
      | [c] => ('\uFFFD', if isContinuation c then 2 else 1)
      | [] => ('\uFFFD', 1)
  | _, _ => ('\uFFFD', 0)

/-- The characters of `bs`, each ill-formed run replaced. -/
def lossyChars : List UInt8 → List Char
  | [] => []
  | a :: rest => (firstChar a rest).1 :: lossyChars (rest.drop (firstChar a rest).2)
  termination_by bs => bs.length
  decreasing_by simp only [List.length_drop, List.length_cons]; omega

/-- The bytes as a text, with U+FFFD where they are no valid UTF-8. -/
def ofBytesLossy (bs : List UInt8) : String := String.ofList (lossyChars bs)

end Parley.Text
