import Parley.Json.Tree

/-!
# JSON tokens

A text is first cut into tokens: brackets, marks, the three words, numbers and strings. White space
between tokens is space, tab, line feed and carriage return. A number has no leading zeros, a digit
on both sides of its point and at least one digit in its exponent; a string holds no raw control
character.
-/

namespace Parley.Json

inductive Token where
  | openArray
  | closeArray
  | openObject
  | closeObject
  | comma
  | colon
  | null
  | bool (b : Bool)
  | number (n : Numeral)
  | string (s : Option String)
  deriving DecidableEq, Repr

def isSpace (c : Char) : Bool := c = ' ' || c = '\n' || c = '\t' || c = '\r'

def isDigit (c : Char) : Bool := '0' ≤ c && c ≤ '9'

def digitValue (c : Char) : Nat := c.toNat - 0x30

def hexValue? (c : Char) : Option Nat :=
  if isDigit c then some (digitValue c)
  else if 'a' ≤ c ∧ c ≤ 'f' then some (c.toNat - 0x61 + 10)
  else if 'A' ≤ c ∧ c ≤ 'F' then some (c.toNat - 0x41 + 10)
  else none

/-- The number that four hexadecimal digits spell. -/
def unit? (a b c d : Char) : Option Nat := do
  let a ← hexValue? a
  let b ← hexValue? b
  let c ← hexValue? c
  let d ← hexValue? d
  return ((a * 16 + b) * 16 + c) * 16 + d

def isHighSurrogate (n : Nat) : Bool := 0xD800 ≤ n && n ≤ 0xDBFF

def isLowSurrogate (n : Nat) : Bool := 0xDC00 ≤ n && n ≤ 0xDFFF

def pairChar (high low : Nat) : Char :=
  Char.ofNat (0x10000 + (high - 0xD800) * 0x400 + (low - 0xDC00))

/-- What a one-letter escape stands for. -/
def escapeChar? : Char → Option Char
  | '"' => some '"'
  | '\\' => some '\\'
  | '/' => some '/'
  | 'b' => some '\x08'
  | 'f' => some '\x0c'
  | 'n' => some '\n'
  | 'r' => some '\r'
  | 't' => some '\t'
  | _ => none

/-! ## Strings -/

/-- The rest of a string literal after its opening quote, as numbers of characters: an escape for
half a surrogate pair counts as a number of its own. `done` holds the numbers so far, last first. -/
def scanUnits (done : List Nat) : List Char → Option (List Nat × List Char)
  | [] => none
  | '"' :: rest => some (done.reverse, rest)
  | '\\' :: 'u' :: a :: b :: c :: d :: rest =>
    match unit? a b c d with
    | none => none
    | some n => scanUnits (n :: done) rest
  | '\\' :: c :: rest =>
    match escapeChar? c with
    | none => none
    | some e => scanUnits (e.toNat :: done) rest
  | c :: rest => if c < ' ' then none else scanUnits (c.toNat :: done) rest

/-- The characters with these numbers, surrogate pairs joined; none if half a pair is left over. -/
def joinUnits (done : List Char) : List Nat → Option (List Char)
  | [] => some done.reverse
  | n :: rest =>
    if isHighSurrogate n then
      match rest with
      | m :: more => if isLowSurrogate m then joinUnits (pairChar n m :: done) more else none
      | [] => none
    else if isLowSurrogate n then none
    else joinUnits (Char.ofNat n :: done) rest

/-- The rest of a string literal; the string is none if it cannot be read as text. -/
def scanString (cs : List Char) : Option (Option String × List Char) :=
  (scanUnits [] cs).map fun (units, rest) => ((joinUnits [] units).map String.ofList, rest)

theorem scanUnits_length {done units : List Nat} {cs rest : List Char}
    (h : scanUnits done cs = some (units, rest)) : rest.length < cs.length := by
  fun_induction scanUnits done cs <;> simp_all <;> omega

theorem scanString_length {cs rest : List Char} {s : Option String}
    (h : scanString cs = some (s, rest)) : rest.length < cs.length := by
  obtain ⟨⟨units, more⟩, hu, he⟩ := Option.map_eq_some_iff.1 h
  cases he
  exact scanUnits_length hu

/-! ## Numbers -/

/-- The leading digits of a text, and what follows them. -/
def scanDigits (cs : List Char) : List Nat × List Char :=
  ((cs.takeWhile isDigit).map digitValue, cs.dropWhile isDigit)

theorem length_dropWhile_le (p : Char → Bool) (cs : List Char) :
    (cs.dropWhile p).length ≤ cs.length :=
  (List.dropWhile_sublist p).length_le

theorem scanDigits_length (cs : List Char) : (scanDigits cs).2.length ≤ cs.length :=
  length_dropWhile_le _ _

/-- The fraction of a number, empty if there is none. -/
def scanFraction : List Char → Option (List Nat × List Char)
  | '.' :: rest =>
    match scanDigits rest with
    | ([], _) => none
    | (ds, more) => some (ds, more)
  | cs => some ([], cs)

theorem scanFraction_length {cs rest : List Char} {ds : List Nat}
    (h : scanFraction cs = some (ds, rest)) : rest.length ≤ cs.length := by
  unfold scanFraction at h
  split at h
  · rename_i body
    have hl := scanDigits_length body
    split at h
    · cases h
    · rename_i heq
      cases h
      rw [heq] at hl
      simp only [List.length_cons] at *
      omega
  · cases h
    exact Nat.le_refl _

/-- The digits of an exponent after its sign. -/
def scanPower (negative : Bool) (cs : List Char) :
    Option (Option (Bool × List Nat) × List Char) :=
  match scanDigits cs with
  | ([], _) => none
  | (ds, rest) => some (some (negative, ds), rest)

theorem scanPower_length {negative : Bool} {cs rest : List Char} {e : Option (Bool × List Nat)}
    (h : scanPower negative cs = some (e, rest)) : rest.length ≤ cs.length := by
  unfold scanPower at h
  have hl := scanDigits_length cs
  split at h
  · cases h
  · rename_i heq
    cases h
    rwa [heq] at hl

/-- The exponent of a number, if there is one. -/
def scanExponent : List Char → Option (Option (Bool × List Nat) × List Char)
  | c :: rest =>
    if c = 'e' ∨ c = 'E' then
      match rest with
      | '+' :: more => scanPower false more
      | '-' :: more => scanPower true more
      | _ => scanPower false rest
    else some (none, c :: rest)
  | [] => some (none, [])

theorem scanExponent_length {cs rest : List Char} {e : Option (Bool × List Nat)}
    (h : scanExponent cs = some (e, rest)) : rest.length ≤ cs.length := by
  unfold scanExponent at h
  split at h
  · split at h
    · split at h <;> have := scanPower_length h <;> simp only [List.length_cons] at * <;> omega
    · cases h
      exact Nat.le_refl _
  · cases h
    exact Nat.le_refl _

/-- Whether digits are a whole number without needless zeros. -/
def isWhole : List Nat → Bool
  | [] => false
  | [_] => true
  | d :: _ => d != 0

def scanNumeral (negative : Bool) (cs : List Char) : Option (Numeral × List Char) :=
  let (whole, rest) := scanDigits cs
  if isWhole whole then
    match scanFraction rest with
    | none => none
    | some (fraction, rest) =>
      match scanExponent rest with
      | none => none
      | some (exponent, rest) => some (⟨negative, whole, fraction, exponent⟩, rest)
  else none

theorem scanNumeral_length {negative : Bool} {cs rest : List Char} {n : Numeral}
    (h : scanNumeral negative cs = some (n, rest)) : rest.length ≤ cs.length := by
  unfold scanNumeral at h
  have hl := scanDigits_length cs
  simp only at h
  split at h
  · split at h
    · cases h
    · rename_i hf
      split at h
      · cases h
      · rename_i he
        cases h
        have := scanFraction_length hf
        have := scanExponent_length he
        omega
  · cases h

theorem scanNumeral_lt {negative : Bool} {c : Char} {cs rest : List Char} {n : Numeral}
    (h : scanNumeral negative (c :: cs) = some (n, rest)) : rest.length < (c :: cs).length := by
  by_cases hd : isDigit c = true
  · unfold scanNumeral at h
    have hs : (scanDigits (c :: cs)).2 = (scanDigits cs).2 := by
      simp [scanDigits, hd]
    have hl := scanDigits_length cs
    simp only at h
    split at h
    · split at h
      · cases h
      · rename_i hf
        split at h
        · cases h
        · rename_i he
          cases h
          have hf := scanFraction_length hf
          have he := scanExponent_length he
          rw [hs] at hf
          simp only [List.length_cons]
          omega
    · cases h
  · simp [scanNumeral, scanDigits, hd, isWhole] at h

/-! ## Texts -/

/-- The tokens of a text after those in `done`, which stand last first. -/
def scan (done : List Token) : List Char → Option (List Token)
  | [] => some done.reverse
  | '[' :: rest => scan (.openArray :: done) rest
  | ']' :: rest => scan (.closeArray :: done) rest
  | '{' :: rest => scan (.openObject :: done) rest
  | '}' :: rest => scan (.closeObject :: done) rest
  | ',' :: rest => scan (.comma :: done) rest
  | ':' :: rest => scan (.colon :: done) rest
  | 'n' :: 'u' :: 'l' :: 'l' :: rest => scan (.null :: done) rest
  | 't' :: 'r' :: 'u' :: 'e' :: rest => scan (.bool true :: done) rest
  | 'f' :: 'a' :: 'l' :: 's' :: 'e' :: rest => scan (.bool false :: done) rest
  | '"' :: rest =>
    match h : scanString rest with
    | none => none
    | some (s, more) => have := scanString_length h; scan (.string s :: done) more
  | '-' :: rest =>
    match h : scanNumeral true rest with
    | none => none
    | some (n, more) => have := scanNumeral_length h; scan (.number n :: done) more
  | c :: rest =>
    if isSpace c then scan done rest
    else
      match h : scanNumeral false (c :: rest) with
      | none => none
      | some (n, more) => have := scanNumeral_lt h; scan (.number n :: done) more
  termination_by cs => cs.length
  decreasing_by all_goals simp only [List.length_cons] at *; omega

def tokens? (s : String) : Option (List Token) := scan [] s.toList

end Parley.Json
