import Parley.Decimal.Shortest
import Parley.Json.Value

/-!
# JSON text

Values are written without white space. In strings the quote, the backslash and the control
characters below U+0020 are escaped, five of them by a letter, the others by four hexadecimal
digits; all other characters stand for themselves.
-/

namespace Parley.Json

/-- Numbers of 64 bits keep a point up to sixteen digits before it and four zeros after it. -/
def doubleLayout : Decimal.Layout := ⟨-5, 16⟩

/-- Numbers of 32 bits keep a point up to thirteen digits before it and five zeros after it. -/
def singleLayout : Decimal.Layout := ⟨-6, 13⟩

def escapeChars (c : Char) : List Char :=
  if c = '"' then ['\\', '"']
  else if c = '\\' then ['\\', '\\']
  else if c = '\x08' then ['\\', 'b']
  else if c = '\t' then ['\\', 't']
  else if c = '\n' then ['\\', 'n']
  else if c = '\x0c' then ['\\', 'f']
  else if c = '\r' then ['\\', 'r']
  else if c < ' ' then
    ['\\', 'u', '0', '0', Nat.digitChar (c.toNat / 16), Nat.digitChar (c.toNat % 16)]
  else [c]

def stringChars (s : String) : List Char := '"' :: s.toList.flatMap escapeChars ++ ['"']

def nullChars : List Char := ['n', 'u', 'l', 'l']

def boolChars (b : Bool) : List Char :=
  if b then ['t', 'r', 'u', 'e'] else ['f', 'a', 'l', 's', 'e']

def integerChars (n : Int) : List Char :=
  if n < 0 then '-' :: Decimal.digitChars n.natAbs else Decimal.digitChars n.natAbs

/-- An infinity has no text of its own and is written as `null`. -/
def Number.chars : Number → List Char
  | .integer n => integerChars n
  | .double x => (doubleLayout.charsOf? x).getD nullChars
  | .single x => (singleLayout.charsOf? x).getD nullChars

mutual

def chars : Json → List Char
  | .null => nullChars
  | .bool b => boolChars b
  | .number n => n.chars
  | .string s => stringChars s
  | .array items => '[' :: itemsChars items
  | .object members => '{' :: membersChars members

/-- Items and the closing bracket. -/
def itemsChars : List Json → List Char
  | [] => [']']
  | x :: rest => chars x ++ moreItemsChars rest

/-- Items after the first, each with its comma, and the closing bracket. -/
def moreItemsChars : List Json → List Char
  | [] => [']']
  | x :: rest => ',' :: chars x ++ moreItemsChars rest

def membersChars : List (String × Json) → List Char
  | [] => ['}']
  | (k, x) :: rest => stringChars k ++ ':' :: chars x ++ moreMembersChars rest

def moreMembersChars : List (String × Json) → List Char
  | [] => ['}']
  | (k, x) :: rest => ',' :: stringChars k ++ ':' :: chars x ++ moreMembersChars rest

end

def render (j : Json) : String := String.ofList (chars j)

end Parley.Json
