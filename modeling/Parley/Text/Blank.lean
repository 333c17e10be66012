/-!
# White space

The white space of the Unicode property `White_Space`, and texts without the white space at
their ends. A marker file, a typed line and a payload that holds nothing but white space are
all read through `Text.trim`.
-/

namespace Parley.Text

/-- The characters of the Unicode property `White_Space`. -/
def isBlank (c : Char) : Bool :=
  let n := c.toNat
  (0x09 ≤ n && n ≤ 0x0D) || n == 0x20 || n == 0x85 || n == 0xA0 || n == 0x1680 ||
    (0x2000 ≤ n && n ≤ 0x200A) || n == 0x2028 || n == 0x2029 || n == 0x202F || n == 0x205F ||
    n == 0x3000

def dropBlank (cs : List Char) : List Char := cs.dropWhile isBlank

def trimChars (cs : List Char) : List Char :=
  (dropBlank (dropBlank cs).reverse).reverse

/-- The text without the white space at both ends. -/
def trim (s : String) : String := String.ofList (trimChars s.toList)

/-- Whether the text is empty or holds white space only. -/
def isAllBlank (s : String) : Bool := s.toList.all isBlank

end Parley.Text
