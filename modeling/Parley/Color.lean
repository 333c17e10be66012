/-!
# Background colors

Every participant gets a color on which dark text can be read: one whose relative luminance is at
least one half. Luminance is the weighted sum of the three channels after the curve of the screen
has been undone, counted here in billionths and rounded down, so that the test is exact arithmetic.
-/

namespace Parley

/-- A color of 24 bits: red, green and blue from the top. -/
structure Color where
  rgb : Nat
  deriving DecidableEq, Repr, Inhabited

namespace Color

def white : Color := ⟨0xFFFFFF⟩

def red (c : Color) : Nat := c.rgb / 0x10000 % 0x100

def green (c : Color) : Nat := c.rgb / 0x100 % 0x100

def blue (c : Color) : Nat := c.rgb % 0x100

/-- A number sign and six hexadecimal digits. -/
def text (c : Color) : String :=
  String.ofList ('#' :: [0x100000, 0x10000, 0x1000, 0x100, 0x10, 1].map fun place =>
    Nat.digitChar (c.rgb / place % 16))

/-! ## Luminance -/

/-- The largest `r` below `acc + 2 ^ bits` with `r ^ k ≤ n`, if `acc ^ k ≤ n`. -/
def rootFrom (k n : Nat) : Nat → Nat → Nat
  | 0, acc => acc
  | bits + 1, acc =>
    let more := acc + Nat.pow 2 bits
    rootFrom k n bits (if Nat.pow more k ≤ n then more else acc)

/-- The `k`-th root, rounded down, of numbers whose root has at most 32 bits. -/
def root (k n : Nat) : Nat := rootFrom k n 32 0

def billion : Nat := 1000000000

/-- The light of a channel in billionths: a straight line for the darkest values, a power of 12/5
above them. -/
def light (channel : Nat) : Nat :=
  if channel ≤ 10 then channel * billion * 100 / (255 * 1292)
  else root 5 (Nat.pow (1000 * channel + 14025) 12 * Nat.pow billion 5 / Nat.pow 269025 12)

/-- The relative luminance in units of a ten-thousandth of a billionth. -/
def luminance (c : Color) : Nat := 2126 * light c.red + 7152 * light c.green + 722 * light c.blue

/-- Whether dark text can be read on the color. -/
def isLight (c : Color) : Bool := 5000 * billion ≤ c.luminance

/-- The first light color among the candidates, and how many were looked at; white if there is
none. -/
def firstLight : List Color → Color × Nat
  | [] => (white, 0)
  | c :: rest =>
    if c.isLight then (c, 1)
    else
      let (found, used) := firstLight rest
      (found, used + 1)

end Color

/-! ## A supply of colors -/

/-- A source of colors: a seed from which each next number is computed. -/
structure Palette where
  seed : Nat := 0
  deriving DecidableEq, Repr, Inhabited

namespace Palette

def next (p : Palette) : Palette :=
  ⟨(p.seed * 6364136223846793005 + 1442695040888963407) % 0x10000000000000000⟩

def color (p : Palette) : Color := ⟨p.seed / 0x10000000000⟩

def colors : Nat → Palette → List Color
  | 0, _ => []
  | n + 1, p => p.next.color :: colors n p.next

/-- The source after some colors were taken. -/
def advance : Nat → Palette → Palette
  | 0, p => p
  | n + 1, p => advance n p.next

/-- How many colors are tried before white is taken. -/
def patience : Nat := 64

/-- A light color, and the source after it. Unlike a search that goes on until some color is light,
this one gives up after `patience` colors and takes white. -/
def draw (p : Palette) : Color × Palette :=
  let found := Color.firstLight (p.colors patience)
  (found.1, p.advance found.2)

end Palette

end Parley
