import Parley.Decimal.Binary

/-!
# The shortest decimal that reads back

Every number of a binary format stands for an interval of reals: those that round to it. Its decimal
text is taken from the coarsest decimal grid that has a point in that interval, and of two such
points the nearer one, so that no shorter text names the same number.

The interval of `m * 2 ^ e` reaches half a step to both sides, or a quarter of a step downwards
where the steps below are half as wide. Its ends belong to it when `m` is even.
-/

namespace Parley.Decimal

/-- Digits and the power of ten of the last of them. -/
structure Digits where
  digits : Nat
  exponent : Int
  deriving DecidableEq, Repr

/-- The interval of a number, in quarter steps: `low`, `value` and `high` over one denominator. -/
structure Interval where
  low : Nat
  value : Nat
  high : Nat
  den : Nat
  closed : Bool
  deriving DecidableEq, Repr

def intervalOf (f : Format) (m : Nat) (e : Int) : Interval :=
  let up := Nat.pow 2 (e - 2).toNat
  let low := if m = Nat.pow 2 (f.precision - 1) ∧ f.least < e then 4 * m - 1 else 4 * m - 2
  ⟨low * up, 4 * m * up, (4 * m + 2) * up, Nat.pow 2 (2 - e).toNat, m % 2 = 0⟩

/-- The same interval counted in units of ten to the `k`. -/
def Interval.inUnits (i : Interval) (k : Int) : Interval :=
  let up := Nat.pow 10 (-k).toNat
  ⟨i.low * up, i.value * up, i.high * up, i.den * Nat.pow 10 k.toNat, i.closed⟩

/-- Whether the natural `n` lies in the interval. -/
def Interval.holds (i : Interval) (n : Nat) : Bool :=
  let x := n * i.den
  if i.closed then i.low ≤ x && x ≤ i.high else i.low < x && x < i.high

/-- The natural in the interval that is nearest to its value; the even one of two equally near. -/
def Interval.nearest? (i : Interval) : Option Nat :=
  let below := i.value / i.den
  let near := nearestQuotient i.value i.den
  let far := if near = below then below + 1 else below
  if i.holds near then some near
  else if i.holds far then some far
  else none

/-- The first hit on the grids `10 ^ k`, `10 ^ (k - 1)`, and so on; on the last grid the point
nearest to the value. -/
def firstHit (i : Interval) : Nat → Int → Digits
  | 0, k => ⟨nearestQuotient (i.inUnits k).value (i.inUnits k).den, k⟩
  | steps + 1, k =>
    match (i.inUnits k).nearest? with
    | some n => ⟨n, k⟩
    | none => firstHit i steps (k - 1)

/-- An exponent of ten above a number below `2 ^ bits`. -/
def decimalBound (bits : Int) : Int :=
  if 0 ≤ bits then bits * 30103 / 100000 + 1 else bits * 30102 / 100000 + 1

/-- The shortest digits of `m * 2 ^ e` in the format `f`, for a positive `m`. -/
def shortest (f : Format) (m : Nat) (e : Int) : Digits :=
  firstHit (intervalOf f m e) (f.precision + 2) (decimalBound (m.log2 + 1 + e))

/-! ## Text -/

/-- Where a decimal is written without an exponent: its point stands more than `after` and at
most `upTo` places to the right of the first digit. -/
structure Layout where
  after : Int
  upTo : Int
  deriving DecidableEq, Repr

def zeros (n : Nat) : List Char := List.replicate n '0'

def digitChars (n : Nat) : List Char := Nat.toDigits 10 n

def exponentChars (e : Int) : List Char :=
  'e' :: (if 0 ≤ e then '+' else '-') :: digitChars e.natAbs

/-- The text of a decimal, always with a point or an exponent. -/
def Layout.chars (l : Layout) (d : Digits) : List Char :=
  let ds := digitChars d.digits
  let point : Int := ds.length + d.exponent
  if l.after < point ∧ point ≤ l.upTo then
    if 0 ≤ d.exponent then ds ++ zeros d.exponent.toNat ++ ['.', '0']
    else if 0 < point then ds.take point.toNat ++ '.' :: ds.drop point.toNat
    else '0' :: '.' :: zeros (-point).toNat ++ ds
  else
    match ds with
    | [] => []
    | [d] => d :: exponentChars (point - 1)
    | d :: more => d :: '.' :: more ++ exponentChars (point - 1)

/-- The text of a number; none for an infinity. Zero keeps its sign. -/
def Layout.charsOf? (l : Layout) {f : Format} : Binary f → Option (List Char)
  | .infinite _ => none
  | .finite negative m e =>
    let body := if m = 0 then ['0', '.', '0'] else l.chars (shortest f m e)
    some (if negative then '-' :: body else body)

end Parley.Decimal
