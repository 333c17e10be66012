/-!
# Binary floating-point numbers

A number of a binary format is a sign and a significand times a power of two. All arithmetic here
is exact arithmetic on naturals with one rounding at the end, to the nearest number of the format
and on a tie to the even significand, so that what a payload's numbers mean does not hang on a
machine's floating-point unit.

`Binary.ofDecimal?` reads digits and a decimal exponent in two rounded steps: the digits first, then
one product or quotient with a rounded power of ten. That is not always the nearest number to the
decimal, but it is what a reader of this format computes.
-/

namespace Parley

/-- The shape of a binary format: the bits of a full significand, and the exponents of its
smallest and largest step. -/
structure Format where
  precision : Nat
  least : Int
  greatest : Int
  deriving DecidableEq, Repr

def Format.double : Format := ⟨53, -1074, 971⟩

def Format.single : Format := ⟨24, -149, 104⟩

/-- A number of the format `f`: `significand * 2 ^ exponent` with a sign, or an infinity. -/
inductive Binary (f : Format) where
  | finite (negative : Bool) (significand : Nat) (exponent : Int)
  | infinite (negative : Bool)
  deriving DecidableEq, Repr

abbrev Double := Binary .double

abbrev Single := Binary .single

/-- The natural nearest to `num / den`, on a tie the even one. -/
def nearestQuotient (num den : Nat) : Nat :=
  let q := num / den
  let r := num % den
  if 2 * r < den then q
  else if den < 2 * r then q + 1
  else if q % 2 = 0 then q
  else q + 1

/-- The quotient `num / den / 2 ^ e` as a fraction of naturals. -/
def shiftDown (num den : Nat) (e : Int) : Nat × Nat :=
  if 0 ≤ e then (num, den * Nat.pow 2 e.toNat) else (num * Nat.pow 2 (-e).toNat, den)

namespace Binary

variable {f : Format}

def negate : Binary f → Binary f
  | finite s m e => finite (!s) m e
  | infinite s => infinite (!s)

def isZero : Binary f → Bool
  | finite _ m _ => m = 0
  | infinite _ => false

/-- The number of the format nearest to `num / den`, with the given sign. -/
def ofRatio (f : Format) (negative : Bool) (num den : Nat) : Binary f :=
  if num = 0 then finite negative 0 f.least
  else
    let guess : Int := (num.log2 : Int) - den.log2 - f.precision
    let (n, d) := shiftDown num den guess
    let fit := if Nat.pow 2 f.precision * d ≤ n then guess + 1 else guess
    let e := max fit f.least
    let (n, d) := shiftDown num den e
    let m := nearestQuotient n d
    let (m, e) := if m = Nat.pow 2 f.precision then (Nat.pow 2 (f.precision - 1), e + 1) else (m, e)
    if f.greatest < e then infinite negative else finite negative m e

def ofNat (f : Format) (n : Nat) : Binary f := ofRatio f false n 1

def ofInt (f : Format) (n : Int) : Binary f := ofRatio f (n < 0) n.natAbs 1

/-- The size of a number as a fraction of naturals; an infinity has none. -/
def ratio? : Binary f → Option (Nat × Nat)
  | finite _ m e => some (if 0 ≤ e then (m * Nat.pow 2 e.toNat, 1) else (m, Nat.pow 2 (-e).toNat))
  | infinite _ => none

/-- The size of `x` times the ratio `num / den`, rounded; the sign of `x` is kept. -/
def scale (x : Binary f) (num den : Nat) : Binary f :=
  match x with
  | infinite s => infinite s
  | finite s m e =>
    if 0 ≤ e then ofRatio f s (m * Nat.pow 2 e.toNat * num) den
    else ofRatio f s (m * num) (Nat.pow 2 (-e).toNat * den)

/-- Ten to the `k`, rounded, as a fraction of naturals. -/
def powerOfTen (f : Format) (k : Nat) : Nat × Nat :=
  ((ofNat f (Nat.pow 10 k)).ratio?).getD (Nat.pow 10 k, 1)

def timesPower (x : Binary f) (k : Nat) : Binary f :=
  let (n, d) := powerOfTen f k
  x.scale n d

def overPower (x : Binary f) (k : Nat) : Binary f :=
  let (n, d) := powerOfTen f k
  x.scale d n

/-- The number of the format `g` nearest to `x`. -/
def convert (g : Format) : Binary f → Binary g
  | infinite s => infinite s
  | finite s m e =>
    if 0 ≤ e then ofRatio g s (m * Nat.pow 2 e.toNat) 1 else ofRatio g s m (Nat.pow 2 (-e).toNat)

/-! ## From digits and a decimal exponent -/

/-- The largest power of ten that is taken in one step. -/
def powerLimit : Nat := 308

/-- The number `x` divided by ten to the `k`, in steps of at most `powerLimit`; zero stays as it
is. -/
def overLargePower (x : Binary f) (k : Nat) : Binary f :=
  if k ≤ powerLimit then x.overPower k
  else if x.isZero then x
  else overLargePower (x.overPower powerLimit) (k - powerLimit)
  termination_by k
  decreasing_by simp only [powerLimit] at *; omega

/-- The 64-bit number read from `digits * 10 ^ exponent`; none if it is too large. -/
def ofDecimal? (negative : Bool) (digits : Nat) (exponent : Int) : Option Double :=
  let x := ofNat .double digits
  let size :=
    if 0 ≤ exponent then
      if exponent.toNat ≤ powerLimit then
        match x.timesPower exponent.toNat with
        | infinite _ => none
        | y => some y
      else if x.isZero then some x
      else none
    else some (x.overLargePower (-exponent).toNat)
  size.map fun y => if negative then y.negate else y

end Binary

end Parley
