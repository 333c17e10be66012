import Parley.Json.Tree
import Parley.Json.Value

/-!
# What a written number stands for

Digits are taken into a significand as long as it fits in 64 bits. Whole digits that no longer fit
only count as places, digits of the fraction that no longer fit are dropped. A number without point
and exponent whose digits all fit is an integer, if the integer fits in 64 bits with its sign;
everything else is a 64-bit binary number, minus zero among them.
-/

namespace Parley.Json

def significandLimit : Nat := 0xFFFFFFFFFFFFFFFF

/-- Takes in whole digits; the second part counts the digits that did not fit. -/
def takeWhole (acc : Nat) : List Nat → Nat × Nat
  | [] => (acc, 0)
  | d :: ds =>
    if acc * 10 + d ≤ significandLimit then takeWhole (acc * 10 + d) ds
    else (acc, ds.length + 1)

/-- Takes in digits of a fraction; `taken` and the second part count the digits that did fit. -/
def takeFraction (acc taken : Nat) : List Nat → Nat × Nat
  | [] => (acc, taken)
  | d :: ds =>
    if acc * 10 + d ≤ significandLimit then takeFraction (acc * 10 + d) (taken + 1) ds
    else (acc, taken)

/-- The largest exponent that is told from larger ones; the size of a number is out of reach long
before it. -/
def powerCap : Nat := 0x7FFFFFFF

/-- Takes in the digits of an exponent up to the largest. -/
def takePower (acc : Nat) : List Nat → Nat
  | [] => acc
  | d :: ds => if acc * 10 + d ≤ powerCap then takePower (acc * 10 + d) ds else powerCap

def Numeral.power (n : Numeral) : Int :=
  match n.exponent with
  | none => 0
  | some (negative, ds) => if negative then -(takePower 0 ds : Int) else takePower 0 ds

/-- The 64-bit number that a numeral is read as; none if it is too large. -/
def Numeral.double? (n : Numeral) : Option Double :=
  let (m, dropped) := takeWhole 0 n.whole
  let (m, taken) := takeFraction m 0 n.fraction
  Binary.ofDecimal? n.negative m ((dropped : Int) - taken + n.power)

/-- The integer that a numeral is read as, if it has neither point nor exponent and fits. -/
def Numeral.integer? (n : Numeral) : Option Int :=
  if n.fraction.isEmpty ∧ n.exponent.isNone then
    let (m, dropped) := takeWhole 0 n.whole
    if dropped ≠ 0 then none
    else if n.negative then
      if 0 < m ∧ m ≤ 0x8000000000000000 then some (-(m : Int)) else none
    else some m
  else none

def Numeral.number? (n : Numeral) : Option Number :=
  match n.integer? with
  | some i => some (.integer i)
  | none => n.double?.map .double

end Parley.Json
