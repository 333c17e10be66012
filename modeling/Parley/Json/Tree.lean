/-!
# The shape of a JSON text

A `Tree` is a JSON text after its grammar has been checked and before anything is made of it. It
keeps what later decides whether a value can be used: the digits of a number as they were written,
and whether a string holds an escape for half a surrogate pair. A reader that skips a member of a
record does not care about either, so these are no errors of the text.
-/

namespace Parley.Json

/-- A number as written: its sign and its digits. -/
structure Numeral where
  negative : Bool
  whole : List Nat
  fraction : List Nat
  /-- The digits after `e`, with whether a minus sign stands before them. -/
  exponent : Option (Bool × List Nat)
  deriving DecidableEq, Repr

/-- A JSON text. A string is `none` if it cannot be read as text. -/
inductive Tree where
  | null
  | bool (b : Bool)
  | number (n : Numeral)
  | string (s : Option String)
  | array (items : List Tree)
  | object (members : List (Option String × Tree))
  deriving Repr, Inhabited

mutual

def Tree.depth : Tree → Nat
  | .array items => 1 + depthOfItems items
  | .object members => 1 + depthOfMembers members
  | _ => 0

def depthOfItems : List Tree → Nat
  | [] => 0
  | t :: rest => max t.depth (depthOfItems rest)

def depthOfMembers : List (Option String × Tree) → Nat
  | [] => 0
  | (_, t) :: rest => max t.depth (depthOfMembers rest)

end

end Parley.Json
