import Parley.Json.Grammar
import Parley.Json.Number
import Parley.Table

/-!
# Data that is passed through

Data whose meaning is left to others is kept as a value with the keys of every object in ascending
order; of members with one key the last counts. It may nest `depthLimit` deep, its strings must be
text and its numbers must fit.
-/

namespace Parley.Json

def depthLimit : Nat := 127

mutual

/-- The value of a tree, however deep; none if a string is no text or a number does not fit. -/
def ofTree? : Tree → Option Json
  | .null => some .null
  | .bool b => some (.bool b)
  | .number n => n.number?.map .number
  | .string s => s.map .string
  | .array items => (itemsOfTrees? items).map .array
  | .object members => (membersOfTrees? [] members).map .object

def itemsOfTrees? : List Tree → Option (List Json)
  | [] => some []
  | t :: rest => do
    let x ← ofTree? t
    let xs ← itemsOfTrees? rest
    return x :: xs

/-- Members put in their places among `done`. -/
def membersOfTrees? (done : List (String × Json)) :
    List (Option String × Tree) → Option (List (String × Json))
  | [] => some done
  | (k, t) :: rest => do
    let k ← k
    let x ← ofTree? t
    membersOfTrees? (Table.place k x done) rest

end

/-- The value of a tree that is kept. -/
def ofKeptTree? (t : Tree) : Option Json := if t.depth ≤ depthLimit then ofTree? t else none

def parse? (s : String) : Option Json := Tree.read? s >>= ofKeptTree?

end Parley.Json
