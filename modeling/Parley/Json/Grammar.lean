import Parley.Json.Token

/-!
# From tokens to a tree

The grammar is read by a machine with a stack of the arrays and objects that are still open, so
nesting has no limit. `State.step` takes one token; a text is well-formed when the machine ends
with one complete value and nothing open.
-/

namespace Parley.Json

/-- An array or object that is still open, with what it holds so far, last first. -/
inductive Pending where
  | items (before : List Tree)
  | members (before : List (Option String × Tree)) (key : Option String)
  deriving Repr

inductive State where
  /-- A value. -/
  | value (stack : List Pending)
  /-- The first item of an array, or its end. -/
  | firstItem (stack : List Pending)
  /-- The first key of an object, or its end. -/
  | firstKey (stack : List Pending)
  /-- A key, after a comma. -/
  | key (before : List (Option String × Tree)) (stack : List Pending)
  /-- The colon after a key. -/
  | colon (before : List (Option String × Tree)) (key : Option String) (stack : List Pending)
  /-- A comma or the end of what is open, after a value. -/
  | after (t : Tree) (stack : List Pending)
  deriving Repr

/-- The state after the first token of a value. -/
def State.begin (stack : List Pending) : Token → Option State
  | .null => some (.after .null stack)
  | .bool b => some (.after (.bool b) stack)
  | .number n => some (.after (.number n) stack)
  | .string s => some (.after (.string s) stack)
  | .openArray => some (.firstItem stack)
  | .openObject => some (.firstKey stack)
  | _ => none

def State.step : State → Token → Option State
  | .value stack, t => State.begin stack t
  | .firstItem stack, .closeArray => some (.after (.array []) stack)
  | .firstItem stack, t => State.begin (.items [] :: stack) t
  | .firstKey stack, .closeObject => some (.after (.object []) stack)
  | .firstKey stack, .string k => some (.colon [] k stack)
  | .key before stack, .string k => some (.colon before k stack)
  | .colon before k stack, .colon => some (.value (.members before k :: stack))
  | .after t (.items before :: stack), .comma => some (.value (.items (t :: before) :: stack))
  | .after t (.items before :: stack), .closeArray =>
    some (.after (.array (t :: before).reverse) stack)
  | .after t (.members before k :: stack), .comma => some (.key ((k, t) :: before) stack)
  | .after t (.members before k :: stack), .closeObject =>
    some (.after (.object ((k, t) :: before).reverse) stack)
  | _, _ => none

/-- The value that the machine ends with. -/
def State.result? : State → Option Tree
  | .after t [] => some t
  | _ => none

def State.run (s : State) (ts : List Token) : Option State := ts.foldlM State.step s

def Tree.ofTokens? (ts : List Token) : Option Tree :=
  (State.value []).run ts >>= State.result?

/-- The tree of a JSON text; none if the text is no JSON. -/
def Tree.read? (s : String) : Option Tree := tokens? s >>= ofTokens?

end Parley.Json
