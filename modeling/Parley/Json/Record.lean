import Parley.Json.Grammar
import Parley.Json.Number

/-!
# Records and choices in JSON

A record is an object with its fields by name, or an array with its fields in order. By name, fields
may stand in any order, unknown ones are skipped whatever they hold, and a field given twice is an
error; in order, an array may be shorter than the record but not longer. A choice is its name, or an
object whose only member has that name and holds `null`.
-/

namespace Parley.Json

/-- What a text gives for the fields of a record, in the order of the record's names. -/
structure Given where
  byName : Bool
  values : List (Option Tree)

/-- What the members say about one field; none if they name it twice. -/
def memberOf? (members : List (Option String × Tree)) (name : String) : Option (Option Tree) :=
  match members.filter (·.1 == some name) with
  | [] => some none
  | [(_, t)] => some (some t)
  | _ => none

def Tree.fields? (names : List String) : Tree → Option Given
  | .object members =>
    if members.all (·.1.isSome) then
      (names.mapM (memberOf? members)).map (Given.mk true)
    else none
  | .array items =>
    if items.length ≤ names.length then
      some ⟨false, items.map some ++ List.replicate (names.length - items.length) none⟩
    else none
  | _ => none

/-! ## Fields -/

def required {α : Type} (read : Tree → Option α) (given : Option Tree) : Option α := given >>= read

def withDefault {α : Type} (default : α) (read : Tree → Option α) : Option Tree → Option α
  | none => some default
  | some t => read t

def nullable {α : Type} (read : Tree → Option α) : Tree → Option (Option α)
  | .null => some none
  | t => (read t).map some

/-- A field that may be `null` or left out. -/
def optional {α : Type} (read : Tree → Option α) : Option Tree → Option (Option α) :=
  withDefault none (nullable read)

/-! ## Plain values -/

def Tree.string? : Tree → Option String
  | .string s => s
  | _ => none

def Tree.bool? : Tree → Option Bool
  | .bool b => some b
  | _ => none

/-- A whole number from 0 to `limit`. -/
def Tree.nat? (limit : Nat) : Tree → Option Nat
  | .number n =>
    match n.integer? with
    | some (.ofNat m) => if m ≤ limit then some m else none
    | _ => none
  | _ => none

def Tree.u8? (t : Tree) : Option UInt8 := (t.nat? 0xFF).map UInt8.ofNat

def Tree.u16? (t : Tree) : Option UInt16 := (t.nat? 0xFFFF).map UInt16.ofNat

def Tree.u32? (t : Tree) : Option UInt32 := (t.nat? 0xFFFFFFFF).map UInt32.ofNat

/-- A 32-bit number: an integer rounded once, any other number by way of 64 bits. -/
def Tree.single? : Tree → Option Single
  | .number n =>
    match n.integer? with
    | some i => some (Binary.ofInt .single i)
    | none => n.double?.map (Binary.convert .single)
  | _ => none

def Tree.listOf? {α : Type} (read : Tree → Option α) : Tree → Option (List α)
  | .array items => items.mapM read
  | _ => none

/-! ## Choices -/

def Tree.choice? {α : Type} (named : String → Option α) : Tree → Option α
  | .string (some s) => named s
  | .object [(some s, .null)] => named s
  | _ => none

end Parley.Json
