import Parley.Json.Record

/-!
# Participants

One entry of a topic's roster. A participant has a scoped id, which stays the same in a topic, and
the ids of the connections (devices, tabs) that are behind it now.
-/

namespace Parley

structure Participant where
  scid : String := ""
  cids : List String := []
  name : String := ""
  role : String := ""
  color : String := ""
  present : Bool := false
  online : Bool := false
  deriving DecidableEq, Repr, Inhabited

namespace Participant

def hasConnection (p : Participant) (cid : String) : Bool := p.cids.contains cid

def toJson (p : Participant) : Json :=
  .object [("scid", .string p.scid), ("cids", .array (p.cids.map .string)),
    ("name", .string p.name), ("role", .string p.role), ("color", .string p.color),
    ("exists", .bool p.present), ("online", .bool p.online)]

/-- Every field may be left out. -/
def ofTree? (t : Json.Tree) : Option Participant :=
  match t.fields? ["scid", "cids", "name", "role", "color", "exists", "online"] with
  | some ⟨_, [scid, cids, name, role, color, present, online]⟩ => do
    let scid ← Json.withDefault "" Json.Tree.string? scid
    let cids ← Json.withDefault [] (Json.Tree.listOf? Json.Tree.string?) cids
    let name ← Json.withDefault "" Json.Tree.string? name
    let role ← Json.withDefault "" Json.Tree.string? role
    let color ← Json.withDefault "" Json.Tree.string? color
    let present ← Json.withDefault false Json.Tree.bool? present
    let online ← Json.withDefault false Json.Tree.bool? online
    return { scid, cids, name, role, color, present, online }
  | _ => none

end Participant

end Parley
