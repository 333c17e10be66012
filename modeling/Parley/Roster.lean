import Parley.Color
import Parley.Participant
import Parley.Table

/-!
# The roster of a topic

Who is or was in a topic, by scoped id. An entry is never removed: a participant who leaves is only
marked offline, so that names and colors survive for the lines of the chat. What is merged into a
known entry are its connections and whether it is online; everything else stays as it was first
seen, and the color is never taken from a record.
-/

namespace Parley

structure Roster where
  entries : Table Participant := .empty
  deriving DecidableEq, Repr, Inhabited

namespace Roster

def empty : Roster := {}

/-- The participants in the order of their scoped ids. -/
def toList (r : Roster) : List Participant := r.entries.values

def size (r : Roster) : Nat := r.entries.size

def isEmpty (r : Roster) : Bool := r.entries.isEmpty

def find? (r : Roster) (scid : String) : Option Participant := r.entries.find? scid

/-- The first participant, by scoped id, who holds the connection. -/
def byConnection? (r : Roster) (cid : String) : Option Participant :=
  r.toList.find? (·.hasConnection cid)

def online (r : Roster) : List Participant := r.toList.filter (·.online)

/-- The connections with the new ones among `more` after them. -/
def addConnections (cids more : List String) : List String :=
  more.foldl (fun cids c => if cids.contains c then cids else cids ++ [c]) cids

/-- A known entry after a record for it. -/
def update (entry record : Participant) : Participant :=
  { entry with cids := addConnections entry.cids record.cids, online := record.online }

/-- Takes in one record. The last part says whether it was new. -/
def mergeOne (palette : Palette) (r : Roster) (record : Participant) : Roster × Palette × Bool :=
  match r.find? record.scid with
  | some entry => (⟨r.entries.insert record.scid (update entry record)⟩, palette, false)
  | none =>
    let (color, palette) := palette.draw
    (⟨r.entries.insert record.scid { record with color := color.text }⟩, palette, true)

/-- Takes in records in turn; new entries get colors from the palette. Returns how many were new. -/
def merge (palette : Palette) (r : Roster) : List Participant → Roster × Palette × Nat
  | [] => (r, palette, 0)
  | record :: rest =>
    let (r, palette, isNew) := mergeOne palette r record
    let (r, palette, added) := merge palette r rest
    (r, palette, if isNew then added + 1 else added)

/-- Marks a participant offline; false if there is none. -/
def markOffline (r : Roster) (scid : String) : Roster × Bool :=
  match r.find? scid with
  | some entry => (⟨r.entries.insert scid { entry with online := false }⟩, true)
  | none => (r, false)

end Roster

end Parley
