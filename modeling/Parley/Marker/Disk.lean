import Parley.Reconnect

/-!
# Marker files on a disk

A file store knows the path of its file and nothing else: what it loads and stores stands on the
disk. So stores for one path can be made at any time and used side by side. Whoever is given a store
calls it, and the reconnect policies with it, in any order.
-/

namespace Parley

/-- What stands at each path. -/
abbrev Disk := String → MarkerFile

/-- A store that keeps the marker in the file at a path. -/
structure FileStore where
  path : String
  deriving DecidableEq, Repr, Inhabited

/-- A disk as it is used through a file store. -/
structure Mount where
  store : FileStore
  disk : Disk

namespace Mount

def file (m : Mount) : MarkerFile := m.disk m.store.path

instance : MarkerStore Mount where
  load m := m.file.load
  store marker m :=
    { m with disk := fun path => if path = m.store.path then m.file.store marker else m.disk path }

end Mount

/-! ## Calls -/

/-- A call of a store, or of one of the policies with the store. -/
inductive MarkerCall where
  | load
  | store (m : Marker)
  | close (policy : Nat)
  | opened (policy : Nat)
  | focus (focused isOpen : Bool)
  | noticeShown (policy : Nat)
  deriving DecidableEq, Repr, Inhabited

inductive MarkerAnswer where
  | marker (m : Marker)
  | decision (d : CloseDecision)
  | notice (n : Option Notice)
  | shown (b : Bool)
  | done
  deriving DecidableEq, Repr, Inhabited

/-- The reconnect policies that share a marker, by number. -/
abbrev Policies := Nat → ReconnectPolicy

def Policies.set (ps : Policies) (n : Nat) (p : ReconnectPolicy) : Policies :=
  fun m => if m = n then p else ps m

namespace MarkerCall

variable {σ : Type} [MarkerStore σ]

def perform (c : MarkerCall) (ps : Policies) (s : σ) : MarkerAnswer × Policies × σ :=
  match c with
  | load => (.marker (MarkerStore.load s), ps, s)
  | store m => (.done, ps, MarkerStore.store m s)
  | close n =>
    let (decision, p, s) := (ps n).onClose s
    (.decision decision, ps.set n p, s)
  | opened n =>
    let (notice, p, s) := (ps n).onOpen s
    (.notice notice, ps.set n p, s)
  | focus focused isOpen => (.done, ps, ReconnectPolicy.onFocus focused isOpen s)
  | noticeShown n => (.shown (ps n).noticeShown, ps, s)

/-- Calls of one store, with their answers. -/
def run (ps : Policies) (s : σ) : List MarkerCall → List MarkerAnswer × Policies × σ
  | [] => ([], ps, s)
  | c :: rest =>
    let (answer, ps, s) := c.perform ps s
    let (answers, ps, s) := run ps s rest
    (answer :: answers, ps, s)

/-- Calls on a disk, each through a file store of its own, with their answers. -/
def runOnDisk (ps : Policies) (d : Disk) :
    List (FileStore × MarkerCall) → List MarkerAnswer × Policies × Disk
  | [] => ([], ps, d)
  | (files, c) :: rest =>
    let (answer, ps, m) := c.perform ps (⟨files, d⟩ : Mount)
    let (answers, ps, d) := runOnDisk ps m.disk rest
    (answer :: answers, ps, d)

end MarkerCall

end Parley
