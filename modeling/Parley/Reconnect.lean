import Parley.Marker
import Parley.Notice

/-!
# When to reconnect

A connection that ends without a marker was meant to end. With an active marker the client tries
again after a delay and warns once in every outage; with a blurred one it tries at once, but only
once, for the marker is taken away. A connection that opens makes the marker active and ends the
outage.
-/

namespace Parley

inductive ReconnectAction where
  | stay
  | immediate
  | after (milliseconds : Nat)
  deriving DecidableEq, Repr, Inhabited

structure CloseDecision where
  action : ReconnectAction
  notice : Option Notice := none
  deriving DecidableEq, Repr, Inhabited

structure ReconnectPolicy where
  delay : Nat
  /-- Whether this outage has been warned of. -/
  noticeShown : Bool := false
  deriving DecidableEq, Repr, Inhabited

namespace ReconnectPolicy

variable {σ : Type} [MarkerStore σ]

/-- What to do after a connection ended or could not be made. -/
def onClose (p : ReconnectPolicy) (markers : σ) : CloseDecision × ReconnectPolicy × σ :=
  match MarkerStore.load markers with
  | .absent => (⟨.stay, none⟩, p, markers)
  | .blurred => (⟨.immediate, none⟩, p, MarkerStore.store .absent markers)
  | .active =>
    (⟨.after p.delay, if p.noticeShown then none else some .reconnecting⟩,
      { p with noticeShown := true }, markers)

def onOpen (p : ReconnectPolicy) (markers : σ) : Option Notice × ReconnectPolicy × σ :=
  (if p.noticeShown then some .reconnected else none, { p with noticeShown := false },
    MarkerStore.store .active markers)

/-- The window got or lost the focus. -/
def onFocus (focused isOpen : Bool) (markers : σ) : σ :=
  match focused, MarkerStore.load markers with
  | false, .active => MarkerStore.store .blurred markers
  | true, .blurred => if isOpen then MarkerStore.store .active markers else markers
  | _, _ => markers

end ReconnectPolicy

end Parley
