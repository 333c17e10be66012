import Parley.Call.Basic

/-!
# Negotiation

Offers and answers on the links of a call. When offers cross, the side with the lower connection id
withdraws its own offer, with the candidates that were gathered for it, and answers; the other side
passes over the offer it receives and waits for that answer.
-/

namespace Parley.Call

variable {κ : Type} [Connection κ]

/-- Puts a link back whose connection did something, and has its reports delivered. -/
def putReported {α : Type} (remote : String) (l : Link κ) (o : Reply κ α) (c : Call κ) : Step κ :=
  (c.put remote { l with peer := o.after }, o.events.map fun e => .report (l.tag e))

/-- Sends an offer on the link to a participant. -/
def offer (s : Setting κ) (remote : String) (c : Call κ) : Step κ :=
  match c.ensure s remote with
  | (none, c, effects) => (c, effects)
  | (some l, c, effects) =>
    let o := Connection.offer l.peer
    Step.andThen (c, effects) fun c =>
      match o.result with
      | .error _ => c.putReported remote l o
      | .ok d => (c.putReported remote l.negotiate o).andThen fun c => (c, [sendDescription remote d])

def invite (s : Setting κ) (remote : String) (c : Call κ) : Step κ :=
  match c.ensure s remote with
  | (none, c, effects) => (c, effects)
  | (some _, c, effects) => (c, effects ++ [.send (.startStream (some remote))])

/-- Whether this client withdraws its offer when it crosses one of the participant. -/
def yieldsTo (s : Setting κ) (remote : String) : Bool :=
  match s.me with
  | some me => me < remote
  | none => true

/-- Puts a link back and sends the candidates that it let out. -/
def putReady (remote : String) (l : Link κ × List Candidate) (c : Call κ) : Step κ :=
  (c.put remote l.1, l.2.map (sendCandidate remote))

/-- Applies a description to a link, and sends the answer if there is one and then the candidates
that may be sent now. -/
def applyDescription (remote : String) (l : Link κ) (d : Description) (c : Call κ) : Step κ :=
  let o := Connection.apply l.peer d
  (c.putReported remote l o).andThen fun c =>
    match o.result with
    | .error _ => (c, [])
    | .ok answer =>
      Step.andThen (c, answer.toList.map (sendDescription remote))
        (putReady remote { l with peer := o.after }.flush)

def receiveOffer (s : Setting κ) (remote : String) (d : Description) (c : Call κ) : Step κ :=
  match c.ensure s remote with
  | (none, c, effects) => (c, effects)
  | (some l, c, effects) =>
    let crossing := Connection.signaling l.peer = .haveLocalOffer
    if crossing ∧ yieldsTo s remote = false then (c, effects)
    else
      let l := (if crossing then l.forget.1 else l).negotiate
      Step.andThen (c, effects) (applyDescription remote l d)

/-- A description that is no offer arrived; it counts only while an offer of ours is out. -/
def receiveAnswer (remote : String) (d : Description) (c : Call κ) : Step κ :=
  match c.links.find? remote with
  | none => (c, [])
  | some l =>
    if Connection.signaling l.peer ≠ .haveLocalOffer then (c, [])
    else c.applyDescription remote l d

def receiveDescription (s : Setting κ) (remote : String) (d : Description) (c : Call κ) : Step κ :=
  if d.isOffer then c.receiveOffer s remote d else c.receiveAnswer remote d

/-- A participant's candidate arrived; a link that cannot use it drops it. -/
def receiveCandidate (remote : String) (candidate : Candidate) (c : Call κ) : Step κ :=
  match c.links.find? remote with
  | none => (c, [])
  | some l =>
    if !l.admits then (c, [])
    else c.putReported remote l (Connection.addCandidate l.peer candidate)

end Parley.Call
