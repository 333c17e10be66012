import Parley.Json.Record

/-!
# Signals between peers

Two peers agree on a media connection by exchanging session descriptions and candidates, each in an
envelope addressed to one peer. Field names are those of the browser interface, so that web peers
can read them; parts that are absent are not written.
-/

namespace Parley

inductive DescriptionKind where
  | offer
  | provisional
  | answer
  | rollback
  deriving DecidableEq, Repr, Inhabited

namespace DescriptionKind

def jsonName : DescriptionKind → String
  | offer => "offer"
  | provisional => "pranswer"
  | answer => "answer"
  | rollback => "rollback"

def title : DescriptionKind → String
  | offer => "Offer"
  | provisional => "Pranswer"
  | answer => "Answer"
  | rollback => "Rollback"

def all : List DescriptionKind := [offer, provisional, answer, rollback]

def ofJsonName? (s : String) : Option DescriptionKind := all.find? (·.jsonName = s)

end DescriptionKind

structure Description where
  kind : DescriptionKind
  sdp : String
  deriving DecidableEq, Repr, Inhabited

namespace Description

def isOffer (d : Description) : Bool := d.kind = .offer

def toJson (d : Description) : Json :=
  .object [("type", .string d.kind.jsonName), ("sdp", .string d.sdp)]

def ofTree? (t : Json.Tree) : Option Description :=
  match t.fields? ["type", "sdp"] with
  | some ⟨_, [kind, sdp]⟩ => do
    let kind ← Json.required (Json.Tree.choice? DescriptionKind.ofJsonName?) kind
    let sdp ← Json.required Json.Tree.string? sdp
    return ⟨kind, sdp⟩
  | _ => none

end Description

structure Candidate where
  candidate : String
  sdpMid : Option String := none
  sdpMLineIndex : Option UInt16 := none
  usernameFragment : Option String := none
  deriving DecidableEq, Repr, Inhabited

/-- A member that is written only if it is there. -/
def optionalMember (name : String) (value : Option Json) : List (String × Json) :=
  (value.map fun v => (name, v)).toList

def Json.ofNat (n : Nat) : Json := .number (.integer n)

namespace Candidate

def toJson (c : Candidate) : Json :=
  .object (("candidate", .string c.candidate) ::
    (optionalMember "sdpMid" (c.sdpMid.map .string) ++
      optionalMember "sdpMLineIndex" (c.sdpMLineIndex.map fun n => .ofNat n.toNat) ++
      optionalMember "usernameFragment" (c.usernameFragment.map .string)))

def ofTree? (t : Json.Tree) : Option Candidate :=
  match t.fields? ["candidate", "sdpMid", "sdpMLineIndex", "usernameFragment"] with
  | some ⟨_, [candidate, mid, index, fragment]⟩ => do
    let candidate ← Json.required Json.Tree.string? candidate
    let mid ← Json.optional Json.Tree.string? mid
    let index ← Json.optional Json.Tree.u16? index
    let fragment ← Json.optional Json.Tree.string? fragment
    return ⟨candidate, mid, index, fragment⟩
  | _ => none

end Candidate

/-- A description or a candidate for one peer. -/
structure Envelope where
  target : Option String := none
  sdp : Option Description := none
  ice : Option Candidate := none
  deriving DecidableEq, Repr, Inhabited

namespace Envelope

def ofDescription (target : String) (d : Description) : Envelope :=
  { target := some target, sdp := some d }

def ofCandidate (target : String) (c : Candidate) : Envelope :=
  { target := some target, ice := some c }

def toJson (e : Envelope) : Json :=
  .object (optionalMember "target" (e.target.map .string) ++
    optionalMember "sdp" (e.sdp.map Description.toJson) ++
    optionalMember "ice" (e.ice.map Candidate.toJson))

def ofTree? (t : Json.Tree) : Option Envelope :=
  match t.fields? ["target", "sdp", "ice"] with
  | some ⟨_, [target, sdp, ice]⟩ => do
    let target ← Json.optional Json.Tree.string? target
    let sdp ← Json.optional Description.ofTree? sdp
    let ice ← Json.optional Candidate.ofTree? ice
    return ⟨target, sdp, ice⟩
  | _ => none

end Envelope

end Parley
