import Parley.Event.Basic
import Parley.Json.Canonical
import Parley.Json.Printer
import Parley.Text.Blank

/-!
# Payload texts

An event is written as the payload of a frame and read back under the action of that frame. Most
payloads are JSON. An event without content has an empty payload, and a payload of white space alone
is read as an empty record, or as `null` where the data is passed through. The id of a departed
socket is written as it is and read with or without the quotes of a JSON string.
-/

namespace Parley

def CallTarget.toJson (target : Option String) : Json :=
  .object (optionalMember "target" (target.map .string))

def CallTarget.ofTree? (t : Json.Tree) : Option (Option String) :=
  match t.fields? ["target"] with
  | some ⟨_, [target]⟩ => Json.optional Json.Tree.string? target
  | _ => none

namespace PageRequest

def toJson (p : PageRequest) : Json :=
  .object [("page", .ofNat p.page.toNat), ("pageSize", .ofNat p.pageSize.toNat)]

def ofTree? (t : Json.Tree) : Option PageRequest :=
  match t.fields? ["page", "pageSize"] with
  | some ⟨_, [page, size]⟩ => do
    let page ← Json.required Json.Tree.u32? page
    let size ← Json.required Json.Tree.u32? size
    return ⟨page, size⟩
  | _ => none

end PageRequest

namespace TextStyle

def jsonName : TextStyle → String
  | utterance => "utterance"
  | written => "written"

def title : TextStyle → String
  | utterance => "Utterance"
  | written => "Written"

def ofJsonName? (s : String) : Option TextStyle := [utterance, written].find? (·.jsonName = s)

end TextStyle

namespace TextMessage

def toJson (t : TextMessage) : Json :=
  .object [("message", .string t.message), ("style", .string t.style.jsonName)]

def ofTree? (t : Json.Tree) : Option TextMessage :=
  match t.fields? ["message", "style"] with
  | some ⟨_, [message, style]⟩ => do
    let message ← Json.required Json.Tree.string? message
    let style ← Json.withDefault .utterance (Json.Tree.choice? TextStyle.ofJsonName?) style
    return ⟨message, style⟩
  | _ => none

end TextMessage

namespace Event

/-- The participants of a roster by key; of members with one key the last counts. -/
def rosterOfMembers? (done : Table Participant) :
    List (Option String × Json.Tree) → Option (Table Participant)
  | [] => some done
  | (k, t) :: rest => do
    let k ← k
    let p ← Participant.ofTree? t
    rosterOfMembers? (done.insert k p) rest

def rosterOfTree? : Json.Tree → Option (Table Participant)
  | .object members => rosterOfMembers? .empty members
  | _ => none

def rosterToJson (r : Table Participant) : Json :=
  .object (r.toList.map fun e => (e.1, e.2.toJson))

/-! ## Writing -/

def targetPayload (target : Option String) : String :=
  match target with
  | none => ""
  | some _ => (CallTarget.toJson target).render

def dataPayload (data : Json) : String :=
  match data with
  | .null => ""
  | _ => data.render

def payload : Event → String
  | pingChannel t | startStream t | stopStream t | streamInquiry t => targetPayload t
  | departed id => id
  | loadMessages p => p.toJson.render
  | subscribers r => if r.isEmpty then "" else (rosterToJson r).render
  | text t => t.toJson.render
  | signal e => e.toJson.render
  | subscribeTopic d | subscribersPresent d | subscribeInit d | whiteboard _ d => dataPayload d
  | hasMoreMessages | subscribe | unsubscribe | roleCall => ""

/-! ## Reading -/

/-- The tree of a payload that is a record. -/
def recordTree? (payload : String) : Option Json.Tree :=
  if Text.isAllBlank payload then some (.object []) else Json.Tree.read? payload

def ofRecord (a : Action) (payload : String) {α : Type} (read : Json.Tree → Option α)
    (build : α → Event) : Except Error Event :=
  match recordTree? payload >>= read with
  | some x => .ok (build x)
  | none => .error (.badJson a)

/-- An event whose data is passed through. -/
def ofData (a : Action) (payload : String) (build : Json → Event) : Except Error Event :=
  if Text.isAllBlank payload then .ok (build .null)
  else
    match Json.parse? payload with
    | some j => .ok (build j)
    | none => .error (.badJson a)

/-- The id in a departure: the text of a JSON string, or else the payload itself. -/
def departedId (payload : String) : String :=
  match Json.Tree.read? payload with
  | some (.string (some s)) => s
  | _ => payload

/-- Reads a payload under the action of its frame. -/
def decode (a : Action) (payload : String) : Except Error Event :=
  match a with
  | .pingChannel => ofRecord a payload CallTarget.ofTree? .pingChannel
  | .startStream => ofRecord a payload CallTarget.ofTree? .startStream
  | .stopStream => ofRecord a payload CallTarget.ofTree? .stopStream
  | .streamInquiry => ofRecord a payload CallTarget.ofTree? .streamInquiry
  | .unsubscribeTopic => .ok (.departed (departedId payload))
  | .subscribeTopic => ofData a payload .subscribeTopic
  | .loadMessages => ofRecord a payload PageRequest.ofTree? .loadMessages
  | .hasMoreMessages => .ok .hasMoreMessages
  | .subscribe => .ok .subscribe
  | .unsubscribe => .ok .unsubscribe
  | .loadSubscribers => ofRecord a payload rosterOfTree? .subscribers
  | .subscribersPresent => ofData a payload .subscribersPresent
  | .text => ofRecord a payload TextMessage.ofTree? .text
  | .rtc => ofRecord a payload Envelope.ofTree? .signal
  | .setPosition | .setPage | .setScale | .setStroke | .drawLines | .shareFile | .changeSetting
  | .setSelectedText => ofData a payload (.whiteboard a)
  | .subscribeInit => ofData a payload .subscribeInit
  | .roleCall => .ok .roleCall

end Event

end Parley
