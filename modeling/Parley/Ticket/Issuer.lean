import Parley.Config
import Parley.Json.Record

/-!
# Asking for a ticket

The issuer is asked with one request, which carries the client's token if it has one, and answers
with a record whose field `ticket` is the text of a ticket. A token with a control character cannot
be sent, so that nothing is asked; nor is anything asked when the address is of no use.
-/

namespace Parley

structure TicketRequest where
  target : String
  authorization : Option String
  deriving DecidableEq, Repr

structure TicketResponse where
  status : Nat := 200
  body : String
  deriving DecidableEq, Repr

namespace TicketRequest

def line (r : TicketRequest) : String := "GET " ++ r.target ++ " HTTP/1.1"

/-- Whether a character may stand in the value of a header. -/
def fitsHeader (c : Char) : Bool := c == '\t' || (0x20 ≤ c.toNat && c.toNat != 0x7F)

/-- The request of a client; none if it cannot be written. -/
def ofConfig? (c : ClientConfig) : Option TicketRequest := do
  let target ← c.ticketTarget?
  match c.bearerToken with
  | none => some ⟨target, none⟩
  | some token =>
    if token.toList.all fitsHeader then some ⟨target, some ("Bearer " ++ token)⟩ else none

end TicketRequest

namespace TicketResponse

/-- Whether the status ends the exchange: it has three digits, and it does not merely announce a
further answer, as all below 200 do but one. -/
def isFinal (r : TicketResponse) : Bool :=
  r.status == 101 || (200 ≤ r.status && r.status < 1000)

def isSuccess (r : TicketResponse) : Bool := 200 ≤ r.status && r.status < 300

/-- An answer that has no content by its status. -/
def isBodiless (r : TicketResponse) : Bool := r.status == 204

def ticketText? (t : Json.Tree) : Option String :=
  match t.fields? ["ticket"] with
  | some ⟨_, [ticket]⟩ => Json.required Json.Tree.string? ticket
  | _ => none

def ticket (r : TicketResponse) : Except TicketError Ticket :=
  if !r.isFinal then .error .http
  else if !r.isSuccess then .error (.status r.status)
  else
    match Json.Tree.read? (if r.isBodiless then "" else r.body) >>= ticketText? with
    | none => .error .http
    | some text => Ticket.parse text

end TicketResponse

/-- Asks for a ticket: what was asked, and what came of it when the issuer gives this answer. -/
def askTicket (c : ClientConfig) (answer : TicketResponse) :
    Option TicketRequest × Except TicketError Ticket :=
  match TicketRequest.ofConfig? c with
  | none => (none, .error .http)
  | some r => (some r, answer.ticket)

end Parley
