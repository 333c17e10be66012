/-!
# Tickets

A ticket admits one socket. Its text is an opaque part and the connection id of the socket, with one
colon between them.
-/

namespace Parley

inductive TicketError where
  /-- The request failed or its answer could not be read. -/
  | http
  | status (code : Nat)
  | malformed (raw : String)
  | unavailable (reason : String)
  deriving DecidableEq, Repr

def TicketError.message : TicketError → String
  | http => "ticket request failed"
  | status n => "ticket endpoint answered " ++ toString n
  | malformed raw => "malformed ticket '" ++ raw ++ "'"
  | unavailable reason => "ticket issuer unavailable: " ++ reason

structure Ticket where
  secret : String
  connectionId : String
  deriving DecidableEq, Repr, Inhabited

namespace Ticket

def text (t : Ticket) : String := t.secret ++ ":" ++ t.connectionId

/-- Accepts exactly one colon with something on both sides. -/
def parse (raw : String) : Except TicketError Ticket :=
  let secret := raw.toList.takeWhile (· != ':')
  match raw.toList.dropWhile (· != ':') with
  | [] => .error (.malformed raw)
  | _ :: id =>
    if secret.isEmpty || id.isEmpty || id.contains ':' then .error (.malformed raw)
    else .ok ⟨String.ofList secret, String.ofList id⟩

end Ticket

end Parley
