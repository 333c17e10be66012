import Parley.Text.Target
import Parley.Ticket.Basic

/-!
# Client settings

Where a client finds its server, and the two addresses that it makes from that: one for tickets and
one for the socket. The ticket is escaped in the socket's address, so that no character of it can
end the query.

An address may be of no use: it can be too long, or hold a character where it may not stand. The
address for tickets is repaired where it can be, the one for the socket is taken as it stands.
-/

namespace Parley

structure ClientConfig where
  /-- Host, with a port if it is not the usual one. -/
  host : String := "localhost"
  secure : Bool := true
  ticketPath : String := "/api/v1/sock/ticket"
  socketPath : String := "/sock"
  /-- Milliseconds between a lost connection and the next attempt during a call. -/
  reconnectDelay : Nat := 2000
  pageSize : UInt32 := 10
  /-- Sent with the request for a ticket. -/
  bearerToken : Option String := none
  deriving DecidableEq, Repr, Inhabited

namespace ClientConfig

/-- The longest address that is of use, in bytes. -/
def addressLimit : Nat := 65534

/-- What an address asks its host for; none if the address is too long. -/
def targetWithin? (origin : String) (tail : Text.Tail) : Option String :=
  if origin.utf8ByteSize + tail.size ≤ addressLimit then some tail.target else none

def ticketOrigin (c : ClientConfig) : String :=
  (if c.secure then "https" else "http") ++ "://" ++ c.host

def ticketUrl (c : ClientConfig) : String := c.ticketOrigin ++ c.ticketPath

/-- What the host is asked for a ticket; none if the address is of no use. -/
def ticketTarget? (c : ClientConfig) : Option String :=
  Text.Tail.repaired? c.ticketPath >>= targetWithin? c.ticketOrigin

def socketOrigin (c : ClientConfig) : String :=
  (if c.secure then "wss" else "ws") ++ "://" ++ c.host

/-- What follows the host in the address of the socket. -/
def socketTail (c : ClientConfig) (t : Ticket) : String :=
  c.socketPath ++ "?ticket=" ++ Text.Percent.encode t.text

def socketUrl (c : ClientConfig) (t : Ticket) : String := c.socketOrigin ++ c.socketTail t

/-- What the host is asked for a socket; none if the address is of no use. -/
def socketTarget? (c : ClientConfig) (t : Ticket) : Option String :=
  Text.Tail.verbatim? (c.socketTail t) >>= targetWithin? c.socketOrigin

end ClientConfig

end Parley
