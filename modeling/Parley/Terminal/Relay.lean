import Parley.Json.Canonical
import Parley.Json.Printer
import Parley.Terminal.Basic
import Parley.Ticket.Issuer

/-!
# The relay

The program leaves the socket, the clock, the screen and the keyboard to a relay, with which it
exchanges lines. A line is a JSON array of texts: a word that says what happened or what is to be
done, and what belongs to it. After every line it takes in, the program handles all that waits, so
that the relay need not ask for it.
-/

namespace Parley.Terminal.Relay

variable {σ : Type} [MarkerStore σ]

inductive Report where
  | input (i : Input)
  | time (t : Stamp)
  deriving Repr

/-! ## Lines -/

def texts? (line : String) : Option (List String) :=
  Json.Tree.read? line >>= Json.Tree.listOf? Json.Tree.string?

/-- The answer of the issuer, with its status in decimal digits. -/
def ticketInput? (status body : String) : Option Client.Input :=
  (Frame.natOfDigits? status.toList).map fun n => .ticket (TicketResponse.ticket ⟨n, body⟩)

def report? (line : String) : Option Report :=
  match texts? line with
  | some ["line", text] => some (.input (.line text))
  | some ["eof"] => some (.input .eof)
  | some ["ticket", status, body] => (ticketInput? status body).map fun i => .input (.network i)
  | some ["ticket"] => some (.input (.network (.ticket (.error .http))))
  | some ["opened"] => some (.input (.network .opened))
  | some ["refused"] => some (.input (.network .refused))
  | some ["received", text] => some (.input (.network (.received (Text.bytes text))))
  | some ["lost"] => some (.input (.network .lost))
  | some ["elapsed"] => some (.input (.network .elapsed))
  | some ["time", text] => (Stamp.parse? text).map .time
  | _ => none

def line (words : List String) : String := (Json.array (words.map .string)).render

def outputLine : TerminalOutput → String
  | .print text => line ["print", text]
  | .warn text => line ["warn", text]

/-- What the relay is to do for the client. A request for a ticket that cannot be written is asked
for without its parts, and answered likewise; so is a socket whose address is of no use. -/
def effectLine? (config : ClientConfig) : ClientEffect → Option String
  | .askTicket =>
    some (match TicketRequest.ofConfig? config with
      | some ⟨target, some authorization⟩ => line ["ask", target, authorization]
      | some ⟨target, none⟩ => line ["ask", target]
      | none => line ["ask"])
  | .openSocket target => some (line ("open" :: target.toList))
  | .write text => some (line ["write", text])
  | .closeSocket => some (line ["close"])
  | .wait milliseconds => some (line ["wait", toString milliseconds])
  | .tell _ => none

/-! ## Steps -/

/-- A terminal after a step, and the lines for the relay. -/
abbrev Answer (σ : Type) := Terminal σ × List String

def act (i : Input) (a : Answer σ) : Answer σ :=
  match i with
  | .network i =>
    let (t, effects) := a.1.feed i
    (t, a.2 ++ effects.filterMap (effectLine? t.client.config))
  | i =>
    let (t, outputs) := a.1.step i
    (t, a.2 ++ outputs.map outputLine)

def catchUp (a : Answer σ) : Answer σ :=
  let a := Nat.repeat (act .told) a.1.told.length a
  let a := Nat.repeat (act .heard) a.1.mailCount a
  let a := Nat.repeat (act (.network .flush)) ((a.1.client.outbound.getD []).length) a
  if a.1.client.shutdown then act (.network .noticed) a else a

def answer (t : Terminal σ) : Report → Answer σ
  | .input i => catchUp (act i (t, []))
  | .time now => ({ t with client := { t.client with now } }, [])

def start (options : Options) (markers : σ) : Answer σ :=
  act (.network .connect) (Terminal.create options markers, [])

end Parley.Terminal.Relay
