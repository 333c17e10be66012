import Parley.Chat
import Parley.Client.Supervisor
import Parley.Terminal.Options

/-!
# The terminal client

A terminal connects, joins one topic, prints what its session reports, and sends every typed line as
stored text, except for the commands: `/who` prints the roster, `/more` asks for older messages and
`/quit` leaves. It handles one thing at a time, in any order: an event of its session, an event of
its client, or a line.
-/

namespace Parley

inductive TerminalStage where
  | connecting
  /-- It is on its topic, with the session of this number. -/
  | joined (session : Nat)
  /-- It could not connect. -/
  | failed
  /-- It left and waits for its client to end. -/
  | leaving
  deriving DecidableEq, Repr, Inhabited

inductive TerminalOutput where
  | print (line : String)
  /-- A line for the error stream. -/
  | warn (line : String)
  deriving DecidableEq, Repr

structure Terminal (σ : Type) where
  options : Terminal.Options
  client : Client σ
  stage : TerminalStage := .connecting
  /-- Events of the client that were not handled. -/
  told : List ClientEvent := []
  log : ChatLog := {}

namespace Terminal

variable {σ : Type}

/-- A terminal after a step, and what it wrote. -/
abbrev Step (σ : Type) := Terminal σ × List TerminalOutput

def create (options : Options) (markers : σ) : Terminal σ :=
  { options, client := Client.create options.config markers }

/-! ## Texts -/

def entryLine (e : ChatEntry) : String :=
  let time := (e.timestamp.map Stamp.clockText).getD "--:--"
  let who := if e.name.isEmpty then e.sender else e.name
  (if e.historical then "·" else " ") ++ "[" ++ time ++ "] " ++ who ++ ": " ++ e.message

def rosterLines (r : Roster) : List String :=
  r.toList.map fun p => "  " ++ p.name ++ " (" ++ (if p.online then "online" else "away") ++ ")"

def noticeLine (n : Notice) : String := n.kind.title ++ ": " ++ n.message

def failureText (host message : String) : String :=
  "Error: connecting to " ++ host ++ "\n\nCaused by:\n    " ++ message

/-! ## Events of the client -/

/-- Handles an event of the client: the first connection joins the topic, and a notice that stays
before it ends the program. -/
def onTold (e : ClientEvent) (t : Terminal σ) : Step σ :=
  match t.stage, e with
  | .connecting, .connected _ =>
    let (index, client) := t.client.openSession t.options.topic t.options.pageSize
    ({ t with client, stage := .joined index }, [])
  | .connecting, .notice n =>
    if n.persistent then
      ({ t with stage := .failed }, [.warn (failureText t.options.host n.message)])
    else (t, [.warn (noticeLine n)])
  | .joined _, .notice n => (t, [.warn (noticeLine n)])
  | _, _ => (t, [])

/-! ## Events of the session -/

/-- The entry that a message has just added: a line of the backlog is on top, a live one at the
bottom. -/
def added? (log : ChatLog) (m : Message) : Option ChatEntry :=
  if m.historical then log.entries.head? else log.entries.getLast?

def onSession (s : Session) (e : SessionEvent) (t : Terminal σ) : Step σ :=
  let (log, changed) := t.log.apply e s.roster
  let t := { t with log }
  match e with
  | .subscribed => (t, [.print ("joined " ++ t.options.topic)])
  | .rosterUpdated r =>
    (t, .print (toString r.size ++ " in topic") :: (rosterLines r).map .print)
  | .participantLeft scid =>
    let name := ((s.roster.find? scid).map (·.name)).getD scid
    (t, [.print (name ++ " left")])
  | .moreHistory => (t, [.print "(older messages available: /more)"])
  | .message m =>
    if changed then (t, ((added? log m).map fun e => .print (entryLine e)).toList) else (t, [])

/-! ## Lines -/

variable [MarkerStore σ]

/-- Closes the session and asks the client to end. -/
def leave (session : Nat) (t : Terminal σ) : Terminal σ :=
  { t with client := (t.client.closeSession session).logout, stage := .leaving }

def showRoster (session : Nat) (t : Terminal σ) : List TerminalOutput :=
  (((t.client.sessions[session]?).map fun s => rosterLines s.roster).getD []).map .print

/-- Asks for older messages if there are any. -/
def more (session : Nat) (t : Terminal σ) : Step σ :=
  if ((t.client.sessions[session]?).map (·.moreAvailable)).getD false then
    ({ t with log := t.log.clearMore, client := (t.client.loadMore session).2 }, [])
  else (t, [.print "(no older messages)"])

def say (session : Nat) (text : String) (t : Terminal σ) : Step σ :=
  let (sent, client) := t.client.sendOn session true (.text ⟨text, .written⟩)
  ({ t with client }, if sent then [] else [.warn "not connected, message not sent"])

def onLine (session : Nat) (line : String) (t : Terminal σ) : Step σ :=
  match Text.trim line with
  | "" => (t, [])
  | "/quit" => (t.leave session, [])
  | "/who" => (t, t.showRoster session)
  | "/more" => t.more session
  | text => t.say session text

/-! ## Steps -/

/-- What the program handles, one at a time. -/
inductive Input where
  | network (i : Client.Input)
  /-- The next event of the client is handled. -/
  | told
  /-- The next event of the session is handled. -/
  | heard
  | line (s : String)
  | eof
  deriving Repr

/-- The next event of a session's first receiver, and the session without it. -/
def takeMail (s : Session) : Option (SessionEvent × Session) :=
  match s.receivers with
  | r :: others =>
    match r.mailbox with
    | e :: rest => some (e, { s with receivers := { r with mailbox := rest } :: others })
    | [] => none
  | [] => none

/-- Passes on what happens to the client; what it tells waits to be handled. -/
def feed (i : Client.Input) (t : Terminal σ) : Terminal σ × List ClientEffect :=
  let (client, effects) := t.client.step i
  let told := effects.filterMap fun
    | .tell e => some e
    | _ => none
  ({ t with client, told := t.told ++ told }, effects)

def step (t : Terminal σ) : Input → Step σ
  | .network i => ((t.feed i).1, [])
  | .told =>
    match t.told with
    | [] => (t, [])
    | e :: rest => ({ t with told := rest }).onTold e
  | .heard =>
    match t.stage with
    | .joined session =>
      match t.client.sessions[session]? >>= takeMail with
      | none => (t, [])
      | some (e, s) =>
        let client := t.client.updateSession session fun _ => s
        ({ t with client }).onSession s e
    | _ => (t, [])
  | .line s =>
    match t.stage with
    | .joined session => t.onLine session s
    | _ => (t, [])
  | .eof =>
    match t.stage with
    | .joined session => (t.leave session, [])
    | _ => (t, [])

/-- How many events of the session wait. -/
def mailCount (t : Terminal σ) : Nat :=
  match t.stage with
  | .joined session =>
    match t.client.sessions[session]? >>= (·.receivers.head?) with
    | some r => r.mailbox.length
    | none => 0
  | _ => 0

/-- The exit status, once the program has ended. -/
def exitStatus? (t : Terminal σ) : Option Nat :=
  match t.stage with
  | .failed => some 1
  | .leaving => if t.client.phase = .idle then some 0 else none
  | _ => none

end Terminal

end Parley
