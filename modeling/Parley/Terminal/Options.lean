import Parley.Config

/-!
# Options of the terminal client

The options have long names only. A value follows its option as the next argument or after an equals
sign; an option may be given once, and an argument that is no option is refused. Two hyphens by
themselves end the options, so that nothing may follow them.
-/

namespace Parley.Terminal

structure Options where
  host : String
  topic : String
  token : Option String := none
  /-- Where to keep the marker; it is kept in memory otherwise. -/
  markerFile : Option String := none
  insecure : Bool := false
  pageSize : UInt32 := 10
  deriving DecidableEq, Repr

structure GivenOptions where
  host : Option String := none
  topic : Option String := none
  token : Option String := none
  markerFile : Option String := none
  insecure : Bool := false
  pageSize : Option UInt32 := none
  deriving Repr

namespace Options

/-- A number of 32 bits, which may have a sign; only zero may have a minus sign. -/
def number? (s : String) : Option UInt32 :=
  let (negative, digits) := match s.toList with
    | '+' :: ds => (false, ds)
    | '-' :: ds => (true, ds)
    | ds => (false, ds)
  if digits.isEmpty ∨ !digits.all (fun c => '0' ≤ c && c ≤ '9') then none
  else
    let n := digits.foldl (fun n c => n * 10 + (c.toNat - 0x30)) 0
    if n ≤ (if negative then 0 else 0xFFFFFFFF) then some (UInt32.ofNat n) else none

/-- Whether the option is followed by a value. -/
def takesValue (name : String) : Bool :=
  ["--host", "--topic", "--token", "--marker-file", "--page-size"].contains name

/-- Takes in an option with its value. -/
def set? (g : GivenOptions) (name value : String) : Option GivenOptions :=
  match name with
  | "--host" => if g.host.isSome then none else some { g with host := some value }
  | "--topic" => if g.topic.isSome then none else some { g with topic := some value }
  | "--token" => if g.token.isSome then none else some { g with token := some value }
  | "--marker-file" =>
    if g.markerFile.isSome then none else some { g with markerFile := some value }
  | "--page-size" =>
    if g.pageSize.isSome then none
    else (number? value).map fun n => { g with pageSize := some n }
  | _ => none

/-- The name and the value of an argument with an equals sign. -/
def splitEquals? (arg : String) : Option (String × String) :=
  match arg.toList.dropWhile (· != '=') with
  | [] => none
  | _ :: value => some (String.ofList (arg.toList.takeWhile (· != '=')), String.ofList value)

/-- Takes in the arguments one after the other. -/
def read? (g : GivenOptions) : List String → Option GivenOptions
  | [] | ["--"] => some g
  | "--insecure" :: rest => if g.insecure then none else read? { g with insecure := true } rest
  | [arg] => do
    let (name, value) ← splitEquals? arg
    set? g name value
  | arg :: value :: rest =>
    if takesValue arg then
      if value.startsWith "-" && value != "-" then none
      else (set? g arg value).bind fun g => read? g rest
    else do
      let (name, v) ← splitEquals? arg
      let g ← set? g name v
      read? g (value :: rest)

/-- The options that the arguments give; none if they are not well-formed or lack the host or the
topic. -/
def parse? (args : List String) : Option Options := do
  let g ← read? {} args
  let host ← g.host
  let topic ← g.topic
  return ⟨host, topic, g.token, g.markerFile, g.insecure, g.pageSize.getD 10⟩

/-- What to say when the arguments are not well-formed. -/
def usage : String :=
  "usage: --host <host> --topic <topic> [--token <token>] [--marker-file <path>] " ++
    "[--insecure] [--page-size <n>]"

def config (o : Options) : ClientConfig :=
  { host := o.host, secure := !o.insecure, pageSize := o.pageSize, bearerToken := o.token }

end Options

end Parley.Terminal
