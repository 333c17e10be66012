import Parley.Terminal.Relay

/-!
# The program

Reads the options, exchanges lines with the relay on the standard streams, and keeps the marker file
as the client wants it to be.
-/

namespace Parley

/-- The file at a path; one that cannot be read counts as missing. -/
def readMarkerFile (path : String) : IO MarkerFile := do
  try
    return .holding (← IO.FS.readBinFile path).data.toList
  catch _ => return .missing

/-- Makes the file at a path what it should be; failures are passed over. -/
def writeMarkerFile (path : String) (file : MarkerFile) : IO Unit := do
  try
    match file with
    | .holding bytes => IO.FS.writeBinFile path ⟨bytes.toArray⟩
    | _ => IO.FS.removeFile path
  catch _ => return

/-- Prints the lines of an answer and brings the marker file up to date. -/
def deliver (path : Option String) (before : MarkerFile) (a : Terminal.Relay.Answer MarkerFile) :
    IO Unit := do
  let after := a.1.client.markers
  if after ≠ before then
    if let some path := path then writeMarkerFile path after
  let out ← IO.getStdout
  a.2.forM out.putStrLn
  out.flush

/-- Takes in lines until the program ends. -/
partial def converse (path : Option String) (t : Terminal MarkerFile) : IO UInt32 := do
  match t.exitStatus? with
  | some status => return UInt32.ofNat status
  | none =>
    let line ← (← IO.getStdin).getLine
    let report := if line.isEmpty then some (.input .eof) else Terminal.Relay.report? line
    match report with
    | none => converse path t
    | some report =>
      let file ← match path with
        | some path => readMarkerFile path
        | none => pure t.client.markers
      let t := { t with client := { t.client with markers := file } }
      let a := Terminal.Relay.answer t report
      deliver path file a
      if line.isEmpty && a.1.exitStatus?.isNone then return 1 else converse path a.1

end Parley

def main (args : List String) : IO UInt32 := do
  match Parley.Terminal.Options.parse? args with
  | none =>
    IO.eprintln Parley.Terminal.Options.usage
    return 2
  | some options =>
    let file ← match options.markerFile with
      | some path => Parley.readMarkerFile path
      | none => pure .missing
    let a := Parley.Terminal.Relay.start options file
    Parley.deliver options.markerFile file a
    Parley.converse options.markerFile a.1
