import Parley.Frame.Basic
import Parley.Text.Utf8

/-!
# The wire text of a frame

A frame is written as seven segments, one for each field: the length of the field in bytes as five
decimal digits, then the field. Lengths count bytes of UTF-8, so a field longer than 99 999 bytes
cannot be written. A reader takes segment after segment and reports the first that it cannot take;
an unknown action is reported before any later segment is looked at, and whatever follows the
seventh segment is ignored.
-/

namespace Parley.Frame

/-- Digits in front of every field. -/
def lengthWidth : Nat := 5

def maxFieldLength : Nat := 99999

def digitChar (n : Nat) : Char := Char.ofNat (0x30 + n % 10)

/-- The last five decimal digits of a length. -/
def lengthChars (n : Nat) : List Char :=
  [digitChar (n / 10000), digitChar (n / 1000), digitChar (n / 100), digitChar (n / 10),
    digitChar n]

def segment (field : FrameField) (value : String) : Except FrameError String :=
  if maxFieldLength < value.utf8ByteSize then .error (.fieldTooLong field value.utf8ByteSize)
  else .ok (String.ofList (lengthChars value.utf8ByteSize) ++ value)

def flagText (b : Bool) : String := if b then "t" else "f"

/-- The text of each field, in wire order. -/
def fieldTexts (f : Frame) : List (FrameField × String) :=
  [(.action, String.ofList (Nat.toDigits 10 f.action.ordinal)), (.store, flagText f.store),
    (.historical, flagText f.historical), (.timestamp, f.timestamp), (.topic, f.topic),
    (.sender, f.sender), (.payload, f.payload)]

def encode (f : Frame) : Except FrameError String := do
  let segments ← f.fieldTexts.mapM fun (field, text) => segment field text
  return String.join segments

/-! ## Reading -/

def isDigitByte (b : UInt8) : Bool := 0x30 ≤ b && b ≤ 0x39

def natOfBytes (bs : List UInt8) : Nat := bs.foldl (fun n b => n * 10 + (b.toNat - 0x30)) 0

/-- The text of the next segment and the bytes after it. -/
def takeSegment (field : FrameField) (bs : List UInt8) :
    Except FrameError (String × List UInt8) :=
  if bs.length < lengthWidth then .error (.truncated field lengthWidth bs.length)
  else
    let header := bs.take lengthWidth
    let rest := bs.drop lengthWidth
    if header.all isDigitByte then
      let declared := natOfBytes header
      if rest.length < declared then .error (.truncated field declared rest.length)
      else
        match Text.ofBytes? (rest.take declared) with
        | none => .error (.badUtf8 field)
        | some text => .ok (text, rest.drop declared)
    else .error (.badLength field)

/-- The natural that decimal digits spell; none if there is no digit or another character. -/
def natOfDigits? (cs : List Char) : Option Nat :=
  if cs.isEmpty then none
  else if cs.all fun c => '0' ≤ c && c ≤ '9' then
    some (cs.foldl (fun n c => n * 10 + (c.toNat - 0x30)) 0)
  else none

def intOfText? (s : String) : Option Int :=
  match s.toList with
  | '+' :: ds => (natOfDigits? ds).map Int.ofNat
  | '-' :: ds => (natOfDigits? ds).map fun n => -(n : Int)
  | ds => (natOfDigits? ds).map Int.ofNat

/-- The action that the text of the first segment names. -/
def actionOfText? (s : String) : Option Action := intOfText? s >>= Action.ofOrdinal?

/-- Reads a frame from the bytes of a socket message. -/
def decode (bs : List UInt8) : Except FrameError Frame := do
  let (action, bs) ← takeSegment .action bs
  let action ← match actionOfText? action with
    | some a => .ok a
    | none => .error (.unknownAction action)
  let (store, bs) ← takeSegment .store bs
  let (historical, bs) ← takeSegment .historical bs
  let (timestamp, bs) ← takeSegment .timestamp bs
  let (topic, bs) ← takeSegment .topic bs
  let (sender, bs) ← takeSegment .sender bs
  let (payload, _) ← takeSegment .payload bs
  return ⟨action, store == "t", historical == "t", timestamp, topic, sender, payload⟩

def decodeText (s : String) : Except FrameError Frame := decode (Text.bytes s)

end Parley.Frame
