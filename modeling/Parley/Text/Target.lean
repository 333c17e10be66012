import Parley.Text.Percent

/-!
# Request targets

What a request asks a host for, made from the text that follows the host in an address. A fragment
is part of the address but stays at home.

There are two ways to take such a text. One repairs it: characters that may not stand in a target
are escaped, and the segments `.` and `..` of the path are carried out. The other takes it as it
stands or not at all. Both say how long the rest of the address becomes, because the length of an
address is limited.
-/

namespace Parley.Text

/-- What follows the host in an address. -/
structure Tail where
  target : String
  /-- The length of the text, its fragment included, in bytes. -/
  size : Nat
  deriving DecidableEq, Repr

/-! ## Repaired -/

/-- Escapes the characters for which `keep` does not hold. -/
def escapeUnless (keep : Char → Bool) (cs : List Char) : List Char :=
  cs.flatMap fun c => if keep c then [c] else (bytes (String.singleton c)).flatMap Percent.escape

/-- The characters that no part of an address may hold. -/
def isUnfit (c : Char) : Bool :=
  c.toNat ≤ 0x20 || 0x7F ≤ c.toNat || c == '"' || c == '<' || c == '>'

def fitsPath (c : Char) : Bool :=
  !(isUnfit c || c == '#' || c == '?' || c == '\x60' || c == '\x7b' || c == '\x7d')

def fitsQuery (c : Char) : Bool := !(isUnfit c || c == '#' || c == '\'')

def fitsFragment (c : Char) : Bool := !(isUnfit c || c == '\x60')

/-- The parts of a path between its slashes; a backslash counts as one. The parts so far and the
characters of the present part stand last first. -/
def segmentsFrom (done : List (List Char)) (part : List Char) : List Char → List (List Char)
  | [] => (part.reverse :: done).reverse
  | c :: rest =>
    if c = '/' ∨ c = '\\' then segmentsFrom (part.reverse :: done) [] rest
    else segmentsFrom done (c :: part) rest

/-- What follows a point, which may be escaped. -/
def afterPoint? : List Char → Option (List Char)
  | '.' :: rest => some rest
  | '%' :: '2' :: e :: rest => if e = 'e' ∨ e = 'E' then some rest else none
  | _ => none

/-- Whether a segment stands for the place it is in. -/
def isHere (s : List Char) : Bool := afterPoint? s == some []

/-- Whether a segment takes back the one before it. -/
def isBack (s : List Char) : Bool := (afterPoint? s >>= afterPoint?) == some []

def isLetter (c : Char) : Bool := ('a' ≤ c && c ≤ 'z') || ('A' ≤ c && c ≤ 'Z')

/-- Whether a segment names a drive. Such a segment is never taken back. -/
def isDrive : List Char → Bool
  | [c, mark] => isLetter c && (mark == ':' || mark == '|')
  | _ => false

/-- The segments after the last one is taken back; they stand last first. -/
def takeBack : List (List Char) → List (List Char)
  | [] => []
  | s :: done => if isDrive s then s :: done else done

/-- Carries out `.` and `..`; `done` holds the segments so far, the last one first. -/
def walk (done : List (List Char)) : List (List Char) → List (List Char)
  | [] => done.reverse
  | s :: rest =>
    let close (done : List (List Char)) := if rest.isEmpty then [] :: done else done
    if isBack s then walk (close (takeBack done)) rest
    else if isHere s then walk (close done) rest
    else walk (s :: done) rest

/-- The path that the text after the first slash stands for. -/
def pathChars (cs : List Char) : List Char :=
  (walk [] (segmentsFrom [] [] cs)).flatMap fun s => '/' :: escapeUnless fitsPath s

/-- A part of an address with the mark before it; nothing if there is no such part. -/
def marked (fits : Char → Bool) : List Char → List Char
  | [] => []
  | mark :: rest => mark :: escapeUnless fits rest

/-- Takes a text with repairs; none if it would belong to the host. -/
def Tail.repaired? (text : String) : Option Tail :=
  let cs := text.toList.filter fun c => c != '\t' && c != '\n' && c != '\r'
  let cs := (cs.reverse.dropWhile (·.toNat ≤ 0x20)).reverse
  let fragment := marked fitsFragment (cs.dropWhile (· != '#'))
  let cs := cs.takeWhile (· != '#')
  let query := marked fitsQuery (cs.dropWhile (· != '?'))
  let path := match cs.takeWhile (· != '?') with
    | [] => some ['/']
    | c :: rest => if c = '/' ∨ c = '\\' then some (pathChars rest) else none
  path.map fun path =>
    let target := String.ofList (path ++ query)
    ⟨target, target.utf8ByteSize + (String.ofList fragment).utf8ByteSize⟩

/-! ## As it stands -/

/-- The characters that no target may hold as they are. -/
def isForbidden (c : Char) : Bool := c.toNat ≤ 0x20 || c == '<' || c == '>'

/-- Takes a text as it stands; none if it would belong to the host, or if a character may not stand
where it does. Nothing is asked of the fragment. -/
def Tail.verbatim? (text : String) : Option Tail :=
  let cs := text.toList.takeWhile (· != '#')
  let path := cs.takeWhile (· != '?')
  let query := cs.dropWhile (· != '?')
  let begins := path.isEmpty || path.head? == some '/'
  let fits := path.all (fun c => !(isForbidden c || c == '\x60')) &&
    query.all (fun c => !(isForbidden c || c == '"'))
  if begins && fits then
    some ⟨if cs.isEmpty then "/" else String.ofList cs, text.utf8ByteSize⟩
  else none

end Parley.Text
