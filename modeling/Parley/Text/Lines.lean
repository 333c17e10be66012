/-!
# Lines

A line ends with a line feed, or with a carriage return and a line feed; the end of the text ends
its last line. A text that ends with a line feed has no further, empty line, and a carriage return
that no line feed follows belongs to its line.
-/

namespace Parley.Text

/-- A line whose characters stand last first, without the carriage return at its end. -/
def dropReturn : List Char → List Char
  | '\r' :: line => line.reverse
  | line => line.reverse

/-- The lines of a text after those in `done`; the characters since the last line feed are `line`.
Both stand last first. -/
def linesFrom (done : List (List Char)) (line : List Char) : List Char → List (List Char)
  | [] => if line.isEmpty then done.reverse else (line.reverse :: done).reverse
  | c :: rest =>
    if c = '\n' then linesFrom (dropReturn line :: done) [] rest
    else linesFrom done (c :: line) rest

def lines (cs : List Char) : List (List Char) := linesFrom [] [] cs

/-- The rest of a line that begins with `start`. -/
def dropStart? : List Char → List Char → Option (List Char)
  | [], cs => some cs
  | s :: start, c :: cs => if s = c then dropStart? start cs else none
  | _ :: _, [] => none

/-- What stands before and after the first occurrence of a character. -/
def splitAt? (sep : Char) (cs : List Char) : Option (List Char × List Char) :=
  match cs.dropWhile (· != sep) with
  | [] => none
  | _ :: rest => some (cs.takeWhile (· != sep), rest)

end Parley.Text
