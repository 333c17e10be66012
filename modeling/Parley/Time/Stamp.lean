/-!
# Time stamps

A moment is a count of seconds since the start of 1970 and a count of nanoseconds. A leap second is
the second before it with a billion nanoseconds more.

`Stamp.parse?` reads the date and time of RFC 3339: four-digit years, `T`, `t` or a space between
date and time, any number of decimals of which nine count, and a zone that is `Z`, `z`, or hours and
minutes with a sign, where the sign may also be the minus sign U+2212.
-/

namespace Parley

structure Stamp where
  seconds : Int
  nanos : Nat := 0
  deriving DecidableEq, Repr, Inhabited

namespace Stamp

/-! ## The calendar -/

def isLeapYear (y : Nat) : Bool := y % 4 = 0 && (y % 100 != 0 || y % 400 = 0)

def daysInMonth (y m : Nat) : Nat :=
  if m = 2 then if isLeapYear y then 29 else 28
  else if m = 4 || m = 6 || m = 9 || m = 11 then 30
  else 31

/-- Leap years from the year 0 up to, and without, the year `y`. -/
def leapYearsBefore (y : Nat) : Nat :=
  if y = 0 then 0 else (y - 1) / 4 - (y - 1) / 100 + (y - 1) / 400 + 1

/-- Days of a year before its month `m`. -/
def daysBeforeMonth (y m : Nat) : Nat :=
  (List.range (m - 1)).foldl (fun days i => days + daysInMonth y (i + 1)) 0

/-- Days from the start of 1970 to a date. -/
def dayNumber (y m d : Nat) : Int :=
  ((y * 365 + leapYearsBefore y + daysBeforeMonth y m + (d - 1) : Nat) : Int) - 719528

/-! ## Reading -/

def digit? (c : Char) : Option Nat :=
  if '0' ≤ c ∧ c ≤ '9' then some (c.toNat - 0x30) else none

/-- The number that the first `n` characters spell, and the rest. -/
def takeNumber (n : Nat) (cs : List Char) : Option (Nat × List Char) :=
  let ds := cs.take n
  if ds.length = n then
    (ds.mapM digit?).map fun vs => (vs.foldl (fun a v => a * 10 + v) 0, cs.drop n)
  else none

def takeChar (allowed : Char → Bool) : List Char → Option (List Char)
  | c :: rest => if allowed c then some rest else none
  | [] => none

def isDigit (c : Char) : Bool := '0' ≤ c && c ≤ '9'

/-- The nanoseconds of decimals, of which nine count. -/
def nanosOfDecimals (ds : List Char) : Nat :=
  ((ds ++ List.replicate 9 '0').take 9).foldl (fun a c => a * 10 + (c.toNat - 0x30)) 0

/-- Decimals of a second after a point, if there is a point. -/
def takeDecimals : List Char → Option (Nat × List Char)
  | '.' :: rest =>
    match rest.takeWhile isDigit with
    | [] => none
    | ds => some (nanosOfDecimals ds, rest.dropWhile isDigit)
  | cs => some (0, cs)

/-- The offset of a zone in seconds. -/
def takeZone : List Char → Option (Int × List Char)
  | 'Z' :: rest => some (0, rest)
  | 'z' :: rest => some (0, rest)
  | sign :: rest => do
    let negative ← if sign = '+' then some false
      else if sign = '-' ∨ sign = '\u2212' then some true
      else none
    let (hours, rest) ← takeNumber 2 rest
    let rest ← takeChar (· = ':') rest
    let (minutes, rest) ← takeNumber 2 rest
    if hours ≤ 23 ∧ minutes ≤ 59 then
      let offset : Int := (hours * 60 + minutes) * 60
      some (if negative then -offset else offset, rest)
    else none
  | [] => none

def parse? (s : String) : Option Stamp := do
  let (year, cs) ← takeNumber 4 s.toList
  let cs ← takeChar (· = '-') cs
  let (month, cs) ← takeNumber 2 cs
  let cs ← takeChar (· = '-') cs
  let (day, cs) ← takeNumber 2 cs
  let cs ← takeChar (fun c => c = 'T' || c = 't' || c = ' ') cs
  let (hour, cs) ← takeNumber 2 cs
  let cs ← takeChar (· = ':') cs
  let (minute, cs) ← takeNumber 2 cs
  let cs ← takeChar (· = ':') cs
  let (second, cs) ← takeNumber 2 cs
  let (nanos, cs) ← takeDecimals cs
  let (offset, cs) ← takeZone cs
  if cs.isEmpty ∧ 1 ≤ month ∧ month ≤ 12 ∧ 1 ≤ day ∧ day ≤ daysInMonth year month ∧
      hour ≤ 23 ∧ minute ≤ 59 ∧ second ≤ 60 then
    let clock : Nat := (hour * 60 + minute) * 60 + min second 59
    let leap := if second = 60 then 1000000000 else 0
    some ⟨dayNumber year month day * 86400 + clock - offset, nanos + leap⟩
  else none

/-! ## Writing -/

def padded (width n : Nat) : String :=
  let ds := Nat.toDigits 10 n
  String.ofList (List.replicate (width - ds.length) '0' ++ ds)

def secondOfDay (t : Stamp) : Nat := (t.seconds % 86400).toNat

/-- Hours and minutes of the day in the zone `Z`. -/
def clockText (t : Stamp) : String :=
  padded 2 (t.secondOfDay / 3600) ++ ":" ++ padded 2 (t.secondOfDay / 60 % 60)

/-- Year, month and day from the number of days since the start of the year 0: the year is looked
for from 400-year cycles downwards, the month in the year. -/
def dateOfDays (days : Nat) : Nat × Nat × Nat :=
  let guess := days / 366
  let year := ((List.range (days / 365 - guess + 1)).map (guess + ·)).foldl
    (fun best y => if y * 365 + leapYearsBefore y ≤ days then y else best) guess
  let inYear := days - (year * 365 + leapYearsBefore year)
  let month := ((List.range 12).map (· + 1)).foldl
    (fun best m => if daysBeforeMonth year m ≤ inYear then m else best) 1
  (year, month, inYear - daysBeforeMonth year month + 1)

/-- Date and time in the zone `Z` with milliseconds. -/
def rfc3339 (t : Stamp) : String :=
  let (y, m, d) := dateOfDays (t.seconds / 86400 + 719528).toNat
  padded 4 y ++ "-" ++ padded 2 m ++ "-" ++ padded 2 d ++ "T" ++ t.clockText ++ ":" ++
    padded 2 (t.secondOfDay % 60) ++ "." ++ padded 3 (t.nanos / 1000000) ++ "Z"

end Stamp

end Parley
