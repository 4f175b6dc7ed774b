import ControlPlane.Json.Reader
import ControlPlane.Json.Printer

/-!
# Timestamps

A timestamp is an instant in UTC, read from RFC 3339 text with any offset. It is written with `Z`,
either to whole seconds or to microseconds, what is finer being cut off. A second may be 60, for a
leap second. Years of other than four digits carry a sign.

RFC 3339 is the form in which objects come with their times, and no other is read.
-/

namespace ControlPlane

/-- An instant in UTC, by calendar date and time of day. -/
structure Timestamp where
  year : Int
  month : Nat
  day : Nat
  hour : Nat
  minute : Nat
  second : Nat
  microsecond : Nat
deriving DecidableEq, Repr, Inhabited

namespace Timestamp

/-- A year of the Gregorian calendar has 366 days. -/
def isLeapYear (year : Int) : Bool := year % 4 = 0 && (year % 100 ≠ 0 || year % 400 = 0)

/-- The number of days of a month. -/
def daysIn (year : Int) (month : Nat) : Nat :=
  match month with
  | 2 => if isLeapYear year then 29 else 28
  | 4 | 6 | 9 | 11 => 30
  | _ => 31

/-- The date after a date. -/
def nextDay (date : Int × Nat × Nat) : Int × Nat × Nat :=
  let (year, month, day) := date
  if day < daysIn year month then (year, month, day + 1)
  else if month < 12 then (year, month + 1, 1)
  else (year + 1, 1, 1)

/-- The date before a date. -/
def previousDay (date : Int × Nat × Nat) : Int × Nat × Nat :=
  let (year, month, day) := date
  if 1 < day then (year, month, day - 1)
  else if 1 < month then (year, month - 1, daysIn year (month - 1))
  else (year - 1, 12, 31)

/-- The instant of a local time whose clock is ahead of UTC by some minutes, less than a day. -/
def atOffset (local_ : Timestamp) (offset : Int) : Timestamp :=
  let minutes : Int := (local_.hour * 60 + local_.minute : Nat) - offset
  let date := (local_.year, local_.month, local_.day)
  let (date, minutes) :=
    if minutes < 0 then (previousDay date, minutes + 1440)
    else if 1440 ≤ minutes then (nextDay date, minutes - 1440)
    else (date, minutes)
  { local_ with
    year := date.1
    month := date.2.1
    day := date.2.2
    hour := minutes.toNat / 60
    minute := minutes.toNat % 60 }

/-! ## Reading -/

/-- A number of exactly `n` decimal digits, and the text after it. -/
def readDigits? (n : Nat) (cs : List Char) : Option (Nat × List Char) :=
  let digits := cs.take n
  if digits.length = n ∧ digits.all Char.isDigit then
    some (Json.digitsValue digits, cs.drop n)
  else none

/-- The text after a given character. -/
def skip? (c : Char) : List Char → Option (List Char)
  | d :: cs => if c = d then some cs else none
  | [] => none

/-- The text after the character between a date and the time of day. -/
def skipMark? : List Char → Option (List Char)
  | 'T' :: cs | 't' :: cs | ' ' :: cs => some cs
  | _ => none

/-- A year: four digits, or a sign and digits. -/
def readYear? (cs : List Char) : Option (Int × List Char) :=
  let signed (sign : Int) (cs : List Char) :=
    (Json.readDigits? cs).map fun r => (sign * Json.digitsValue r.1, r.2)
  match cs with
  | '+' :: cs => signed 1 cs
  | '-' :: cs => signed (-1) cs
  | cs => (readDigits? 4 cs).map fun r => (r.1, r.2)

/-- The microseconds of a fraction of a second, which may be left out. -/
def readMicroseconds? : List Char → Option (Nat × List Char)
  | '.' :: cs =>
    (Json.readDigits? cs).map fun r =>
      (Json.digitsValue ((r.1 ++ List.replicate 6 '0').take 6), r.2)
  | cs => some (0, cs)

/-- The minutes by which the clock is ahead of UTC, at the end of the text. -/
def readOffset? (cs : List Char) : Option Int :=
  let signed (sign : Int) (cs : List Char) : Option Int := do
    let (hours, cs) ← readDigits? 2 cs
    let cs ← skip? ':' cs
    let (minutes, cs) ← readDigits? 2 cs
    if hours < 24 ∧ minutes < 60 ∧ cs.isEmpty then some (sign * (hours * 60 + minutes : Nat))
    else none
  match cs with
  | ['Z'] | ['z'] => some 0
  | '+' :: cs => signed 1 cs
  | '-' :: cs => signed (-1) cs
  | _ => none

/-- Reads RFC 3339 text, strictly. Lenient readers take more than that: blanks between the parts,
single digits, an offset without its colon, `UTC` in its place. Such texts are no timestamps here.
A signed year may have any size, where a reader with bounded years refuses the large ones. -/
def parse? (s : String) : Option Timestamp := do
  let (year, cs) ← readYear? s.toList
  let cs ← skip? '-' cs
  let (month, cs) ← readDigits? 2 cs
  let cs ← skip? '-' cs
  let (day, cs) ← readDigits? 2 cs
  let cs ← skipMark? cs
  let (hour, cs) ← readDigits? 2 cs
  let cs ← skip? ':' cs
  let (minute, cs) ← readDigits? 2 cs
  let cs ← skip? ':' cs
  let (second, cs) ← readDigits? 2 cs
  let (microsecond, cs) ← readMicroseconds? cs
  let offset ← readOffset? cs
  if 1 ≤ month ∧ month ≤ 12 ∧ 1 ≤ day ∧ day ≤ daysIn year month ∧ hour < 24 ∧ minute < 60 ∧
      second ≤ 60 then
    some (atOffset ⟨year, month, day, hour, minute, second, microsecond⟩ offset)
  else none

/-! ## Writing -/

/-- A number with at least `width` digits. -/
def padded (width n : Nat) : String :=
  let digits := decimalDigits n
  String.ofList (List.replicate (width - digits.length) '0' ++ digits)

/-- The text of a year. -/
def yearText (year : Int) : String :=
  let digits := padded 4 year.natAbs
  if year < 0 then "-" ++ digits else if 9999 < year then "+" ++ digits else digits

/-- The date and the time of day to whole seconds, without an offset. -/
def dateTimeText (t : Timestamp) : String :=
  yearText t.year ++ "-" ++ padded 2 t.month ++ "-" ++ padded 2 t.day ++ "T" ++
    padded 2 t.hour ++ ":" ++ padded 2 t.minute ++ ":" ++ padded 2 t.second

/-- The text of a timestamp to whole seconds. -/
def seconds (t : Timestamp) : String := t.dateTimeText ++ "Z"

/-- The text of a timestamp to microseconds. -/
def microseconds (t : Timestamp) : String :=
  t.dateTimeText ++ "." ++ padded 6 t.microsecond ++ "Z"

/-- The first instant of 1970. -/
def epoch : Timestamp := ⟨1970, 1, 1, 0, 0, 0, 0⟩

example : (parse? "2024-02-29T23:30:00-05:30").map seconds = some "2024-03-01T05:00:00Z" := by
  decide +kernel
example : (parse? "2024-01-01T00:00:00+01:00").map seconds = some "2023-12-31T23:00:00Z" := by
  decide +kernel
example : (parse? "2024-01-01T00:00:00.5Z").map microseconds =
    some "2024-01-01T00:00:00.500000Z" := by
  decide +kernel
example : parse? "2024-02-30T00:00:00Z" = none ∧ parse? "2024-01-01" = none := by decide +kernel

end Timestamp

end ControlPlane
