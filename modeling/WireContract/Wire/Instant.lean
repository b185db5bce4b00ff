import WireContract.Text.Blank
import WireContract.Text.Case

/-!
# Points in time

A point in time is a date and a time of day in UTC.  The second may be 60, a leap second, in any
minute.  Texts give a date, a `T` or a blank, a time and the offset of the local clock; blanks may
stand before every number and separator.  The written text is always in UTC, marked `Z`, and has no
fraction or one of three, six or nine digits, the fewest that lose nothing.
-/

namespace WireContract.Wire

open Text

/-- A date of the Gregorian calendar and a time of day. -/
structure Moment where
  year : Int
  month : Nat
  day : Nat
  hour : Nat
  minute : Nat
  second : Nat
  nanos : Nat
deriving DecidableEq, Repr

/-- Whether February has a day more. -/
def isLeapYear (year : Int) : Bool :=
  year % 4 == 0 && (year % 100 != 0 || year % 400 == 0)

/-- The number of days of a month. -/
def monthLength (year : Int) (month : Nat) : Nat :=
  if month == 2 then (if isLeapYear year then 29 else 28)
  else if [4, 6, 9, 11].contains month then 30
  else 31

namespace Moment

/-- The first year that dates can have. -/
def minYear : Int := -262143

/-- The last year that dates can have. -/
def maxYear : Int := 262142

/-- Whether the date and the time exist. -/
def isValid (m : Moment) : Bool :=
  minYear ≤ m.year && m.year ≤ maxYear && 1 ≤ m.month && m.month ≤ 12 &&
    1 ≤ m.day && m.day ≤ monthLength m.year m.month &&
    m.hour ≤ 23 && m.minute ≤ 59 && m.second ≤ 60 && m.nanos ≤ 999999999

/-- The same time on the day after. -/
def nextDay (m : Moment) : Moment :=
  if m.day < monthLength m.year m.month then { m with day := m.day + 1 }
  else if m.month < 12 then { m with month := m.month + 1, day := 1 }
  else { m with year := m.year + 1, month := 1, day := 1 }

/-- The same time on the day before. -/
def previousDay (m : Moment) : Moment :=
  if 1 < m.day then { m with day := m.day - 1 }
  else if 1 < m.month then
    { m with month := m.month - 1, day := monthLength m.year (m.month - 1) }
  else { m with year := m.year - 1, month := 12, day := 31 }

/-- The number of minutes of a day. -/
def dayMinutes : Int := 1440

/-- The moment some minutes earlier, less than a day away. -/
def earlier (m : Moment) (minutes : Int) : Moment :=
  let total := (m.hour * 60 + m.minute : Int) - minutes
  let ofDay := (total % dayMinutes).toNat
  let onDate :=
    if total < 0 then m.previousDay
    else if total < dayMinutes then m
    else m.nextDay
  { onDate with hour := ofDay / 60, minute := ofDay % 60 }

end Moment

/-- A moment of UTC that exists. -/
abbrev Instant := { m : Moment // m.isValid = true }

namespace Instant

/-- The instant of a moment that exists. -/
def ofMoment? (m : Moment) : Option Instant :=
  if h : m.isValid = true then some ⟨m, h⟩ else none

/-! ## Reading -/

/-- The value of decimal digits. -/
def numeral (digits : List Char) : Nat :=
  digits.foldl (fun n c => n * 10 + (c.toNat - 48)) 0

/-- A number of at least one digit, and at most `width` digits if that is given. -/
def number (width : Option Nat) (cs : List Char) : Option (Nat × List Char) :=
  let digits := cs.takeWhile isAsciiDigit
  let digits := match width with
    | some n => digits.take n
    | none => digits
  if digits.isEmpty then none else some (numeral digits, cs.drop digits.length)

/-- A number of one or two digits after blanks. -/
def twoDigits (cs : List Char) : Option (Nat × List Char) :=
  number (some 2) (trimLeft cs)

/-- A year: up to four digits, or a sign and any number of them. -/
def year (cs : List Char) : Option (Int × List Char) :=
  match trimLeft cs with
  | '-' :: rest => (number none rest).map fun (n, after) => (-(n : Int), after)
  | '+' :: rest => (number none rest).map fun (n, after) => ((n : Int), after)
  | rest => (number (some 4) rest).map fun (n, after) => ((n : Int), after)

/-- A separator after blanks. -/
def separator (sep : Char) (cs : List Char) : Option (List Char) :=
  match trimLeft cs with
  | c :: rest => if c == sep then some rest else none
  | [] => none

/-- A fraction of a second in nanoseconds, if there is one; digits beyond the ninth are dropped. -/
def fraction : List Char → Option (Nat × List Char)
  | '.' :: cs =>
    let digits := cs.takeWhile isAsciiDigit
    if digits.isEmpty then none
    else
      let kept := digits.take 9
      some (numeral (kept ++ List.replicate (9 - kept.length) '0'), cs.drop digits.length)
  | cs => some (0, cs)

/-- What stands between the date and the time. -/
def isDateEnd (c : Char) : Bool :=
  c == 'T' || c == 't' || c == ' '

/-- The date and the time of a local clock. -/
def localMoment (cs : List Char) : Option (Moment × List Char) := do
  let (year, cs) ← year cs
  let (month, cs) ← twoDigits (← separator '-' cs)
  let (day, cs) ← twoDigits (← separator '-' cs)
  let (mark, cs) ← cs.head?.map (·, cs.tail)
  if !isDateEnd mark then none
  let (hour, cs) ← twoDigits cs
  let (minute, cs) ← twoDigits (← separator ':' cs)
  let (second, cs) ← twoDigits (← separator ':' cs)
  let (nanos, cs) ← fraction cs
  return (⟨year, month, day, hour, minute, second, nanos⟩, cs)

/-- Exactly two digits. -/
def digitPair : List Char → Option (Nat × List Char)
  | a :: b :: rest =>
    if isAsciiDigit a && isAsciiDigit b then some (numeral [a, b], rest) else none
  | _ => none

/-- The sign of an offset. -/
def isBehind? (c : Char) : Option Bool :=
  if c == '+' then some false
  else if c == '-' || c == '−' then some true
  else none

/-- Hours and minutes of an offset with its sign, in minutes. -/
def signedOffset (cs : List Char) : Option (Int × List Char) := do
  let behind ← isBehind? (← cs.head?)
  let (hours, cs) ← digitPair cs.tail
  let (minutes, cs) ← digitPair (cs.dropWhile fun c => c == ':' || isBlank c)
  if 59 < minutes then none
  let total : Int := hours * 60 + minutes
  return (if behind then -total else total, cs)

/-- The offset of a local clock in minutes: `Z`, `UTC`, or hours and minutes. -/
def offset (cs : List Char) : Option (Int × List Char) :=
  if (cs.take 3).map asciiUpper == ['U', 'T', 'C'] then some (0, cs.drop 3)
  else
    match cs with
    | 'Z' :: rest | 'z' :: rest => some (0, rest)
    | _ => signedOffset cs

/-- The instant that a text gives. -/
def parse? (s : String) : Option Instant := do
  let (clock, cs) ← localMoment s.toList
  let (minutes, cs) ← offset (trimLeft cs)
  if !(trimLeft cs).isEmpty || !clock.isValid then none
  if minutes ≤ -Moment.dayMinutes || Moment.dayMinutes ≤ minutes then none
  ofMoment? (clock.earlier minutes)

/-! ## Writing -/

/-- The decimal text of a number with at least `width` digits. -/
def padded (width n : Nat) : String :=
  let digits := Nat.toDigits 10 n
  String.ofList (List.replicate (width - digits.length) '0' ++ digits)

/-- A year of four digits, or with its sign where four digits do not do. -/
def yearText (year : Int) : String :=
  if 0 ≤ year && year ≤ 9999 then padded 4 year.toNat
  else (if year < 0 then "-" else "+") ++ padded 4 year.natAbs

/-- The fraction of a second, with its point. -/
def fractionText (nanos : Nat) : String :=
  if nanos == 0 then ""
  else if nanos % 1000000 == 0 then "." ++ padded 3 (nanos / 1000000)
  else if nanos % 1000 == 0 then "." ++ padded 6 (nanos / 1000)
  else "." ++ padded 9 nanos

/-- The text of an instant. -/
def text (t : Instant) : String :=
  let m := t.val
  yearText m.year ++ "-" ++ padded 2 m.month ++ "-" ++ padded 2 m.day ++ "T" ++
    padded 2 m.hour ++ ":" ++ padded 2 m.minute ++ ":" ++ padded 2 m.second ++
    fractionText m.nanos ++ "Z"

/-- The parts of an instant, the most significant first. -/
def parts (t : Instant) : List Int :=
  let m := t.val
  [m.year, m.month, m.day, m.hour, m.minute, m.second, m.nanos]

end Instant

end WireContract.Wire
