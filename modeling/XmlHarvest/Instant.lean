/-
Moments of time in the internet date and time format of RFC 3339.

A moment is kept in universal time.  A local time is moved there by its offset, which is less than
a day, so the date changes by one day at most.  The second 60 stays what it is.
-/
import XmlHarvest.Text.Numerals

namespace XmlHarvest

/-! ### Dates -/

/-- A date of the Gregorian calendar, in which there is a year 0. -/
structure Date where
  year : Int
  month : Nat
  day : Nat
  deriving DecidableEq, Repr

/-- Whether a year has 366 days. -/
def isLeapYear (year : Int) : Bool :=
  year % 4 == 0 && (year % 100 != 0 || year % 400 == 0)

/-- How many days a month has. -/
def daysIn (year : Int) (month : Nat) : Nat :=
  if month = 2 then if isLeapYear year then 29 else 28
  else if month = 4 || month = 6 || month = 9 || month = 11 then 30
  else 31

/-- Whether there is such a date. -/
def Date.valid (d : Date) : Bool :=
  1 ≤ d.month && d.month ≤ 12 && 1 ≤ d.day && d.day ≤ daysIn d.year d.month

/-- The day after. -/
def Date.next (d : Date) : Date :=
  if d.day < daysIn d.year d.month then { d with day := d.day + 1 }
  else if d.month < 12 then ⟨d.year, d.month + 1, 1⟩
  else ⟨d.year + 1, 1, 1⟩

/-- The day before. -/
def Date.previous (d : Date) : Date :=
  if 1 < d.day then { d with day := d.day - 1 }
  else if 1 < d.month then ⟨d.year, d.month - 1, daysIn d.year (d.month - 1)⟩
  else ⟨d.year - 1, 12, 31⟩

/-! ### Moments -/

/-- A moment in universal time. -/
structure Instant where
  date : Date
  hour : Nat
  minute : Nat
  second : Nat
  nanosecond : Nat
  deriving DecidableEq, Repr

/-- Move a local time to universal time, given by how many minutes it is ahead. -/
def Instant.moved (t : Instant) (ahead : Int) : Instant :=
  let minutes := 60 * (t.hour : Int) + t.minute - ahead
  let date :=
    if minutes < 0 then t.date.previous else if 1440 ≤ minutes then t.date.next else t.date
  let minuteOfDay := (minutes % 1440).toNat
  { t with date := date, hour := minuteOfDay / 60, minute := minuteOfDay % 60 }

/-! ### Reading -/

/-- A number of exactly so many digits at the front, and the rest. -/
def fixedDigits (count : Nat) (cs : List Char) : Option (Nat × List Char) := do
  let ds := cs.take count
  if ds.length = count then return (← Text.natural? ds, cs.drop count) else none

/-- The rest after one of some characters at the front. -/
def pastOneOf (marks : List Char) : List Char → Option (List Char)
  | c :: cs => if marks.contains c then some cs else none
  | [] => none

/-- Two numbers of two digits with a colon between them, and the rest. -/
def hourAndMinute (cs : List Char) : Option (Nat × Nat × List Char) := do
  let (hour, cs) ← fixedDigits 2 cs
  let (minute, cs) ← fixedDigits 2 (← pastOneOf [':'] cs)
  return (hour, minute, cs)

/-- The nanoseconds of a fraction of a second, which may be missing; digits after the ninth count
for nothing. -/
def fraction : List Char → Option (Nat × List Char)
  | '.' :: cs => do
    let ds := cs.takeWhile Char.isDigit
    let nanos ← Text.natural? (ds.take 9)
    return (nanos * Nat.pow 10 (9 - (ds.take 9).length), cs.dropWhile Char.isDigit)
  | cs => some (0, cs)

/-- How many minutes the local time is ahead.  The minus sign may be the mathematical one. -/
def offset : List Char → Option Int
  | ['Z'] | ['z'] => some 0
  | sign :: cs => do
    let (hours, minutes, rest) ← hourAndMinute cs
    if !rest.isEmpty || 23 < hours || 59 < minutes then none
    else if sign == '+' then return 60 * (hours : Int) + minutes
    else if sign == '-' || sign == '−' then return -(60 * (hours : Int) + minutes)
    else none
  | [] => none

/-- The moment that a text writes: date and time in digits, a `T` or a space between them, and the
offset of the local time. -/
def Instant.read? (text : String) : Option Instant := do
  let (year, cs) ← fixedDigits 4 text.toList
  let (month, cs) ← fixedDigits 2 (← pastOneOf ['-'] cs)
  let (day, cs) ← fixedDigits 2 (← pastOneOf ['-'] cs)
  let (hour, minute, cs) ← hourAndMinute (← pastOneOf ['T', 't', ' '] cs)
  let (second, cs) ← fixedDigits 2 (← pastOneOf [':'] cs)
  let (nanosecond, cs) ← fraction cs
  let ahead ← offset cs
  let date : Date := ⟨year, month, day⟩
  if date.valid && hour ≤ 23 && minute ≤ 59 && second ≤ 60 then
    return (⟨date, hour, minute, second, nanosecond⟩ : Instant).moved ahead
  else none

/-! ### Writing -/

/-- The digits of a number with zeros before them up to a width. -/
def padded (width n : Nat) : String :=
  let digits := (toString n).toList
  String.ofList (List.replicate (width - digits.length) '0' ++ digits)

/-- A year in four digits, or with a sign when it has more or lies before the year 0. -/
def yearText (year : Int) : String :=
  if 0 ≤ year && year ≤ 9999 then padded 4 year.toNat
  else (if year < 0 then "-" else "+") ++ padded 4 year.natAbs

/-- A fraction of a second in three, six or nine digits, as many as it takes; none for zero. -/
def fractionText (nanosecond : Nat) : String :=
  if nanosecond = 0 then ""
  else if nanosecond % 1000000 = 0 then "." ++ padded 3 (nanosecond / 1000000)
  else if nanosecond % 1000 = 0 then "." ++ padded 6 (nanosecond / 1000)
  else "." ++ padded 9 nanosecond

/-- The text of a moment, with the offset of universal time. -/
def Instant.text (t : Instant) : String :=
  yearText t.date.year ++ "-" ++ padded 2 t.date.month ++ "-" ++ padded 2 t.date.day ++ "T" ++
    padded 2 t.hour ++ ":" ++ padded 2 t.minute ++ ":" ++ padded 2 t.second ++
    fractionText t.nanosecond ++ "+00:00"

end XmlHarvest
