import LuaCoverage.Data.Value
import LuaCoverage.Yaml.Fault

/-!
# Timestamps

A day, or a moment with a fraction of a second and a time zone. The months and days of a moment
may have one digit; those of a day alone have two, unless its tag says that it is a day.

Results:
* `daysIn_feb`: February of a leap year.
-/

namespace LuaCoverage.Yaml
open LuaCoverage.Text

/-- The parts of a clock. -/
structure Clock where
  hour : Nat
  minute : Nat
  second : Nat
  micros : Nat
  zone : Option Int
  deriving DecidableEq, Repr

/-- The parts of a timestamp as they are written. -/
structure Timestamp where
  date : Date
  isPadded : Bool
  clock : Option Clock
  deriving DecidableEq, Repr

/-- Reads at least and at most so many digits. -/
def readCount? (least most : Nat) (cs : List Char) : Option (Nat × Nat × List Char) :=
  let digits := (cs.take most).takeWhile isAsciiDigit
  if digits.length < least then none
  else some (digits.foldl (fun n c => n * 10 + (c.toNat - 0x30)) 0, digits.length,
    cs.drop digits.length)

def readMark? (c : Char) : List Char → Option (List Char)
  | d :: rest => if c = d then some rest else none
  | [] => none

/-- Whether a character is a blank or a tab. -/
def isClockGap (c : Char) : Bool := c == ' ' || c == '\t'

/-- Reads a time zone up to the end: none, the mark of the zone of reference, or an offset. -/
def readZone? (cs : List Char) : Option (Option Int) :=
  match cs with
  | [] => some none
  | _ =>
    match cs.dropWhile isClockGap with
    | ['Z'] => some (some 0)
    | sign :: rest => do
      let factor : Int ← if sign = '-' then some (-1) else if sign = '+' then some 1 else none
      let (hours, _, rest) ← readCount? 1 2 rest
      match rest with
      | [] => some (some (factor * (hours * 60)))
      | ':' :: rest => do
        let (minutes, _, rest) ← readCount? 2 2 rest
        if rest.isEmpty then some (some (factor * (hours * 60 + minutes))) else none
      | _ => none
    | [] => none

/-- The millionths that the digits of a fraction stand for; further digits are cut off. -/
def microsOf (digits : List Char) : Nat :=
  let six := digits.take 6
  six.foldl (fun n c => n * 10 + (c.toNat - 0x30)) 0 * Nat.pow 10 (6 - six.length)

/-- Reads a clock up to the end. -/
def readClock? (cs : List Char) : Option Clock := do
  let (hour, _, cs) ← readCount? 1 2 cs
  let cs ← readMark? ':' cs
  let (minute, _, cs) ← readCount? 2 2 cs
  let cs ← readMark? ':' cs
  let (second, _, cs) ← readCount? 2 2 cs
  let (fraction, cs) :=
    match cs with
    | '.' :: rest => (rest.takeWhile isAsciiDigit, rest.dropWhile isAsciiDigit)
    | _ => ([], cs)
  let zone ← readZone? cs
  some ⟨hour, minute, second, microsOf fraction, zone⟩

/-- What stands between a day and a clock. -/
def dropClockMark? (cs : List Char) : Option (List Char) :=
  match cs with
  | 'T' :: rest => some rest
  | 't' :: rest => some rest
  | c :: _ => if isClockGap c then some (cs.dropWhile isClockGap) else none
  | [] => none

/-- A text without the line end behind it, if there is more to it. -/
def dropLineEnd (cs : List Char) : List Char :=
  if cs.length > 1 && cs.getLast? == some '\n' then cs.dropLast else cs

/-- Reads a timestamp, behind which there may be a line end. -/
def readTimestamp? (cs : List Char) : Option Timestamp := do
  let cs := dropLineEnd cs
  let (year, _, cs) ← readCount? 4 4 cs
  let cs ← readMark? '-' cs
  let (month, monthDigits, cs) ← readCount? 1 2 cs
  let cs ← readMark? '-' cs
  let (day, dayDigits, cs) ← readCount? 1 2 cs
  let isPadded := monthDigits = 2 && dayDigits = 2
  if cs.isEmpty then some ⟨⟨year, month, day⟩, isPadded, none⟩
  else do
    let clock ← readClock? (← dropClockMark? cs)
    some ⟨⟨year, month, day⟩, isPadded, some clock⟩

/-- Whether a plain scalar is a timestamp. -/
def isTimestamp (cs : List Char) : Bool :=
  (readTimestamp? cs).any fun t => t.isPadded || t.clock.isSome

/-- Whether a year has a day more. -/
def isLeap (year : Nat) : Bool := year % 4 = 0 && (year % 100 ≠ 0 || year % 400 = 0)

/-- The number of days of a month. -/
def daysIn (year month : Nat) : Nat :=
  if month = 2 then (if isLeap year then 29 else 28)
  else if [4, 6, 9, 11].contains month then 30
  else 31

theorem daysIn_feb : daysIn 2000 2 = 29 := rfl

/-- Checks that a day is one of the calendar. -/
def checkDate (d : Date) : Except ClockFault Unit :=
  if d.year = 0 then .error (.year 0)
  else if d.month = 0 || d.month > 12 then .error .month
  else if d.day = 0 || d.day > daysIn d.year d.month then .error .day
  else .ok ()

/-- Checks that a clock shows a time of day. -/
def checkClock (c : Clock) : Except ClockFault Unit :=
  if c.hour > 23 then .error .hour
  else if c.minute > 59 then .error .minute
  else if c.second > 59 then .error .second
  else .ok ()

/-- Checks that a time zone is less than a day away. -/
def checkZone (c : Clock) : Except ClockFault Unit :=
  match c.zone with
  | some minutes => if minutes.natAbs ≥ 1440 then .error (.zone minutes) else .ok ()
  | none => .ok ()

/-- The day or the moment that a timestamp names. -/
def Timestamp.toScalar (t : Timestamp) : Except ClockFault Scalar :=
  match t.clock with
  | none => do
    checkDate t.date
    .ok (.date t.date)
  | some c => do
    checkZone c
    checkDate t.date
    checkClock c
    .ok (.moment ⟨t.date, c.hour, c.minute, c.second, c.micros, c.zone⟩)

end LuaCoverage.Yaml
