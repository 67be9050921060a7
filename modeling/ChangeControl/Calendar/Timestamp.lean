import ChangeControl.Calendar.Date
import ChangeControl.Text.Quoted
/-!
Moments in time, and their notation.

A moment has a date, a time of day down to microseconds, and possibly a distance from universal
time.  It is written as a date, the letter `T` and a time, with a fraction of six digits unless that
is zero, and with the distance as a sign, hours and minutes, and as much more as is not zero.

The reader accepts more than the writer writes: dates by numbered weeks, dates and times without
the marks between their parts, any character between date and time, missing minutes and seconds,
fractions of any length after a point or a comma, and `Z` for universal time.

Main definitions:

* `Calendar.Timestamp` — a moment, with the proof that its parts are in range;
* `Timestamp.text` — how it is written;
* `Timestamp.Fault` — why a text is no moment, with `Fault.message`;
* `Timestamp.ofText` — reading;
* `Timestamp.ofEpoch` — a moment of universal time by the microseconds since 1970.
-/

set_option autoImplicit false

namespace ChangeControl.Calendar

/-- The microseconds of a day. -/
def dayLength : Int := 86400000000

/-- A moment in time. -/
structure Timestamp where
  year : Nat
  month : Nat
  day : Nat
  hour : Nat
  minute : Nat
  second : Nat
  microsecond : Nat
  /-- How far local time is ahead of universal time, in microseconds. -/
  offset : Option Int
  year_pos : 1 ≤ year
  year_le : year ≤ 9999
  month_pos : 1 ≤ month
  month_le : month ≤ 12
  day_pos : 1 ≤ day
  day_le : day ≤ daysInMonth year month
  hour_lt : hour < 24
  minute_lt : minute < 60
  second_lt : second < 60
  microsecond_lt : microsecond < 1000000
  offset_lt : ∀ z ∈ offset, z.natAbs < 86400000000
deriving DecidableEq, Repr

namespace Timestamp

/-! ### Writing -/

/-- A number with zeros in front up to `width` digits. -/
def pad (width n : Nat) : String :=
  let digits := Nat.toDigits 10 n
  String.ofList (List.replicate (width - digits.length) '0' ++ digits)

/-- A fraction of a second with its point; nothing for zero. -/
def fractionText (microsecond : Nat) : String :=
  if microsecond = 0 then "" else "." ++ pad 6 microsecond

/-- A distance from universal time. -/
def offsetText (offset : Int) : String :=
  let n := offset.natAbs
  let micro := n % 1000000
  let seconds := n / 1000000
  (if offset < 0 then "-" else "+") ++ pad 2 (seconds / 3600) ++ ":" ++
    pad 2 (seconds / 60 % 60) ++
    (if seconds % 60 = 0 ∧ micro = 0 then "" else ":" ++ pad 2 (seconds % 60)) ++
    fractionText micro

/-- The moment as it is written. -/
def text (t : Timestamp) : String :=
  pad 4 t.year ++ "-" ++ pad 2 t.month ++ "-" ++ pad 2 t.day ++ "T" ++ pad 2 t.hour ++ ":" ++
    pad 2 t.minute ++ ":" ++ pad 2 t.second ++ fractionText t.microsecond ++
    (match t.offset with
      | none => ""
      | some z => offsetText z)

/-! ### Parts in range -/

/-- Why a text is no moment. -/
inductive Fault
  /-- The text has not the form of one. -/
  | form (text : String)
  | year (year : Int)
  | month | day | hour | minute | second
  /-- The distance from universal time is a day or more. -/
  | offset (offset : Int)
deriving DecidableEq, Repr

/-- A length of time as whole days, and as the seconds and microseconds beyond them, leaving out
what is zero. -/
def lengthText (offset : Int) : String :=
  let days := offset.fdiv dayLength
  let micro := (offset.fmod dayLength).toNat
  let parts :=
    [("days", days), ("seconds", (micro / 1000000 : Nat)),
      ("microseconds", (micro % 1000000 : Nat))]
  let shown := (parts.filter fun p => p.2 ≠ 0).map fun p => p.1 ++ "=" ++ toString p.2
  "datetime.timedelta(" ++ ", ".intercalate shown ++ ")"

/-- One sentence on the fault. -/
def Fault.message : Fault → String
  | form text => "Invalid isoformat string: " ++ Text.quote text
  | year y => "year " ++ toString y ++ " is out of range"
  | month => "month must be in 1..12"
  | day => "day is out of range for month"
  | hour => "hour must be in 0..23"
  | minute => "minute must be in 0..59"
  | second => "second must be in 0..59"
  | offset z =>
    "offset must be a timedelta strictly between -timedelta(hours=24) and " ++
      "timedelta(hours=24), not " ++ lengthText z ++ "."

/-- The parts of a moment before they are known to be in range. -/
structure Parts where
  year : Nat
  month : Nat
  day : Nat
  hour : Nat
  minute : Nat
  second : Nat
  microsecond : Nat
  offset : Option Int
deriving DecidableEq, Repr

/-- The moment with these parts, if each of them is in range. -/
def ofParts (p : Parts) : Except Fault Timestamp :=
  if zone : ∀ z ∈ p.offset, z.natAbs < 86400000000 then
    if year : 1 ≤ p.year ∧ p.year ≤ 9999 then
      if month : 1 ≤ p.month ∧ p.month ≤ 12 then
        if day : 1 ≤ p.day ∧ p.day ≤ daysInMonth p.year p.month then
          if hour : p.hour < 24 then
            if minute : p.minute < 60 then
              if second : p.second < 60 ∧ p.microsecond < 1000000 then
                .ok ⟨p.year, p.month, p.day, p.hour, p.minute, p.second, p.microsecond, p.offset,
                  year.1, year.2, month.1, month.2, day.1, day.2, hour, minute, second.1,
                  second.2, zone⟩
              else .error .second
            else .error .minute
          else .error .hour
        else .error .day
      else .error .month
    else .error (.year p.year)
  else .error (.offset (p.offset.getD 0))

/-! ### Reading -/

/-- A number of exactly `count` digits at the front of a text. -/
def digits? (count : Nat) (cs : List Char) : Option (Nat × List Char) :=
  let ds := cs.take count
  if ds.length = count ∧ ds.all Char.isDigit then
    some (ds.foldl (fun n c => n * 10 + (c.toNat - 48)) 0, cs.drop count)
  else none

/-- The text after the character `c`. -/
def after? (c : Char) : List Char → Option (List Char)
  | [] => none
  | d :: rest => if d = c then some rest else none

/-- The number of characters of the date at the front of a text: ten with marks and eight without;
seven, eight or ten for a week, depending on marks and on the digits that follow. -/
def dateLength (cs : List Char) : Nat :=
  if cs.length = 7 then 7
  else if cs[4]? = some '-' then
    if cs[5]? = some 'W' then
      if cs[8]? = some '-' then if (cs[10]?.map Char.isDigit).getD false then 8 else 10
      else 8
    else 10
  else if cs[4]? = some 'W' then
    let run := ((cs.drop 7).takeWhile Char.isDigit).length
    if run < 2 then 7 + run else if run % 2 = 1 then 7 else 8
  else 8

/-- The year, the month and the day of a date. -/
def date? (cs : List Char) : Option (Nat × Nat × Nat) := do
  let (year, rest) ← digits? 4 cs
  let marked := (after? '-' rest).isSome
  let rest := (after? '-' rest).getD rest
  match after? 'W' rest with
  | some rest =>
    let (week, rest) ← digits? 2 rest
    let (day, rest) ←
      if rest.isEmpty then some (1, rest)
      else do digits? 1 (← if marked then after? '-' rest else some rest)
    let date ← dateOfWeek? year week day
    if rest.isEmpty then some (if year = 0 then (1, 0, 1) else date) else none
  | none =>
    let (month, rest) ← digits? 2 rest
    let rest ← if marked then after? '-' rest else some rest
    let (day, rest) ← digits? 2 rest
    if rest.isEmpty then some (year, month, day) else none

/-- The hours, minutes and seconds that were read, the fraction in microseconds, and whether
characters of the text are left over. -/
structure ClockReading where
  fields : List Nat
  microsecond : Nat
  leftOver : Bool

/-- Whether a text is over: there is nothing more of it, or a null character ends it. -/
def isOver (cs : List Char) : Bool := cs.isEmpty || cs.head? == some '\x00'

/-- A fraction of a second: digits after the sixth are passed over, and before it there must be
nothing else.  `followed` tells whether the clock time is followed by a zone. -/
def fraction? (followed : Bool) (cs : List Char) : Option ClockReading := do
  let count := min cs.length 6
  let (n, rest) ← digits? count cs
  return ⟨[], n * Nat.pow 10 (6 - count), !isOver (rest.dropWhile Char.isDigit) || followed⟩

/-- Up to `count` two-digit fields and a fraction.  Whether the fields are separated by colons is
seen at the first of them.  A single character behind a field, if it is one of ASCII, is left over
unless it ends the text. -/
def clockFields? (followed : Bool) : Nat → Option Bool → List Char → Option ClockReading
  | 0, _, cs => fraction? followed cs
  | count + 1, colons, cs =>
    match digits? 2 cs with
    | none => none
    | some (n, rest) =>
      let more (r : Option ClockReading) := r.map fun r => { r with fields := n :: r.fields }
      match rest with
      | [] => some ⟨[n], 0, followed⟩
      | [c] => if c.toNat < 0x80 then some ⟨[n], 0, !isOver [c]⟩ else none
      | c :: tail =>
        let marked := colons.getD (c == ':')
        if marked && c == ':' then more (clockFields? followed count (some marked) tail)
        else if c == '.' || c == ',' then more (fraction? followed tail)
        else if marked then none
        else more (clockFields? followed count (some marked) (c :: tail))

/-- Three fields of a clock time; the ones that are missing are zero. -/
def ClockReading.field (r : ClockReading) (i : Nat) : Nat := r.fields[i]?.getD 0

/-- The whole seconds of a clock time. -/
def ClockReading.seconds (r : ClockReading) : Nat :=
  r.field 0 * 3600 + r.field 1 * 60 + r.field 2

/-- The marks that open a zone. -/
def isZoneMark (c : Char) : Bool := c == '+' || c == '-' || c == 'Z'

/-- A distance from universal time, after the mark that opens it; less than a second counts as
none. -/
def zone? (mark : Char) (cs : List Char) : Option Int :=
  if mark = 'Z' then if isOver cs then some 0 else none
  else
    match clockFields? false 3 none cs with
    | none => none
    | some r =>
      let n : Int := if r.seconds = 0 then 0 else r.seconds * 1000000 + r.microsecond
      if r.leftOver then none else some (if mark = '-' then -n else n)

/-- The time of day and the distance from universal time. -/
def time? (cs : List Char) : Option (ClockReading × Option Int) := do
  let clock := cs.takeWhile fun c => !isZoneMark c
  match cs.dropWhile fun c => !isZoneMark c with
  | [] =>
    let r ← clockFields? false 3 none clock
    if r.leftOver then none else some (r, none)
  | mark :: rest =>
    let r ← clockFields? true 3 none clock
    let z ← zone? mark rest
    return (r, some z)

/-- The parts of the moment that a text has the form of. -/
def parts? (cs : List Char) : Option Parts := do
  if cs.length < 7 then none
  let length := dateLength cs
  let (year, month, day) ← date? (cs.take length)
  match cs.drop length with
  | [] => return ⟨year, month, day, 0, 0, 0, 0, none⟩
  | _ :: time =>
    let (clock, offset) ← time? time
    return ⟨year, month, day, clock.field 0, clock.field 1, clock.field 2, clock.microsecond,
      offset⟩

/-- The moment that a text stands for. -/
def ofText (s : String) : Except Fault Timestamp :=
  match parts? s.toList with
  | none => .error (.form s)
  | some parts => ofParts parts

/-- The days of four hundred years. -/
def cycleLength : Int := 146097

/-- The moment of universal time that lies this many microseconds after the start of 1970.  A year
out of range is told by its lowest 32 bits. -/
def ofEpoch (microseconds : Int) : Except Fault Timestamp :=
  let number := microseconds.fdiv dayLength + 719162
  let left := (microseconds.fmod dayLength).toNat
  let seconds := left / 1000000
  let (inCycle, month, day) := dateOfDayNumber ((number.fmod cycleLength).toNat + 1)
  let year := 400 * number.fdiv cycleLength + inCycle
  if 1 ≤ year ∧ year ≤ 9999 then
    ofParts ⟨year.toNat, month, day, seconds / 3600, seconds / 60 % 60, seconds % 60,
      left % 1000000, some 0⟩
  else .error (.year (year.bmod 4294967296))

end Timestamp

end ChangeControl.Calendar
