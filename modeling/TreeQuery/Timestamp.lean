/-!
# Moments in time

A moment is written as a date, the letter `T`, a time of day with up to nine decimal places of the
second, and the offset from universal time, `Z` for none: `2024-05-06T07:08:09.5+02:00`.

`Timestamp.read` is lenient where common writers are careless: the hour may have one digit, a
comma may stand for the point, places past the ninth are dropped, and offsets reach up to
twenty-four hours and sixty minutes.  `Timestamp.text?` writes the shortest form, if there is one.
-/

namespace TreeQuery

namespace Text

def isLeapYear (year : Nat) : Bool :=
  year % 4 == 0 && (year % 100 != 0 || year % 400 == 0)

def daysIn (year month : Nat) : Nat :=
  if month == 2 then (if isLeapYear year then 29 else 28)
  else if month == 4 || month == 6 || month == 9 || month == 11 then 30
  else 31

def isDate (year month day : Nat) : Bool :=
  1 ≤ month && month ≤ 12 && 1 ≤ day && day ≤ daysIn year month

end Text

/-- **A moment in time**, by the calendar and clock of a place. -/
structure Timestamp where
  year : Nat
  month : Nat
  day : Nat
  hour : Nat
  minute : Nat
  second : Nat
  nanosecond : Nat
  /-- How many minutes the place is ahead of universal time. -/
  offset : Int
  deriving DecidableEq, Repr

namespace Timestamp

/-- The moment that stands for no moment at all. -/
def zero : Timestamp := ⟨1, 1, 1, 0, 0, 0, 0, 0⟩

/-! ## Reading -/

def digit? : List Char → Option (Nat × List Char)
  | c :: rest => if c.isDigit then some (c.toNat - 48, rest) else none
  | [] => none

def twoDigits? (cs : List Char) : Option (Nat × List Char) := do
  let (a, rest) ← digit? cs
  let (b, rest) ← digit? rest
  return (10 * a + b, rest)

def upToTwoDigits? (cs : List Char) : Option (Nat × List Char) := do
  let (a, rest) ← digit? cs
  match digit? rest with
  | some (b, rest) => return (10 * a + b, rest)
  | none => return (a, rest)

def after? (c : Char) : List Char → Option (List Char)
  | d :: rest => if d = c then some rest else none
  | [] => none

/-- The nanoseconds that the decimal places of a second spell. -/
def nanoseconds (places : List Char) : Nat :=
  let ds := (places.take 9).map fun c => c.toNat - 48
  ds.foldl (fun n d => 10 * n + d) 0 * Nat.pow 10 (9 - ds.length)

def fraction (cs : List Char) : Nat × List Char :=
  match cs with
  | c :: d :: rest =>
    if (c = '.' ∨ c = ',') ∧ d.isDigit then
      (nanoseconds ((d :: rest).takeWhile Char.isDigit), (d :: rest).dropWhile Char.isDigit)
    else (0, cs)
  | _ => (0, cs)

/-- The offset in minutes that ends a text. -/
def offset? (cs : List Char) : Option Int :=
  match cs with
  | ['Z'] => some 0
  | c :: rest => do
    let (h, rest) ← twoDigits? rest
    let rest ← after? ':' rest
    let (m, rest) ← twoDigits? rest
    if !rest.isEmpty || h > 24 || m > 60 then none
    else if c = '+' then some (h * 60 + m : Nat)
    else if c = '-' then some (-((h * 60 + m : Nat) : Int))
    else none
  | [] => none

def date? (cs : List Char) : Option ((Nat × Nat × Nat) × List Char) := do
  let (y, rest) ← twoDigits? cs
  let (z, rest) ← twoDigits? rest
  let rest ← after? '-' rest
  let (month, rest) ← twoDigits? rest
  let rest ← after? '-' rest
  let (day, rest) ← twoDigits? rest
  if Text.isDate (100 * y + z) month day then return ((100 * y + z, month, day), rest) else none

def clock? (cs : List Char) : Option ((Nat × Nat × Nat × Nat) × List Char) := do
  let (hour, rest) ← upToTwoDigits? cs
  let rest ← after? ':' rest
  let (minute, rest) ← twoDigits? rest
  let rest ← after? ':' rest
  let (second, rest) ← twoDigits? rest
  let (nanosecond, rest) := fraction rest
  if hour < 24 && minute < 60 && second < 60 then
    return ((hour, minute, second, nanosecond), rest)
  else none

/-- **The moment that a text spells.** -/
def read (cs : List Char) : Option Timestamp := do
  let ((year, month, day), rest) ← date? cs
  let rest ← after? 'T' rest
  let ((hour, minute, second, nanosecond), rest) ← clock? rest
  let offset ← offset? rest
  return ⟨year, month, day, hour, minute, second, nanosecond, offset⟩

/-! ## Comparing -/

def daysBefore (year : Nat) : Int :=
  let y : Int := (year : Int) - 1
  365 * y + y / 4 - y / 100 + y / 400

/-- The seconds from the first moment of the year 1 of universal time. -/
def seconds (t : Timestamp) : Int :=
  let months := (List.range (t.month - 1)).foldl (fun n m => n + Text.daysIn t.year (m + 1)) 0
  let days : Int := daysBefore t.year + months + t.day - 1
  ((days * 24 + t.hour) * 60 + t.minute - t.offset) * 60 + t.second

def isZero (t : Timestamp) : Bool :=
  t.seconds == 0 && t.nanosecond == 0

def orElse (t other : Timestamp) : Timestamp :=
  if t.isZero then other else t

/-! ## Writing -/

def padded (width n : Nat) : List Char :=
  let ds := Nat.toDigits 10 n
  List.replicate (width - ds.length) '0' ++ ds

def fractionText (nanosecond : Nat) : List Char :=
  if nanosecond = 0 then []
  else '.' :: ((padded 9 nanosecond).reverse.dropWhile (· == '0')).reverse

/-- Minutes with their sign, as hours and minutes with a text between them. -/
def signedText (between : List Char) (minutes : Int) : List Char :=
  (if minutes < 0 then '-' else '+') ::
    (padded 2 (minutes.natAbs / 60) ++ (between ++ padded 2 (minutes.natAbs % 60)))

def offsetText (offset : Int) : List Char :=
  if offset = 0 then ['Z'] else signedText [':'] offset

def text (t : Timestamp) : String :=
  String.ofList (padded 4 t.year ++ '-' :: padded 2 t.month ++ '-' :: padded 2 t.day ++
    'T' :: padded 2 t.hour ++ ':' :: padded 2 t.minute ++ ':' :: padded 2 t.second ++
    fractionText t.nanosecond ++ offsetText t.offset)

/-- **The text of a moment**, if it has one that can be read everywhere. -/
def text? (t : Timestamp) : Option String :=
  if t.offset.natAbs < 24 * 60 then some t.text else none

/-! ## From a clock -/

/-- **The moment of a clock** that counts the seconds since the start of 1970, universal time.
Years are taken to start in March, so that a leap day is the last of its year. -/
def ofClock (seconds nanosecond : Nat) : Timestamp :=
  let days := seconds / 86400 + 719468
  let ofDay := seconds % 86400
  let ofEra := days % 146097
  let yearOfEra := (ofEra - ofEra / 1460 + ofEra / 36524 - ofEra / 146096) / 365
  let dayOfYear := ofEra - (365 * yearOfEra + yearOfEra / 4 - yearOfEra / 100)
  let monthFromMarch := (5 * dayOfYear + 2) / 153
  let month := if monthFromMarch < 10 then monthFromMarch + 3 else monthFromMarch - 9
  let year := yearOfEra + days / 146097 * 400
  { year := if month ≤ 2 then year + 1 else year
    month := month
    day := dayOfYear - (153 * monthFromMarch + 2) / 5 + 1
    hour := ofDay / 3600
    minute := ofDay / 60 % 60
    second := ofDay % 60
    nanosecond := nanosecond
    offset := 0 }

end Timestamp

/-! ## Moments of a database -/

/-- **A moment as a database gives it**: of any year, by the clock of a zone that may have a name.
The year before the first is zero, and those before it are negative. -/
structure Moment where
  year : Int
  month : Nat
  day : Nat
  hour : Nat
  minute : Nat
  second : Nat
  nanosecond : Nat
  /-- How many seconds the zone is ahead of universal time. -/
  offset : Int
  zone : String
  deriving DecidableEq, Repr

namespace Moment

open Timestamp

def minutes (t : Moment) : Int := t.offset.tdiv 60

def dateText (t : Moment) : List Char :=
  (if t.year < 0 then ['-'] else []) ++ padded 4 t.year.natAbs ++
    '-' :: padded 2 t.month ++ '-' :: padded 2 t.day

def clockText (t : Moment) : List Char :=
  padded 2 t.hour ++ ':' :: padded 2 t.minute ++ ':' :: padded 2 t.second ++
    fractionText t.nanosecond

def text (t : Moment) : String :=
  String.ofList (t.dateText ++ 'T' :: t.clockText ++
    (if t.offset = 0 then ['Z'] else signedText [':'] t.minutes))

/-- **The text of a moment**, if it has one that can be read everywhere: the year has four digits,
and the zone is less than a day ahead or behind. -/
def text? (t : Moment) : Option String :=
  if 0 ≤ t.year ∧ t.year < 10000 ∧ t.minutes.natAbs < 24 * 60 then some t.text else none

/-- The moment in plain words, with the name of the zone or its offset once more. -/
def display (t : Moment) : String :=
  String.ofList (t.dateText ++ ' ' :: t.clockText ++ ' ' :: signedText [] t.minutes ++
    ' ' :: (if t.zone.isEmpty then signedText [] t.minutes else t.zone.toList))

end Moment

end TreeQuery
