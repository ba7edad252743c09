import Sift.Calendar.DateTime
import Sift.Number.Integer
import Sift.Text.Blank

/-!
# Reading dates and times

Two families of formats. In the loose ones white space may stand before every number and numbers
may be short; in the internet format every field has its width.

* `readDate?`: year, month and day.
* `readLocalDateTime?`: a date and a time to the second, or to the minute.
* `readInternetDateTime?`: a date, a time and an offset of fixed width.
-/

namespace Sift

open Number (digitsValue)

namespace Calendar

/-- At most `width` digits, and at least one. -/
def digitsUpTo? (width : Nat) (cs : List Char) : Option (Nat × List Char) :=
  let ds := (cs.take width).takeWhile Char.isDigit
  if ds = [] then none else some (digitsValue ds, cs.drop ds.length)

/-- Exactly `width` digits. -/
def digits? (width : Nat) (cs : List Char) : Option (Nat × List Char) :=
  let ds := cs.take width
  if ds.length = width ∧ ds.all Char.isDigit then some (digitsValue ds, cs.drop width) else none

/-- All the digits at the front, at least one. -/
def allDigits? (cs : List Char) : Option (Nat × List Char) := digitsUpTo? cs.length cs

/-- What follows one character. -/
def after? (c : Char) : List Char → Option (List Char)
  | d :: rest => if d = c then some rest else none
  | [] => none

/-- White space, then at most two digits. -/
def number? (cs : List Char) : Option (Nat × List Char) := digitsUpTo? 2 (Text.trimStart cs)

/-- White space, then a year: four digits at most, or a sign and any number of them. -/
def year? (cs : List Char) : Option (Int × List Char) :=
  match Text.trimStart cs with
  | '-' :: rest => (allDigits? rest).map fun (n, r) => (-(n : Int), r)
  | '+' :: rest => (allDigits? rest).map fun (n, r) => ((n : Int), r)
  | rest => (digitsUpTo? 4 rest).map fun (n, r) => ((n : Int), r)

/-- A fraction of a second after its point, in nanoseconds. Digits after the ninth do not
count. -/
def nanos? (cs : List Char) : Option (Nat × List Char) := do
  let (n, rest) ← digitsUpTo? 9 cs
  return (n * Nat.pow 10 (9 - (cs.length - rest.length)), rest.dropWhile Char.isDigit)

/-- A fraction of a second, if a point announces one. -/
def fraction? : List Char → Option (Nat × List Char)
  | '.' :: rest => nanos? rest
  | cs => some (0, cs)

/-- A date with dashes, and what follows it. -/
def date? (cs : List Char) : Option (Date × List Char) := do
  let (year, cs) ← year? cs
  let (month, cs) ← number? (← after? '-' cs)
  let (day, cs) ← number? (← after? '-' cs)
  return (← Date.ofYmd? year month day, cs)

/-- Hours and minutes, and what follows them. -/
def hourMinute? (cs : List Char) : Option (Nat × Nat × List Char) := do
  let (hour, cs) ← number? cs
  let (minute, cs) ← number? (← after? ':' cs)
  return (hour, minute, cs)

/-- A time to the second. -/
def secondTime? (cs : List Char) : Option (TimeOfDay × List Char) := do
  let (hour, minute, cs) ← hourMinute? cs
  let (second, cs) ← number? (← after? ':' cs)
  let (nano, cs) ← fraction? cs
  return (← TimeOfDay.ofHms? hour minute second nano, cs)

/-- A time to the minute. -/
def minuteTime? (cs : List Char) : Option (TimeOfDay × List Char) := do
  let (hour, minute, cs) ← hourMinute? cs
  return (← TimeOfDay.ofHms? hour minute 0 0, cs)

/-- A date, `T`, and a time, and nothing after. -/
def dateTimeWith? (time? : List Char → Option (TimeOfDay × List Char)) (cs : List Char) :
    Option LocalDateTime := do
  let (date, cs) ← date? cs
  let (time, cs) ← time? (← after? 'T' cs)
  if cs = [] then some ⟨date, time⟩ else none

/-- The sign of an offset: a plus, a hyphen or a minus sign. -/
def offsetSign? : List Char → Option (Int × List Char)
  | c :: rest =>
    if c = '+' then some (1, rest)
    else if c = '-' ∨ c.toNat = 0x2212 then some (-1, rest)
    else none
  | [] => none

/-- `Z`, or a sign, hours and minutes. -/
def internetOffset? (cs : List Char) : Option (UtcOffset × List Char) :=
  match cs with
  | 'Z' :: rest | 'z' :: rest => some (.zero, rest)
  | _ => do
    let (sign, cs) ← offsetSign? cs
    let (hour, cs) ← digits? 2 cs
    let (minute, cs) ← digits? 2 (← after? ':' cs)
    if minute < 60 then
      return (← UtcOffset.ofSeconds? (sign * (hour * 3600 + minute * 60)), cs)
    else none

/-- The mark between a date and a time. -/
def internetMark? : List Char → Option (List Char)
  | c :: rest => if c = 'T' ∨ c = 't' ∨ c = ' ' then some rest else none
  | [] => none

end Calendar

open Calendar

/-- A date, and nothing after it. -/
def readDate? (cs : List Char) : Option Date := do
  let (date, rest) ← date? cs
  if rest = [] then some date else none

/-- A date and time without an offset, to the second or to the minute. -/
def readLocalDateTime? (cs : List Char) : Option LocalDateTime :=
  (dateTimeWith? secondTime? cs).orElse fun _ => dateTimeWith? minuteTime? cs

/-- A date and time with an offset, every field in its width. -/
def readInternetDateTime? (cs : List Char) : Option OffsetDateTime := do
  let (year, cs) ← digits? 4 cs
  let (month, cs) ← digits? 2 (← after? '-' cs)
  let (day, cs) ← digits? 2 (← after? '-' cs)
  let (hour, cs) ← digits? 2 (← internetMark? cs)
  let (minute, cs) ← digits? 2 (← after? ':' cs)
  let (second, cs) ← digits? 2 (← after? ':' cs)
  let (nano, cs) ← fraction? cs
  let (offset, cs) ← internetOffset? cs
  let date ← Date.ofYmd? year month day
  let time ← TimeOfDay.ofHms? hour minute second nano
  if cs = [] then OffsetDateTime.of? ⟨date, time⟩ offset else none

end Sift
