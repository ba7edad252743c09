import Sift.Calendar.DateTime
import Sift.Number.Integer

/-!
# Texts of dates and times

* `Date.text`: year, month and day with dashes; a sign where the year has not four digits.
* `LocalDateTime.text`: the date, `T`, and the time; of the fraction the thousands that matter.
* `UtcOffset.text`: hours and minutes, and the seconds where there are any.
* `OffsetDateTime.text`: the clock reading and the offset, to the minute.
-/

namespace Sift

open Number (padded)

/-- Four digits, or a sign and at least four. -/
def yearText (year : Int) : List Char :=
  if 0 ≤ year ∧ year ≤ 9999 then padded 4 year.natAbs
  else (if year < 0 then '-' else '+') :: padded 4 year.natAbs

/-- The text of a date. -/
def Date.text (d : Date) : List Char :=
  yearText d.year ++ '-' :: padded 2 d.month ++ '-' :: padded 2 d.day

/-- A fraction of a second in three, six or nine digits, nothing for none. -/
def fractionText (nano : Nat) : List Char :=
  if nano = 0 then []
  else if nano % 1000000 = 0 then '.' :: padded 3 (nano / 1000000)
  else if nano % 1000 = 0 then '.' :: padded 6 (nano / 1000)
  else '.' :: padded 9 nano

/-- The text of a time of day; a leap second is second 60. -/
def TimeOfDay.text (t : TimeOfDay) : List Char :=
  padded 2 (t.second / 3600) ++ ':' :: padded 2 (t.second / 60 % 60) ++
    ':' :: padded 2 (t.second % 60 + t.nano / nanosPerSecond) ++
    fractionText (t.nano % nanosPerSecond)

/-- The text of a date and time. -/
def LocalDateTime.text (t : LocalDateTime) : List Char := t.date.text ++ 'T' :: t.time.text

/-- The sign of an offset; none counts as ahead. -/
def UtcOffset.sign (o : UtcOffset) : Char := if o.seconds < 0 then '-' else '+'

/-- The text of an offset. -/
def UtcOffset.text (o : UtcOffset) : List Char :=
  let s := o.seconds.natAbs
  o.sign :: padded 2 (s / 3600) ++ ':' :: padded 2 (s / 60 % 60) ++
    (if s % 60 = 0 then [] else ':' :: padded 2 (s % 60))

/-- The text of an offset to the nearest minute. -/
def UtcOffset.minuteText (o : UtcOffset) : List Char :=
  let m := (o.seconds.natAbs + 30) / 60
  o.sign :: padded 2 (m / 60) ++ ':' :: padded 2 (m % 60)

/-- The text of an instant on its clock. -/
def OffsetDateTime.text (t : OffsetDateTime) : List Char := t.clock.text ++ t.offset.minuteText

end Sift
