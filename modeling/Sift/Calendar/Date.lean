/-!
# Calendar dates

* `Date`: a day of the proleptic Gregorian calendar, in the years -262143 to 262142.
* `Date.next?`, `Date.prev?`: the neighbouring days, inside these years.
* `Date.ofYmd?_self`: every day is found by its numbers.
-/

namespace Sift

/-- Every fourth year, but of the centuries only every fourth. -/
def isLeapYear (year : Int) : Bool := year % 4 == 0 && (year % 100 != 0 || year % 400 == 0)

/-- The days of a month. -/
def daysInMonth (year : Int) : Nat → Nat
  | 2 => if isLeapYear year then 29 else 28
  | 4 | 6 | 9 | 11 => 30
  | _ => 31

/-- A day of the proleptic Gregorian calendar. -/
structure Date where
  year : Int
  month : Nat
  day : Nat
  year_ge : -262143 ≤ year
  year_le : year ≤ 262142
  month_pos : 1 ≤ month
  month_le : month ≤ 12
  day_pos : 1 ≤ day
  day_le : day ≤ daysInMonth year month
  deriving DecidableEq

namespace Date

/-- The day with these numbers, if there is one. -/
def ofYmd? (year : Int) (month day : Nat) : Option Date :=
  if h : -262143 ≤ year ∧ year ≤ 262142 ∧ 1 ≤ month ∧ month ≤ 12 ∧ 1 ≤ day ∧
      day ≤ daysInMonth year month then
    some ⟨year, month, day, h.1, h.2.1, h.2.2.1, h.2.2.2.1, h.2.2.2.2.1, h.2.2.2.2.2⟩
  else none

/-- Years first, then months, then days. -/
instance : Ord Date where
  compare := compareLex (compareOn Date.year) (compareLex (compareOn Date.month)
    (compareOn Date.day))

/-- The day after. -/
def next? (d : Date) : Option Date :=
  ((ofYmd? d.year d.month (d.day + 1)).orElse fun _ => ofYmd? d.year (d.month + 1) 1).orElse
    fun _ => ofYmd? (d.year + 1) 1 1

/-- The day before. -/
def prev? (d : Date) : Option Date :=
  ((ofYmd? d.year d.month (d.day - 1)).orElse fun _ =>
      ofYmd? d.year (d.month - 1) (daysInMonth d.year (d.month - 1))).orElse
    fun _ => ofYmd? (d.year - 1) 12 31

theorem ofYmd?_self (d : Date) : ofYmd? d.year d.month d.day = some d := by
  rw [ofYmd?, dif_pos ⟨d.year_ge, d.year_le, d.month_pos, d.month_le, d.day_pos, d.day_le⟩]

end Date

end Sift
