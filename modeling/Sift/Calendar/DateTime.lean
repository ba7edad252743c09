import Sift.Calendar.Date

/-!
# Times of day and instants

* `TimeOfDay`: seconds after midnight and a fraction; a leap second is a fraction of one or more.
* `LocalDateTime`: a date and a time on some clock.
* `UtcOffset`: how far a clock is ahead of UTC, less than a day either way.
* `OffsetDateTime`: a clock reading with its offset, ordered by the instant it names.
-/

namespace Sift

/-- The nanoseconds of a second. -/
def nanosPerSecond : Nat := 1000000000

/-- A time of day. The leap second after a second is its fraction from one up. -/
structure TimeOfDay where
  second : Nat
  nano : Nat
  second_lt : second < 86400
  nano_lt : nano < 2 * nanosPerSecond
  deriving DecidableEq

namespace TimeOfDay

/-- The first moment of a day. -/
def midnight : TimeOfDay := ⟨0, 0, by decide, by decide⟩

/-- The time of a clock reading; second 60 is the leap second after second 59. -/
def ofHms? (hour minute second nano : Nat) : Option TimeOfDay :=
  if h : hour < 24 ∧ minute < 60 ∧ second < 60 ∧ nano < nanosPerSecond then
    some ⟨hour * 3600 + minute * 60 + second, nano, by omega, by omega⟩
  else if h : hour < 24 ∧ minute < 60 ∧ second = 60 ∧ nano < nanosPerSecond then
    some ⟨hour * 3600 + minute * 60 + 59, nanosPerSecond + nano, by omega, by omega⟩
  else none

instance : Ord TimeOfDay where
  compare := compareLex (compareOn TimeOfDay.second) (compareOn TimeOfDay.nano)

end TimeOfDay

/-- A date and a time on some clock. -/
structure LocalDateTime where
  date : Date
  time : TimeOfDay
  deriving DecidableEq

namespace LocalDateTime

instance : Ord LocalDateTime where
  compare := compareLex (compareOn LocalDateTime.date) (compareOn LocalDateTime.time)

/-- The first moment of a date. -/
def atMidnight (d : Date) : LocalDateTime := ⟨d, .midnight⟩

end LocalDateTime

/-- The seconds that a clock is ahead of UTC. -/
structure UtcOffset where
  seconds : Int
  seconds_gt : -86400 < seconds
  seconds_lt : seconds < 86400
  deriving DecidableEq

namespace UtcOffset

/-- The clock of UTC itself. -/
def zero : UtcOffset := ⟨0, by decide, by decide⟩

/-- The offset of some seconds, if it is less than a day. -/
def ofSeconds? (seconds : Int) : Option UtcOffset :=
  if h : -86400 < seconds ∧ seconds < 86400 then some ⟨seconds, h.1, h.2⟩ else none

end UtcOffset

/-- The reading of the UTC clock when a clock with this offset shows `t`. -/
def LocalDateTime.toUtc? (t : LocalDateTime) (o : UtcOffset) : Option LocalDateTime :=
  have hs := t.time.second_lt
  have hl := o.seconds_gt
  have hu := o.seconds_lt
  let second := (t.time.second : Int) - o.seconds
  if h : second < 0 then
    t.date.prev?.map (⟨·, ⟨(second + 86400).toNat, t.time.nano, by omega, t.time.nano_lt⟩⟩)
  else if h' : 86400 ≤ second then
    t.date.next?.map (⟨·, ⟨(second - 86400).toNat, t.time.nano, by omega, t.time.nano_lt⟩⟩)
  else some ⟨t.date, ⟨second.toNat, t.time.nano, by omega, t.time.nano_lt⟩⟩

/-- A clock with no offset shows UTC. -/
theorem LocalDateTime.toUtc?_zero (t : LocalDateTime) : t.toUtc? .zero = some t := by
  have h := t.time.second_lt
  have h0 : ¬((t.time.second : Int) - UtcOffset.zero.seconds < 0) := by simp [UtcOffset.zero]
  have h1 : ¬(86400 ≤ (t.time.second : Int) - UtcOffset.zero.seconds) := by
    simp only [UtcOffset.zero]; omega
  rw [toUtc?, dif_neg h0, dif_neg h1]
  simp [UtcOffset.zero]

/-- A clock reading together with the offset of the clock, and the UTC reading at that instant. -/
structure OffsetDateTime where
  clock : LocalDateTime
  offset : UtcOffset
  utc : LocalDateTime
  utc_eq : clock.toUtc? offset = some utc
  deriving DecidableEq

namespace OffsetDateTime

/-- A clock reading with an offset; none where the instant is out of the calendar. -/
def of? (clock : LocalDateTime) (offset : UtcOffset) : Option OffsetDateTime :=
  match h : clock.toUtc? offset with
  | some utc => some ⟨clock, offset, utc, h⟩
  | none => none

/-- A clock reading taken as UTC. -/
def ofUtc (t : LocalDateTime) : OffsetDateTime := ⟨t, .zero, t, t.toUtc?_zero⟩

/-- Instants are ordered in time, whatever their clocks show. -/
instance : Ord OffsetDateTime where
  compare := compareOn OffsetDateTime.utc

end OffsetDateTime

end Sift
