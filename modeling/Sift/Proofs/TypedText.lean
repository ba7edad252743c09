import Sift.Proofs.DateShape
import Sift.Proofs.NumberText

/-!
# Values and their texts

Filters are shown and stored as texts, so a value may come back as its text and has to be read as
the kind that it is compared with.

* `TimeOfDay.shown`: the time that a text shows, where a leap second follows any second.
* `Scalar.TextKeeps`: a value and its text are the same value of a kind.
* `Operand.as_text`: **they are read alike** but for doubles whose shortest digits are another
  integer, and for leap seconds inside a minute.
* `Operand.exists_unlike_text`: those are not.
-/

namespace Sift

open Number Text

/-! ## Leap seconds -/

namespace TimeOfDay

variable {t : TimeOfDay}

instance (t : TimeOfDay) : Decidable t.Regular := inferInstanceAs (Decidable (_ ∨ _))

/-- The time that is shown. Inside a minute a leap second is shown as the second that follows. -/
def shown (t : TimeOfDay) : TimeOfDay :=
  have hsecond := t.second_lt
  have hnano := t.nano_lt
  if h : t.Regular then t
  else ⟨t.second + 1, t.nano - nanosPerSecond,
    by unfold Regular nanosPerSecond at *; omega, by unfold Regular nanosPerSecond at *; omega⟩

theorem shown_of_regular (h : t.Regular) : t.shown = t := dif_pos h

theorem shown_of_not_regular (h : ¬t.Regular) :
    t.shown.second = t.second + 1 ∧ t.shown.nano = t.nano - nanosPerSecond := by
  unfold shown
  rw [dif_neg h]
  exact ⟨rfl, rfl⟩

theorem shown_eq_iff : t.shown = t ↔ t.Regular := by
  refine ⟨fun h => ?_, shown_of_regular⟩
  by_contra hnot
  have hsecond := (shown_of_not_regular hnot).1
  rw [h] at hsecond
  omega

theorem regular_shown (t : TimeOfDay) : t.shown.Regular := by
  by_cases h : t.Regular
  · rwa [shown_of_regular h]
  · have hnano := t.nano_lt
    left
    rw [(shown_of_not_regular h).2]
    unfold nanosPerSecond at *
    omega

/-- **The text of a time is that of the time that it shows.** -/
theorem text_shown (t : TimeOfDay) : t.shown.text = t.text := by
  by_cases h : t.Regular
  · rw [shown_of_regular h]
  · obtain ⟨hsecond, hnano⟩ := shown_of_not_regular h
    have hlt := t.nano_lt
    unfold Regular at h
    have hhour : (t.second + 1) / 3600 = t.second / 3600 := by omega
    have hminute : (t.second + 1) / 60 % 60 = t.second / 60 % 60 := by omega
    have hshown : (t.second + 1) % 60 + (t.nano - nanosPerSecond) / nanosPerSecond =
        t.second % 60 + t.nano / nanosPerSecond := by
      unfold nanosPerSecond at *
      omega
    have hfraction : (t.nano - nanosPerSecond) % nanosPerSecond = t.nano % nanosPerSecond := by
      unfold nanosPerSecond at *
      omega
    simp only [text, hsecond, hnano, hhour, hminute, hshown, hfraction]

end TimeOfDay

namespace LocalDateTime

/-- The clock reading that is shown. -/
def shown (t : LocalDateTime) : LocalDateTime := ⟨t.date, t.time.shown⟩

theorem text_shown (t : LocalDateTime) : t.shown.text = t.text := by
  simp only [text, shown, TimeOfDay.text_shown]

theorem shown_eq_iff {t : LocalDateTime} : t.shown = t ↔ t.time.Regular := by
  rw [← TimeOfDay.shown_eq_iff, shown, LocalDateTime.mk.injEq]
  simp

theorem isSome_toUtc? (t : LocalDateTime) (o : UtcOffset) : (t.toUtc? o).isSome =
    if (t.time.second : Int) - o.seconds < 0 then t.date.prev?.isSome
    else if 86400 ≤ (t.time.second : Int) - o.seconds then t.date.next?.isSome else true := by
  unfold toUtc?
  simp only
  split
  · rw [Option.isSome_map]
  · split
    · rw [Option.isSome_map]
    · rfl

/-- On a clock whole minutes ahead of UTC a leap second is shown on the same day. -/
theorem isSome_toUtc?_shown (t : LocalDateTime) {o : UtcOffset} (ho : o.seconds % 60 = 0) :
    (t.shown.toUtc? o).isSome = (t.toUtc? o).isSome := by
  by_cases h : t.time.Regular
  · rw [shown_eq_iff.2 h]
  · have hsecond := (TimeOfDay.shown_of_not_regular h).1
    unfold TimeOfDay.Regular at h
    have hbelow : ((t.time.second + 1 : Nat) : Int) - o.seconds < 0 ↔
        (t.time.second : Int) - o.seconds < 0 := by omega
    have habove : 86400 ≤ ((t.time.second + 1 : Nat) : Int) - o.seconds ↔
        86400 ≤ (t.time.second : Int) - o.seconds := by omega
    simp only [isSome_toUtc?, shown, hsecond, hbelow, habove]

end LocalDateTime

/-! ## Instants -/

namespace OffsetDateTime

theorem of?_self (t : OffsetDateTime) : of? t.clock t.offset = some t := by
  obtain ⟨clock, offset, utc, hutc⟩ := t
  unfold of?
  split
  · next utc' h =>
    have hsame : utc' = utc := Option.some.inj (h.symm.trans hutc)
    subst hsame
    rfl
  · next h =>
    rw [hutc] at h
    cases h

/-- With its offset a clock shows an instant. -/
theorem eq_of_clock {x t : OffsetDateTime} (hclock : x.clock = t.clock)
    (hoffset : x.offset = t.offset) : x = t := by
  have hself := x.of?_self
  rw [hclock, hoffset, t.of?_self] at hself
  exact (Option.some.inj hself).symm

/-- The offset of whole minutes has no seconds to be written. -/
theorem text_eq {t : OffsetDateTime} (ho : t.offset.seconds % 60 = 0) :
    t.text = t.clock.text ++ t.offset.text := by
  have hwhole : t.offset.seconds.natAbs % 60 = 0 := by omega
  have hhour : (t.offset.seconds.natAbs + 30) / 60 / 60 = t.offset.seconds.natAbs / 3600 := by omega
  have hminute : (t.offset.seconds.natAbs + 30) / 60 % 60 =
      t.offset.seconds.natAbs / 60 % 60 := by omega
  rw [text, UtcOffset.minuteText, UtcOffset.text, hwhole, hhour, hminute]
  simp

/-- The instant that is shown. -/
theorem exists_shown {t : OffsetDateTime} (ho : t.offset.seconds % 60 = 0) :
    ∃ x : OffsetDateTime, x.clock = t.clock.shown ∧ x.offset = t.offset ∧ x.text = t.text := by
  have hutc : (t.clock.shown.toUtc? t.offset).isSome = true := by
    rw [t.clock.isSome_toUtc?_shown ho, t.utc_eq]
    rfl
  obtain ⟨utc, hutc⟩ := Option.isSome_iff_exists.1 hutc
  refine ⟨⟨t.clock.shown, t.offset, utc, hutc⟩, rfl, rfl, ?_⟩
  rw [text, text, LocalDateTime.text_shown]

end OffsetDateTime

/-! ## Dates and times -/

namespace Scalar

variable {kind : Kind}

/-- The values of literals that are no texts are dates and times. -/
theorem temporalAs?_of_literal {l : Literal} {v : Scalar} (h : l.temporalScalar? = some v)
    (kind : Kind) : (if kind = .string then some (string (String.ofList v.text))
      else v.temporalAs? kind) = v.as? kind := by
  cases l with
  | text s => cases h
  | date d =>
    cases h
    cases kind <;> rfl
  | dateTime t offset =>
    cases offset with
    | none =>
      cases h
      cases kind <;> rfl
    | some o =>
      unfold Literal.temporalScalar? at h
      simp only at h
      split at h <;> cases h <;> cases kind <;> rfl

/-- A date or time reads back from the text of a literal that it is the value of. -/
theorem readScalar?_of_literal {l : Literal} {v : Scalar} (hl : l.Legible)
    (hvalue : l.temporalScalar? = some v) (htext : l.written = v.text) (kind : Kind) :
    readScalar? (String.ofList v.text) kind = v.as? kind := by
  have hne : ∀ s, l ≠ .text s := by
    rintro s rfl
    cases hvalue
  rw [← htext, ← plainText_of_ne_text hne, Literal.readScalar?_plainText hl,
    Literal.as?_of_ne_text hne, Literal.temporalAs?, hvalue, Option.bind_some, htext]
  exact temporalAs?_of_literal hvalue kind

theorem readScalar?_date (d : Date) (kind : Kind) :
    readScalar? (String.ofList d.text) kind = (date d).as? kind :=
  readScalar?_of_literal (l := .date d) (v := date d) trivial rfl rfl kind

/-- A clock reading is read as the one that it shows. -/
theorem readScalar?_dateTime (t : LocalDateTime) (kind : Kind) :
    readScalar? (String.ofList t.text) kind = (dateTime t.shown).as? kind := by
  have hwritten : (Literal.dateTime t.shown none).written = t.shown.text := List.append_nil _
  rw [← t.text_shown]
  exact readScalar?_of_literal (l := .dateTime t.shown none) (v := dateTime t.shown)
    t.time.regular_shown rfl hwritten kind

/-- An instant in a year of four digits is read as the one that it shows. -/
theorem readScalar?_offsetDateTime {t : OffsetDateTime} (ho : t.offset.seconds % 60 = 0)
    (hyear : 0 ≤ t.clock.date.year ∧ t.clock.date.year ≤ 9999) {x : OffsetDateTime}
    (hclock : x.clock = t.clock.shown) (hoffset : x.offset = t.offset) (kind : Kind) :
    readScalar? (String.ofList x.text) kind = (offsetDateTime x).as? kind := by
  have ho' : x.offset.seconds % 60 = 0 := by rwa [hoffset]
  have hlegible : (Literal.dateTime x.clock (some x.offset)).Legible := by
    refine ⟨?_, ?_, ho', ?_⟩
    · rw [hclock]
      exact t.clock.time.regular_shown
    · rw [hclock]
      exact hyear
    · rw [x.of?_self]
      rfl
  have hvalue : (Literal.dateTime x.clock (some x.offset)).temporalScalar? =
      some (offsetDateTime x) := by
    simp only [Literal.temporalScalar?, x.of?_self]
  exact readScalar?_of_literal hlegible hvalue (x.text_eq ho').symm kind

/-! ## Numbers -/

/-- A text of digits with points, which may have a minus in front. -/
def IsNumeral (cs : List Char) : Prop :=
  ∃ negative c rest, cs = signed negative (c :: rest) ∧ c.isDigit = true ∧
    ∀ d ∈ rest, d.isDigit = true ∨ d = '.'

theorem IsNumeral.tight {cs : List Char} (h : IsNumeral cs) : Tight cs := by
  obtain ⟨negative, c, rest, rfl, hc, hrest⟩ := h
  refine tight_of_all fun d hd => ?_
  rcases List.mem_append.1 hd with hsign | hd
  · cases negative
    · cases hsign
    · rw [List.mem_singleton.1 hsign]
      decide
  · rcases List.mem_cons.1 hd with rfl | hd
    · exact isBlank_of_isDigit hc
    · rcases hrest d hd with hdigit | rfl
      · exact isBlank_of_isDigit hdigit
      · decide

theorem IsNumeral.readBoolean?_eq_none {cs : List Char} (h : IsNumeral cs) :
    readBoolean? cs = none := by
  obtain ⟨negative, c, rest, rfl, hc, -⟩ := h
  cases negative
  · exact readBoolean?_of_head (Or.inr (Or.inr hc))
  · exact readBoolean?_of_head (Or.inr (Or.inl rfl))

theorem isNumeral_intText (i : Int) : IsNumeral (intText i) := by
  obtain ⟨c, cs, hcs, hc⟩ := exists_head_natText i.natAbs
  refine ⟨i < 0, c, cs, by rw [intText_eq, hcs], hc, fun d hd => Or.inl ?_⟩
  exact isDigit_of_mem_natText (n := i.natAbs) (by rw [hcs]; exact List.mem_cons_of_mem c hd)

theorem isNumeral_finite (negative : Bool) {steps : Nat} (fits : Fits steps) :
    IsNumeral (Layout.plain.text (.finite negative steps fits)) := by
  rw [plain_finite]
  split
  · exact ⟨negative, '0', [], rfl, rfl, by simp⟩
  · obtain ⟨c, cs, hcs, hc⟩ := (shortest .up steps).exists_head
    refine ⟨negative, c, cs, by rw [hcs], hc, fun d hd => ?_⟩
    exact Decimal.mem_text (d := shortest .up steps) (by rw [hcs]; exact List.mem_cons_of_mem c hd)

/-- The names of infinity and NaN are no truth values either. -/
theorem float_text (f : Binary64) :
    Tight (Layout.plain.text f) ∧ readBoolean? (Layout.plain.text f) = none := by
  cases f with
  | nan => exact ⟨by decide, rfl⟩
  | infinity negative => cases negative <;> exact ⟨by decide, rfl⟩
  | finite negative steps fits =>
    have hnumeral := isNumeral_finite negative fits
    exact ⟨hnumeral.tight, hnumeral.readBoolean?_eq_none⟩

/-- The text of a number has no white space around it, and is no date. -/
theorem readScalar?_number (kind : Kind) {cs : List Char} {f : Binary64} (htight : Tight cs)
    (hfloat : readFloat? .double cs = some f) (hboolean : readBoolean? cs = none) :
    readScalar? (String.ofList cs) .integer = (readInt64? cs).map integer ∧
      readScalar? (String.ofList cs) .float = some (float f) ∧
      (kind ≠ .string → kind ≠ .integer → kind ≠ .float →
        readScalar? (String.ofList cs) kind = none) := by
  have htrim := trim_of_tight htight
  have htemporal : Literal.temporal? cs = none := by
    cases h : Literal.temporal? cs with
    | none => rfl
    | some l =>
      have hdashed := Literal.dashed_of_temporal? h
      rw [htrim] at hdashed
      rw [hdashed.readFloat?_eq_none] at hfloat
      cases hfloat
  refine ⟨?_, ?_, ?_⟩
  · rw [readScalar?, String.toList_ofList, htrim]
  · rw [readScalar?, String.toList_ofList, htrim, hfloat, Option.map_some]
  · intro hstring hinteger hfloat'
    cases kind with
    | string | integer | float => contradiction
    | boolean => rw [readScalar?, String.toList_ofList, htrim, hboolean, Option.map_none]
    | date | dateTime | offsetDateTime =>
      simp only [readScalar?, String.toList_ofList, htrim, htemporal, Option.bind_none]

theorem readScalar?_integer (i : Int64) (kind : Kind) :
    readScalar? (String.ofList (integer i).text) kind = (integer i).as? kind := by
  have hnumeral := isNumeral_intText i.toInt
  obtain ⟨hinteger, hfloat, hnone⟩ := readScalar?_number kind hnumeral.tight
    (readFloat?_intText i) hnumeral.readBoolean?_eq_none
  cases kind with
  | string => rfl
  | integer =>
    have hself : toInt64? i.toInt = some i := by
      unfold toInt64?
      rw [if_pos ⟨Int64.minValue_le_toInt i, Int64.toInt_le i⟩, Int64.ofInt_toInt]
    rw [text, hinteger, readInt64?, readInt?_intText, Option.bind_some, hself]
    rfl
  | float => exact hfloat
  | _ => exact hnone (by decide) (by decide) (by decide)

/-- A double is read back as any kind, but for integers with other digits. -/
theorem readScalar?_float (f : Binary64) (kind : Kind) :
    readScalar? (String.ofList (float f).text) kind = (float f).as? kind ↔
      (kind = .integer → f.toInt64?.isSome → f.DigitsExact) := by
  obtain ⟨hinteger, hfloat, hnone⟩ := readScalar?_number kind (float_text f).1
    (readFloat?_text f) (float_text f).2
  cases kind with
  | string => exact iff_of_true rfl nofun
  | integer =>
    have hvalue : (float f).as? .integer = f.toInt64?.map integer := rfl
    rw [text, hinteger, hvalue, (Option.map_injective fun _ _ => integer.inj).eq_iff,
      Binary64.readInt64?_text_iff]
    simp
  | float => exact iff_of_true hfloat nofun
  | _ => exact iff_of_true (hnone (by decide) (by decide) (by decide)) nofun

theorem readScalar?_boolean (b : Bool) (kind : Kind) :
    readScalar? (String.ofList (boolean b).text) kind = (boolean b).as? kind := by
  cases b <;> cases kind <;> rfl

/-! ## All of them -/

/-- A value and its text are the same value of a kind. -/
def TextKeeps (kind : Kind) : Scalar → Prop
  | float f => kind = .integer → f.toInt64?.isSome → f.DigitsExact
  | dateTime t => kind = .dateTime ∨ kind = .offsetDateTime → t.time.Regular
  | offsetDateTime t => kind = .dateTime ∨ kind = .offsetDateTime → t.clock.time.Regular
  | _ => True

/-- An instant has an offset of whole minutes and, where it is to be read as a date or time, a year
of four digits. -/
def InFormat (kind : Kind) : Scalar → Prop
  | offsetDateTime t => t.offset.seconds % 60 = 0 ∧
      (kind = .date ∨ kind = .dateTime ∨ kind = .offsetDateTime →
        0 ≤ t.clock.date.year ∧ t.clock.date.year ≤ 9999)
  | _ => True

theorem readScalar?_dateTime_iff (t : LocalDateTime) (kind : Kind) :
    readScalar? (String.ofList (dateTime t).text) kind = (dateTime t).as? kind ↔
      (dateTime t).TextKeeps kind := by
  rw [text, readScalar?_dateTime, TextKeeps, ← LocalDateTime.shown_eq_iff]
  cases kind with
  | dateTime => simp [as?, temporalAs?, LocalDateTime.as?]
  | offsetDateTime =>
    simp [as?, temporalAs?, LocalDateTime.as?, OffsetDateTime.ofUtc]
  | string =>
    refine iff_of_true ?_ nofun
    simp only [as?, text, LocalDateTime.text_shown]
  | _ => exact iff_of_true rfl nofun

theorem readScalar?_offsetDateTime_iff {t : OffsetDateTime} {kind : Kind}
    (ht : (offsetDateTime t).InFormat kind) :
    readScalar? (String.ofList (offsetDateTime t).text) kind = (offsetDateTime t).as? kind ↔
      (offsetDateTime t).TextKeeps kind := by
  obtain ⟨hoffset, hyear⟩ := ht
  obtain ⟨x, hclock, hsame, htext⟩ := t.exists_shown hoffset
  rw [text, TextKeeps, ← LocalDateTime.shown_eq_iff]
  have hread (hkind : kind = .date ∨ kind = .dateTime ∨ kind = .offsetDateTime) :
      readScalar? (String.ofList t.text) kind = (offsetDateTime x).as? kind := by
    rw [← htext]
    exact readScalar?_offsetDateTime hoffset (hyear hkind) hclock hsame kind
  cases kind with
  | string => exact iff_of_true rfl nofun
  | integer | float | boolean =>
    refine iff_of_true (Dashed.readScalar?_eq_none ?_ (by simp)) nofun
    have hne : ∀ s, Literal.dateTime t.clock (some t.offset) ≠ .text s := nofun
    have hwritten : (Literal.dateTime t.clock (some t.offset)).written = t.text :=
      (t.text_eq hoffset).symm
    rw [String.toList_ofList, ← hwritten, trim_of_tight (tight_written _)]
    exact dashed_written hne
  | date =>
    refine iff_of_true ?_ nofun
    rw [hread (Or.inl rfl)]
    simp [as?, temporalAs?, LocalDateTime.as?, hclock, LocalDateTime.shown]
  | dateTime =>
    rw [hread (Or.inr (Or.inl rfl))]
    simp [as?, temporalAs?, LocalDateTime.as?, hclock]
  | offsetDateTime =>
    rw [hread (Or.inr (Or.inr rfl))]
    have hsame' : x = t ↔ t.clock.shown = t.clock := by
      refine ⟨fun h => ?_, fun h => OffsetDateTime.eq_of_clock (hclock.trans h) hsame⟩
      rw [← hclock, h]
    simp [as?, temporalAs?, hsame']

/-- **A value is read back from its text**, as every kind that its text keeps it for. -/
theorem readScalar?_text_iff {v : Scalar} {kind : Kind} (hv : v.InFormat kind) :
    readScalar? (String.ofList v.text) kind = v.as? kind ↔ v.TextKeeps kind := by
  cases v with
  | string s =>
    refine iff_of_true ?_ trivial
    rw [text, String.ofList_toList]
    cases kind <;> rfl
  | integer i => exact iff_of_true (readScalar?_integer i kind) trivial
  | float f => exact readScalar?_float f kind
  | boolean b => exact iff_of_true (readScalar?_boolean b kind) trivial
  | date d => exact iff_of_true (readScalar?_date d kind) trivial
  | dateTime t => exact readScalar?_dateTime_iff t kind
  | offsetDateTime t => exact readScalar?_offsetDateTime_iff hv

end Scalar

namespace Operand

/-- Values with the same text fail with the same message. -/
theorem as_eq_iff {v w : Scalar} (htext : v.text = w.text) (kind : Kind) :
    (scalar v).as kind = (scalar w).as kind ↔ v.as? kind = w.as? kind := by
  simp only [as, as?, text?, htext]
  cases v.as? kind <;> cases w.as? kind <;> simp

/-- **A value and its text are read alike**, with the same value or the same message, but for
doubles whose shortest digits are another integer and leap seconds inside a minute. Whole numbers
up to `2⁵³` have exact digits. -/
theorem as_text {v : Scalar} {kind : Kind} (hv : v.InFormat kind) :
    ((scalar (.string (String.ofList v.text))).as kind = (scalar v).as kind ↔
      v.TextKeeps kind) ∧
    ∀ f i, v = .float f → f.toInt? = some i → i.natAbs ≤ 2 ^ 53 → v.TextKeeps kind := by
  constructor
  · have htext : (Scalar.string (String.ofList v.text)).text = v.text := String.toList_ofList
    have hread : (Scalar.string (String.ofList v.text)).as? kind =
        readScalar? (String.ofList v.text) kind := by
      cases kind <;> rfl
    rw [as_eq_iff htext, hread, Scalar.readScalar?_text_iff hv]
  · rintro f i rfl hi hle _ _
    exact Binary64.digitsExact_of_natAbs_le hi hle

theorem as_text_leapSecond : ∃ t : OffsetDateTime,
    t.text = "2016-12-31T23:59:60.500+00:00".toList ∧
      (scalar (.string (String.ofList t.text))).as .dateTime =
        (scalar (.offsetDateTime t)).as .dateTime := by
  refine ⟨.ofUtc ⟨⟨2016, 12, 31, by decide, by decide, by decide, by decide, by decide, by decide⟩,
    ⟨86399, 1500000000, by decide, by decide⟩⟩, by decide +kernel, ?_⟩
  exact (as_text (v := .offsetDateTime (.ofUtc _)) ⟨rfl, fun _ => by decide⟩).1.2
    fun _ => Or.inr rfl

/-- **Some values are not read alike from their texts**: `2⁶⁰` has shorter digits that are another
integer, a leap second inside a minute is shown as the second behind it, and an instant in the
year 10000 is not read back. -/
theorem exists_unlike_text :
    (∃ f : Binary64, (Scalar.float f).as? .integer = some (.integer 1152921504606846976) ∧
      (Scalar.string (String.ofList (Scalar.float f).text)).as? .integer =
        some (.integer 1152921504606847000)) ∧
    (∃ t : LocalDateTime, (Scalar.dateTime t).as? .dateTime ≠
      (Scalar.string (String.ofList (Scalar.dateTime t).text)).as? .dateTime) ∧
    ∃ t : OffsetDateTime, t.offset = .zero ∧
      (Scalar.offsetDateTime t).as? .offsetDateTime = some (.offsetDateTime t) ∧
      (Scalar.string (String.ofList (Scalar.offsetDateTime t).text)).as? .offsetDateTime =
        none := by
  refine ⟨⟨Binary64.ofInt 1152921504606846976, by decide +kernel, by decide +kernel⟩,
    ⟨⟨⟨2016, 12, 31, by decide, by decide, by decide, by decide, by decide, by decide⟩,
      ⟨30, 1500000000, by decide, by decide⟩⟩, by decide +kernel⟩,
    ⟨.ofUtc ⟨⟨10000, 1, 1, by decide, by decide, by decide, by decide, by decide, by decide⟩,
      .midnight⟩, rfl, rfl, by decide +kernel⟩⟩

end Operand

end Sift
