import Sift.Filter.Written
import Sift.Proofs.Digits

/-!
# Dates and times read back

* `readDate?_text`, `readLocalDateTime?_text`, `readInternetDateTime?_text`: what is written for a
  date, a clock reading and an instant is read as it.
* `Literal.Legible`: the dates and times that can be written; `temporal?_written`.
* `legible_of_temporal?`: whatever is read can be written.
-/

namespace Sift

open Calendar Number

theorem ne_sign_of_isDigit {c : Char} (h : c.isDigit = true) : c ≠ '-' ∧ c ≠ '+' ∧ c ≠ '.' := by
  refine ⟨?_, ?_, ?_⟩ <;> (rintro rfl; revert h; decide)

namespace Calendar

/-- The digits of a number, without their width. -/
theorem allDigits?_padded {width n : Nat} {rest : List Char}
    (hrest : ∀ c ∈ rest.head?, c.isDigit = false) :
    allDigits? (padded width n ++ rest) = some (n, rest) := by
  have hds : ∀ c ∈ padded width n, c.isDigit = true := fun c hc => isDigit_of_mem_padded hc
  have hlen : (padded width n).length ≤ (padded width n ++ rest).length := by
    rw [List.length_append]; omega
  unfold allDigits?
  rw [digitsUpTo?_append hds (padded_ne_nil width n) hlen (Or.inr hrest), digitsValue_padded]

/-- A year that begins with a digit has no sign. -/
theorem year?_of_isDigit {c : Char} {cs : List Char} (hc : c.isDigit = true) :
    year? (c :: cs) = (digitsUpTo? 4 (c :: cs)).map fun x => ((x.1 : Int), x.2) := by
  unfold year?
  rw [trimStart_of_head (by simpa using isBlank_of_isDigit hc)]
  split
  · next heq => cases heq; exact absurd rfl (ne_sign_of_isDigit hc).1
  · next heq => cases heq; exact absurd rfl (ne_sign_of_isDigit hc).2.1
  · rfl

/-- A year reads back in front of anything but digits. -/
theorem year?_yearText (year : Int) {rest : List Char}
    (hrest : ∀ c ∈ rest.head?, c.isDigit = false) :
    year? (yearText year ++ rest) = some (year, rest) := by
  have hds : ∀ c ∈ padded 4 year.natAbs, c.isDigit = true := fun c hc => isDigit_of_mem_padded hc
  unfold yearText
  split
  -- four digits without a sign, or as many as needed with one
  · next h =>
    have hlen : (padded 4 year.natAbs).length = 4 :=
      length_padded (by decide) (show year.natAbs < 10 ^ 4 by omega)
    have hread : digitsUpTo? 4 (padded 4 year.natAbs ++ rest) = some (year.natAbs, rest) := by
      rw [digitsUpTo?_append hds (padded_ne_nil 4 _) (Nat.le_of_eq hlen) (Or.inl hlen),
        digitsValue_padded]
    obtain ⟨c, cs, hp⟩ := List.exists_cons_of_ne_nil (padded_ne_nil 4 year.natAbs)
    rw [hp] at hread hds ⊢
    rw [List.cons_append] at hread ⊢
    rw [year?_of_isDigit (hds c List.mem_cons_self), hread, Option.map_some]
    rw [show ((year.natAbs : Nat) : Int) = year by omega]
  · next h =>
    by_cases hneg : year < 0
    · rw [if_pos hneg, List.cons_append, year?, trimStart_of_head (by simp; decide)]
      simp only [allDigits?_padded hrest, Option.map_some]
      rw [show -((year.natAbs : Nat) : Int) = year by omega]
    · rw [if_neg hneg, List.cons_append, year?, trimStart_of_head (by simp; decide)]
      simp only [allDigits?_padded hrest, Option.map_some]
      rw [show ((year.natAbs : Nat) : Int) = year by omega]

theorem after?_cons (c : Char) (rest : List Char) : after? c (c :: rest) = some rest := if_pos rfl

theorem Date.month_lt (d : Date) : d.month < 100 := by have := d.month_le; omega

theorem Date.day_lt (d : Date) : d.day < 100 := by
  have h := d.day_le
  unfold daysInMonth at h
  split at h <;> try split at h
  all_goals omega

/-- **A date reads back**, whatever follows it. -/
theorem date?_text (d : Date) (rest : List Char) : date? (d.text ++ rest) = some (d, rest) := by
  unfold date? Date.text
  simp only [List.append_assoc, List.cons_append]
  rw [year?_yearText d.year (by simp)]
  simp only [Option.bind_some, bind, after?_cons, number?_padded (Date.month_lt d),
    number?_padded (Date.day_lt d), Date.ofYmd?_self, pure]

end Calendar

theorem readDate?_text (d : Date) : readDate? d.text = some d := by
  have h := date?_text d []
  rw [List.append_nil] at h
  unfold readDate?
  simp [h]

/-- What goes on after a date is no date. -/
theorem readDate?_text_append (d : Date) {rest : List Char} (hrest : rest ≠ []) :
    readDate? (d.text ++ rest) = none := by
  unfold readDate?
  simp [date?_text, hrest]

/-! ## Times -/

/-- Only the last second of a minute is followed by a leap second. -/
def TimeOfDay.Regular (t : TimeOfDay) : Prop := t.nano < nanosPerSecond ∨ t.second % 60 = 59

theorem TimeOfDay.regular_of_ofHms? {hour minute second nano : Nat} {t : TimeOfDay}
    (h : ofHms? hour minute second nano = some t) : t.Regular := by
  unfold ofHms? at h
  split at h
  · next hlt => cases h; exact Or.inl hlt.2.2.2
  · split at h
    · next hleap => cases h; exact Or.inr (by simp only; omega)
    · cases h

namespace Calendar

theorem nanos?_padded {width n : Nat} {rest : List Char} (hw : 0 < width) (hw9 : width ≤ 9)
    (hn : n < Nat.pow 10 width) (hrest : ∀ c ∈ rest.head?, c.isDigit = false) :
    nanos? (padded width n ++ rest) = some (n * Nat.pow 10 (9 - width), rest) := by
  have hds : ∀ c ∈ padded width n, c.isDigit = true := fun c hc => isDigit_of_mem_padded hc
  have hlen : (padded width n).length = width := length_padded hw hn
  have hread := digitsUpTo?_append hds (padded_ne_nil width n) (by omega : _ ≤ 9) (Or.inr hrest)
  have hdrop : rest.dropWhile Char.isDigit = rest := by
    cases rest with
    | nil => rfl
    | cons c rest => rw [List.dropWhile_cons_of_neg (by simp [hrest c rfl])]
  unfold nanos?
  simp only [hread, digitsValue_padded, bind, Option.bind_some, pure, hdrop, List.length_append,
    hlen, Nat.add_sub_cancel]

/-- A fraction reads back in front of anything but digits and a point. -/
theorem fraction?_fractionText {nano : Nat} {rest : List Char} (hnano : nano < nanosPerSecond)
    (hrest : ∀ c ∈ rest.head?, c.isDigit = false ∧ c ≠ '.') :
    fraction? (fractionText nano ++ rest) = some (nano, rest) := by
  have hdigit : ∀ c ∈ rest.head?, c.isDigit = false := fun c hc => (hrest c hc).1
  unfold nanosPerSecond at hnano
  unfold fractionText
  split
  · next h0 =>
    subst h0
    unfold fraction?
    split
    · next heq => rw [List.nil_append] at heq; subst heq; exact absurd rfl (hrest '.' rfl).2
    · rfl
  split
  · next h6 =>
    rw [List.cons_append, fraction?,
      nanos?_padded (by decide) (by decide) (by omega : nano / 1000000 < 10 ^ 3) hdigit]
    rw [show nano / 1000000 * Nat.pow 10 (9 - 3) = nano by simp only [Nat.pow_eq]; omega]
  split
  · next h3 =>
    rw [List.cons_append, fraction?,
      nanos?_padded (by decide) (by decide) (by omega : nano / 1000 < 10 ^ 6) hdigit]
    rw [show nano / 1000 * Nat.pow 10 (9 - 6) = nano by simp only [Nat.pow_eq]; omega]
  · rw [List.cons_append, fraction?,
      nanos?_padded (by decide) (by decide) (by omega : nano < 10 ^ 9) hdigit]
    rw [show nano * Nat.pow 10 (9 - 9) = nano by simp only [Nat.pow_eq]; omega]

theorem ofHms?_self {t : TimeOfDay} (ht : t.Regular) :
    TimeOfDay.ofHms? (t.second / 3600) (t.second / 60 % 60)
      (t.second % 60 + t.nano / nanosPerSecond) (t.nano % nanosPerSecond) = some t := by
  obtain ⟨second, nano, hsecond, hnano⟩ := t
  unfold TimeOfDay.Regular at ht
  simp only at ht ⊢
  by_cases hlt : nano < nanosPerSecond
  · rw [Nat.div_eq_of_lt hlt, Nat.mod_eq_of_lt hlt, TimeOfDay.ofHms?, dif_pos (by omega)]
    simp only [Option.some.injEq, TimeOfDay.mk.injEq, and_true]
    omega
  -- a leap second is shown as the second after 59, with what is over a second
  · have hleap : second % 60 = 59 := ht.resolve_left hlt
    have hdiv : nano / nanosPerSecond = 1 := by unfold nanosPerSecond at *; omega
    have hmod : nano % nanosPerSecond = nano - nanosPerSecond := by
      unfold nanosPerSecond at *; omega
    have hshown : second / 3600 < 24 ∧ second / 60 % 60 < 60 ∧ second % 60 + 1 = 60 ∧
        nano - nanosPerSecond < nanosPerSecond := by omega
    rw [hdiv, hmod, TimeOfDay.ofHms?, dif_neg (by omega), dif_pos hshown]
    simp only [Option.some.injEq, TimeOfDay.mk.injEq]
    omega

/-- The second as it is shown, 60 for a leap second. -/
theorem shownSecond_lt (t : TimeOfDay) : t.second % 60 + t.nano / nanosPerSecond < 100 := by
  have hnano := t.nano_lt
  unfold nanosPerSecond at *
  omega

theorem shownHour_lt (t : TimeOfDay) : t.second / 3600 < 100 := by
  have hsecond := t.second_lt
  omega

theorem shownMinute_lt (t : TimeOfDay) : t.second / 60 % 60 < 100 := by omega

theorem nano_mod_lt (t : TimeOfDay) : t.nano % nanosPerSecond < nanosPerSecond :=
  Nat.mod_lt _ (by decide)

/-- **A time of day reads back** in front of anything but digits and a point. -/
theorem secondTime?_text {t : TimeOfDay} (ht : t.Regular) {rest : List Char}
    (hrest : ∀ c ∈ rest.head?, c.isDigit = false ∧ c ≠ '.') :
    secondTime? (t.text ++ rest) = some (t, rest) := by
  unfold secondTime? hourMinute? TimeOfDay.text
  simp only [List.append_assoc, List.cons_append, bind, Option.bind_some, pure, after?_cons,
    number?_padded (shownHour_lt t), number?_padded (shownMinute_lt t),
    number?_padded (shownSecond_lt t), fraction?_fractionText (nano_mod_lt t) hrest,
    ofHms?_self ht]

/-- A clock reading is no date, whatever follows it. -/
theorem readDate?_dateTime (t : LocalDateTime) (rest : List Char) :
    readDate? (t.text ++ rest) = none := by
  unfold LocalDateTime.text
  rw [List.append_assoc]
  exact readDate?_text_append t.date (by simp)

end Calendar

/-- **A clock reading reads back.** -/
theorem readLocalDateTime?_text {t : LocalDateTime} (ht : t.time.Regular) :
    readLocalDateTime? t.text = some t := by
  have htime : secondTime? t.time.text = some (t.time, []) := by
    have h : secondTime? (t.time.text ++ []) = some (t.time, []) := secondTime?_text ht (by simp)
    rwa [List.append_nil] at h
  unfold readLocalDateTime? dateTimeWith? LocalDateTime.text
  simp [date?_text, after?_cons, htime]

/-! ## Instants -/

namespace Calendar

/-- The direction of an offset, as a factor of its length. -/
def direction (o : UtcOffset) : Int := if o.seconds < 0 then -1 else 1

theorem offsetSign?_sign (o : UtcOffset) (cs : List Char) :
    offsetSign? (o.sign :: cs) = some (direction o, cs) := by
  unfold UtcOffset.sign direction
  split <;> rfl

theorem sign_ne_utc (o : UtcOffset) : o.sign ≠ 'Z' ∧ o.sign ≠ 'z' := by
  unfold UtcOffset.sign
  split <;> decide

/-- **An offset of whole minutes reads back.** -/
theorem internetOffset?_text {o : UtcOffset} (ho : o.seconds % 60 = 0) :
    internetOffset? o.text = some (o, []) := by
  have hlt := o.seconds_lt
  have hgt := o.seconds_gt
  have hhour : o.seconds.natAbs / 3600 < 10 ^ 2 := by omega
  have hminute : o.seconds.natAbs / 60 % 60 < 60 := by omega
  have hwhole : o.seconds.natAbs % 60 = 0 := by omega
  -- hours and minutes add up to the offset, for no seconds are left
  have hseconds : direction o * (↑(o.seconds.natAbs / 3600) * 3600 +
      ↑(o.seconds.natAbs / 60 % 60) * 60) = o.seconds := by
    unfold direction
    split <;> omega
  have htext : o.text = o.sign :: (padded 2 (o.seconds.natAbs / 3600) ++
      ':' :: (padded 2 (o.seconds.natAbs / 60 % 60) ++ [])) := by
    simp only [UtcOffset.text, if_pos hwhole, List.append_assoc, List.cons_append]
  have hself : UtcOffset.ofSeconds? o.seconds = some o := dif_pos ⟨hgt, hlt⟩
  rw [htext]
  unfold internetOffset?
  split
  · next heq => exact absurd (List.cons.inj heq).1 (sign_ne_utc o).1
  · next heq => exact absurd (List.cons.inj heq).1 (sign_ne_utc o).2
  · simp only [offsetSign?_sign, digits?_padded 2 (by decide) hhour,
      digits?_padded 2 (by decide) (Nat.lt_trans hminute (by decide)), bind,
      Option.bind_some, after?_cons, if_pos hminute, hseconds, hself, pure]

theorem digits?_sign {c : Char} {cs : List Char} {width : Nat} (hc : c.isDigit = false)
    (hw : 0 < width) : digits? width (c :: cs) = none := by
  unfold digits?
  obtain ⟨w, rfl⟩ : ∃ w, width = w + 1 := ⟨width - 1, by omega⟩
  simp [hc]

theorem bind_of_eq_some {α β : Type} {x : Option α} {a : α} (h : x = some a) (f : α → Option β) :
    (x >>= f) = f a := by
  rw [h]
  rfl

/-- An instant begins with a clock reading of a year in four digits. -/
theorem readInternetDateTime?_append {t : LocalDateTime} (ht : t.time.Regular)
    (hyear : 0 ≤ t.date.year ∧ t.date.year ≤ 9999) {rest : List Char}
    (hrest : ∀ c ∈ rest.head?, c.isDigit = false ∧ c ≠ '.') :
    readInternetDateTime? (t.text ++ rest) = (internetOffset? rest).bind fun x =>
      if x.2 = [] then OffsetDateTime.of? t x.1 else none := by
  have hy : t.date.year.natAbs < 10 ^ 4 := by omega
  have hnat : ((t.date.year.natAbs : Nat) : Int) = t.date.year := by omega
  have htext : t.text ++ rest = padded 4 t.date.year.natAbs ++ '-' :: (padded 2 t.date.month ++
      '-' :: (padded 2 t.date.day ++ 'T' :: (padded 2 (t.time.second / 3600) ++
      ':' :: (padded 2 (t.time.second / 60 % 60) ++ ':' ::
      (padded 2 (t.time.second % 60 + t.time.nano / nanosPerSecond) ++
      (fractionText (t.time.nano % nanosPerSecond) ++ rest)))))) := by
    simp only [LocalDateTime.text, Date.text, TimeOfDay.text, yearText, if_pos hyear,
      List.append_assoc, List.cons_append]
  have hmark : ∀ cs, internetMark? ('T' :: cs) = some cs := fun cs => rfl
  rw [htext]
  unfold readInternetDateTime?
  -- one step for each number and each mark of the text
  refine (bind_of_eq_some (digits?_padded 4 (by decide) hy _) _).trans ?_
  refine (bind_of_eq_some (after?_cons '-' _) _).trans ?_
  refine (bind_of_eq_some (digits?_padded 2 (by decide) (Date.month_lt t.date) _) _).trans ?_
  refine (bind_of_eq_some (after?_cons '-' _) _).trans ?_
  refine (bind_of_eq_some (digits?_padded 2 (by decide) (Date.day_lt t.date) _) _).trans ?_
  refine (bind_of_eq_some (hmark _) _).trans ?_
  refine (bind_of_eq_some (digits?_padded 2 (by decide) (shownHour_lt t.time) _) _).trans ?_
  refine (bind_of_eq_some (after?_cons ':' _) _).trans ?_
  refine (bind_of_eq_some (digits?_padded 2 (by decide) (shownMinute_lt t.time) _) _).trans ?_
  refine (bind_of_eq_some (after?_cons ':' _) _).trans ?_
  refine (bind_of_eq_some (digits?_padded 2 (by decide) (shownSecond_lt t.time) _) _).trans ?_
  refine (bind_of_eq_some (fraction?_fractionText (nano_mod_lt t.time) hrest) _).trans ?_
  dsimp only
  cases internetOffset? rest with
  | none => rfl
  | some x =>
    have hdate : Date.ofYmd? (t.date.year.natAbs : Nat) t.date.month t.date.day = some t.date := by
      rw [hnat, Date.ofYmd?_self]
    refine (bind_of_eq_some hdate _).trans ?_
    exact bind_of_eq_some (ofHms?_self ht) _

/-- A year that needs a sign begins no instant. -/
theorem readInternetDateTime?_of_sign {t : LocalDateTime}
    (hyear : ¬(0 ≤ t.date.year ∧ t.date.year ≤ 9999)) (rest : List Char) :
    readInternetDateTime? (t.text ++ rest) = none := by
  unfold readInternetDateTime? LocalDateTime.text Date.text yearText
  rw [if_neg hyear]
  simp only [List.cons_append]
  rw [digits?_sign (by split <;> decide) (by decide)]
  rfl

theorem readInternetDateTime?_dateTime {t : LocalDateTime} (ht : t.time.Regular) :
    readInternetDateTime? t.text = none := by
  rw [← List.append_nil t.text]
  by_cases hyear : 0 ≤ t.date.year ∧ t.date.year ≤ 9999
  · rw [readInternetDateTime?_append ht hyear (by simp)]; rfl
  · exact readInternetDateTime?_of_sign hyear []

end Calendar

theorem OffsetDateTime.clock_of? {t : LocalDateTime} {o : UtcOffset} {x : OffsetDateTime}
    (h : of? t o = some x) : x.clock = t ∧ x.offset = o := by
  unfold of? at h
  split at h <;> cases h
  exact ⟨rfl, rfl⟩

/-- **An instant reads back** where its year has four digits and its offset whole minutes. -/
theorem readInternetDateTime?_text {t : LocalDateTime} {o : UtcOffset} (ht : t.time.Regular)
    (hyear : 0 ≤ t.date.year ∧ t.date.year ≤ 9999) (ho : o.seconds % 60 = 0) :
    readInternetDateTime? (t.text ++ o.text) = OffsetDateTime.of? t o := by
  have hsign : ∀ c ∈ o.text.head?, c.isDigit = false ∧ c ≠ '.' := by
    unfold UtcOffset.text UtcOffset.sign
    simp only [List.cons_append, List.head?_cons, Option.mem_some_iff, forall_eq']
    split <;> decide
  rw [readInternetDateTime?_append ht hyear hsign, internetOffset?_text ho, Option.bind_some,
    if_pos rfl]

/-! ## Literals -/

namespace Calendar

theorem lt_of_digits? {width n : Nat} {cs rest : List Char}
    (h : digits? width cs = some (n, rest)) : n < Nat.pow 10 width := by
  unfold digits? at h
  simp only at h
  split at h
  · next hds =>
    cases h
    have hlt := digitsValue_lt (List.all_eq_true.1 hds.2)
    rwa [hds.1] at hlt
  · cases h

theorem whole_of_internetOffset? {cs rest : List Char} {o : UtcOffset}
    (h : internetOffset? cs = some (o, rest)) : o.seconds % 60 = 0 := by
  unfold internetOffset? at h
  split at h
  · cases h; rfl
  · cases h; rfl
  · simp only [bind, Option.bind_eq_some_iff] at h
    obtain ⟨⟨sign, r₁⟩, hsign, ⟨hour, r₂⟩, -, r₃, -, ⟨minute, r₄⟩, -, h⟩ := h
    split at h
    · simp only [Option.bind_eq_some_iff] at h
      obtain ⟨o', hseconds, heq⟩ := h
      cases heq
      -- a multiple of 60 either way
      have hsign' : sign = 1 ∨ sign = -1 := by
        unfold offsetSign? at hsign
        split at hsign
        · split at hsign
          · cases hsign; exact Or.inl rfl
          · split at hsign <;> cases hsign
            exact Or.inr rfl
        · cases hsign
      unfold UtcOffset.ofSeconds? at hseconds
      split at hseconds <;> cases hseconds
      simp only
      rcases hsign' with rfl | rfl <;> omega
    · cases h

theorem year_of_ofYmd? {year : Int} {month day : Nat} {d : Date}
    (h : Date.ofYmd? year month day = some d) : d.year = year := by
  unfold Date.ofYmd? at h
  split at h <;> cases h
  rfl

theorem regular_of_secondTime? {cs rest : List Char} {t : TimeOfDay}
    (h : secondTime? cs = some (t, rest)) : t.Regular := by
  unfold secondTime? at h
  simp only [bind, Option.bind_eq_some_iff] at h
  obtain ⟨_, _, _, _, _, _, _, _, t', ht', heq⟩ := h
  cases heq
  exact TimeOfDay.regular_of_ofHms? ht'

theorem regular_of_minuteTime? {cs rest : List Char} {t : TimeOfDay}
    (h : minuteTime? cs = some (t, rest)) : t.Regular := by
  unfold minuteTime? at h
  simp only [bind, Option.bind_eq_some_iff] at h
  obtain ⟨_, _, t', ht', heq⟩ := h
  cases heq
  exact TimeOfDay.regular_of_ofHms? ht'

theorem regular_of_dateTimeWith? {time? : List Char → Option (TimeOfDay × List Char)}
    (htime : ∀ {cs t rest}, time? cs = some (t, rest) → t.Regular) {cs : List Char}
    {t : LocalDateTime} (h : dateTimeWith? time? cs = some t) : t.time.Regular := by
  unfold dateTimeWith? at h
  simp only [bind, Option.bind_eq_some_iff] at h
  obtain ⟨_, _, _, _, ⟨t', r⟩, ht', h⟩ := h
  split at h <;> cases h
  exact htime ht'

end Calendar

theorem regular_of_readLocalDateTime? {cs : List Char} {t : LocalDateTime}
    (h : readLocalDateTime? cs = some t) : t.time.Regular := by
  unfold readLocalDateTime? at h
  cases hsecond : dateTimeWith? secondTime? cs with
  | some t' =>
    rw [hsecond] at h
    cases h
    exact regular_of_dateTimeWith? regular_of_secondTime? hsecond
  | none =>
    rw [hsecond] at h
    exact regular_of_dateTimeWith? regular_of_minuteTime? h

/-- A literal is a text, or a date or time. -/
theorem Literal.eq_text_or (l : Literal) : (∃ s, l = .text s) ∨ ∀ s, l ≠ .text s := by
  cases l with
  | text s => exact Or.inl ⟨s, rfl⟩
  | _ => exact Or.inr (by simp)

/-- The literals whose written form is read as them: of the instants those in years of four digits,
with offsets of whole minutes. -/
def Literal.Legible : Literal → Prop
  | .text _ | .date _ => True
  | .dateTime t none => t.time.Regular
  | .dateTime t (some o) => t.time.Regular ∧ (0 ≤ t.date.year ∧ t.date.year ≤ 9999) ∧
      o.seconds % 60 = 0 ∧ (OffsetDateTime.of? t o).isSome

theorem legible_of_readInternetDateTime? {cs : List Char} {x : OffsetDateTime}
    (h : readInternetDateTime? cs = some x) :
    (Literal.dateTime x.clock (some x.offset)).Legible := by
  unfold readInternetDateTime? at h
  obtain ⟨⟨year, r₁⟩, hyear, h⟩ := Option.bind_eq_some_iff.1 h
  -- the numbers in between, with the marks before them, are of no interest
  iterate 11 obtain ⟨_, -, h⟩ := Option.bind_eq_some_iff.1 h
  obtain ⟨⟨o, r₂⟩, ho, h⟩ := Option.bind_eq_some_iff.1 h
  obtain ⟨d, hd, h⟩ := Option.bind_eq_some_iff.1 h
  obtain ⟨time, htime, h⟩ := Option.bind_eq_some_iff.1 h
  split at h
  · obtain ⟨hclock, hoffset⟩ := OffsetDateTime.clock_of? h
    have hy : year < 10 ^ 4 := lt_of_digits? hyear
    have hdy := year_of_ofYmd? hd
    rw [hclock, hoffset]
    refine ⟨TimeOfDay.regular_of_ofHms? htime, ?_, whole_of_internetOffset? ho, ?_⟩
    · simp only [hdy]; omega
    · rw [h]; rfl
  · cases h

namespace Literal

/-- **Every date and time that is read is written such that it is read again.** -/
theorem legible_of_temporal? {cs : List Char} {l : Literal} (h : temporal? cs = some l) :
    l.Legible ∧ ∀ s, l ≠ .text s := by
  unfold temporal? at h
  split at h
  · cases h; exact ⟨trivial, by simp⟩
  · split at h
    · next hx => cases h; exact ⟨legible_of_readInternetDateTime? hx, by simp⟩
    · obtain ⟨t, ht, rfl⟩ := Option.map_eq_some_iff.1 h
      exact ⟨regular_of_readLocalDateTime? ht, by simp⟩

theorem legible_ofText (cs : List Char) : (ofText cs).Legible := by
  unfold ofText
  cases h : temporal? cs with
  | none => trivial
  | some l => exact (legible_of_temporal? h).1

/-- **Dates and times read back.** -/
theorem temporal?_written {l : Literal} (h : l.Legible) (hl : ∀ s, l ≠ .text s) :
    temporal? l.written = some l := by
  unfold temporal?
  match l, h with
  | .text s, _ => exact absurd rfl (hl s)
  | .date d, _ => simp only [written, readDate?_text]
  | .dateTime t none, h =>
    have hdate := readDate?_dateTime t []
    rw [List.append_nil] at hdate
    simp only [written, Option.elim_none, List.append_nil, hdate, readInternetDateTime?_dateTime h,
      readLocalDateTime?_text h, Option.map_some]
  | .dateTime t (some o), ⟨htime, hyear, hwhole, hsome⟩ =>
    -- no date, for a time follows it
    obtain ⟨x, hx⟩ := Option.isSome_iff_exists.1 hsome
    obtain ⟨hclock, hoffset⟩ := OffsetDateTime.clock_of? hx
    simp only [written, Option.elim_some, readDate?_dateTime t,
      readInternetDateTime?_text htime hyear hwhole, hx, hclock, hoffset]

end Literal

end Sift
