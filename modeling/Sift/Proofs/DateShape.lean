import Sift.Proofs.LiteralValue

/-!
# What reads as a date

The readers of dates and times pass over white space in front of numbers, but not at the end, and
they begin with a year and a dash behind it.

* `EndsVisibly cs rest`: what is read of `cs` ends with no white space.
* `readLocalDateTime?_eq_none`: no text is read as an instant and as a clock reading.
* `Literal.trim_of_temporal?`, `Literal.temporal?_trim`: white space around a date changes nothing
  in it.
* `Literal.dashed_of_temporal?`: without that white space it begins with a number and a dash.
-/

namespace Sift

open Calendar Text

/-! ## The end of what is read -/

namespace Calendar

/-- What is read of a text, up to the rest, ends with a character that is no white space. -/
def EndsVisibly (cs rest : List Char) : Prop :=
  ∃ taken c, cs = taken ++ c :: rest ∧ isBlank c = false

variable {cs between rest ds : List Char} {width n : Nat}

theorem EndsVisibly.append (h : EndsVisibly cs rest) (before : List Char) :
    EndsVisibly (before ++ cs) rest := by
  obtain ⟨taken, c, rfl, hc⟩ := h
  exact ⟨before ++ taken, c, by rw [List.append_assoc], hc⟩

theorem EndsVisibly.trans (h : EndsVisibly cs between) (h' : EndsVisibly between rest) :
    EndsVisibly cs rest := by
  obtain ⟨taken, c, rfl, -⟩ := h
  have happend := h'.append (taken ++ [c])
  rwa [List.append_assoc] at happend

/-- Digits are visible. -/
theorem endsVisibly_digits (hne : ds ≠ []) (hds : ∀ c ∈ ds, c.isDigit = true) (rest : List Char) :
    EndsVisibly (ds ++ rest) rest := by
  obtain ⟨init, d, rfl⟩ := (List.eq_nil_or_concat ds).resolve_left hne
  rw [List.concat_eq_append] at hds ⊢
  exact ⟨init, d, by simp, isBlank_of_isDigit (hds d (by simp))⟩

theorem takeWhile_append_trimStart (cs : List Char) :
    cs.takeWhile isBlank ++ trimStart cs = cs := List.takeWhile_append_dropWhile

theorem endsVisibly_of_trimStart (h : EndsVisibly (trimStart cs) rest) : EndsVisibly cs rest := by
  rw [← takeWhile_append_trimStart cs]
  exact h.append _

theorem trimStart_trimStart (cs : List Char) : trimStart (trimStart cs) = trimStart cs :=
  trimStart_of_head (Scan.head?_dropWhile isBlank cs)

/-! ## Numbers -/

theorem digitsUpTo?_eq_some (h : digitsUpTo? width cs = some (n, rest)) :
    ∃ ds, cs = ds ++ rest ∧ ds ≠ [] ∧ ∀ c ∈ ds, c.isDigit = true := by
  unfold digitsUpTo? at h
  simp only at h
  split at h
  · cases h
  · next hne =>
    cases h
    have hbefore : (cs.take width).takeWhile Char.isDigit <+: cs :=
      (List.takeWhile_prefix Char.isDigit).trans (List.take_prefix width cs)
    exact ⟨_, (List.prefix_iff_eq_append.1 hbefore).symm, hne, fun c hc =>
      List.mem_takeWhile_imp hc⟩

/-- As many digits as a number may have are read by the loose reader too. -/
theorem digits?_eq_some (hwidth : 0 < width) (h : digits? width cs = some (n, rest)) :
    digitsUpTo? width cs = some (n, rest) ∧ ∃ ds, cs = ds ++ rest ∧ ds ≠ [] ∧
      ∀ c ∈ ds, c.isDigit = true := by
  unfold digits? at h
  simp only at h
  split at h
  · next hds =>
    cases h
    have hdigits : ∀ c ∈ cs.take width, c.isDigit = true := List.all_eq_true.1 hds.2
    have hne : cs.take width ≠ [] := by
      rw [← List.length_pos_iff, hds.1]
      exact hwidth
    have hread : digitsUpTo? width (cs.take width ++ cs.drop width) =
        some (Number.digitsValue (cs.take width), cs.drop width) :=
      digitsUpTo?_append hdigits hne (Nat.le_of_eq hds.1) (Or.inl hds.1)
    rw [List.take_append_drop] at hread
    exact ⟨hread, _, (List.take_append_drop width cs).symm, hne, hdigits⟩
  · cases h

theorem endsVisibly_of_digitsUpTo? (h : digitsUpTo? width cs = some (n, rest)) :
    EndsVisibly cs rest := by
  obtain ⟨ds, rfl, hne, hds⟩ := digitsUpTo?_eq_some h
  exact endsVisibly_digits hne hds rest

theorem endsVisibly_of_number? (h : number? cs = some (n, rest)) : EndsVisibly cs rest :=
  endsVisibly_of_trimStart (endsVisibly_of_digitsUpTo? h)

theorem after?_eq_some {c : Char} (h : after? c cs = some rest) : cs = c :: rest := by
  unfold after? at h
  split at h
  · split at h
    · next heq =>
      cases h
      rw [heq]
    · cases h
  · cases h

/-- A year may have a sign in front of its digits. -/
theorem year?_eq_some {year : Int} (h : year? cs = some (year, rest)) :
    ∃ sign ds, trimStart cs = sign ++ (ds ++ rest) ∧
      (sign = [] ∨ sign = ['+'] ∨ sign = ['-']) ∧ ds ≠ [] ∧ ∀ c ∈ ds, c.isDigit = true := by
  unfold year? at h
  split at h
  · next tail heq =>
    obtain ⟨⟨n, _⟩, hread, hsome⟩ := Option.map_eq_some_iff.1 h
    cases hsome
    obtain ⟨ds, rfl, hds⟩ := digitsUpTo?_eq_some hread
    exact ⟨['-'], ds, heq, Or.inr (Or.inr rfl), hds⟩
  · next tail heq =>
    obtain ⟨⟨n, _⟩, hread, hsome⟩ := Option.map_eq_some_iff.1 h
    cases hsome
    obtain ⟨ds, rfl, hds⟩ := digitsUpTo?_eq_some hread
    exact ⟨['+'], ds, heq, Or.inr (Or.inl rfl), hds⟩
  · obtain ⟨⟨n, _⟩, hread, hsome⟩ := Option.map_eq_some_iff.1 h
    cases hsome
    obtain ⟨ds, heq, hds⟩ := digitsUpTo?_eq_some hread
    exact ⟨[], ds, heq, Or.inl rfl, hds⟩

theorem year?_trimStart (cs : List Char) : year? (trimStart cs) = year? cs := by
  unfold year?
  rw [trimStart_trimStart]

/-- A fraction that no point announces is none. -/
theorem fraction?_eq_some (h : fraction? cs = some (n, rest)) :
    rest = cs ∨ EndsVisibly cs rest := by
  unfold fraction? at h
  split at h
  · next tail =>
    right
    unfold nanos? at h
    simp only [bind, Option.bind_eq_some_iff] at h
    obtain ⟨⟨m, after⟩, hread, hsome⟩ := h
    cases hsome
    obtain ⟨ds, rfl, hne, hds⟩ := digitsUpTo?_eq_some hread
    have hmore : ∀ c ∈ ds ++ after.takeWhile Char.isDigit, c.isDigit = true := by
      intro c hc
      rcases List.mem_append.1 hc with hc | hc
      · exact hds c hc
      · exact List.mem_takeWhile_imp hc
    have hvisible := (endsVisibly_digits (by simp [hne]) hmore
      (after.dropWhile Char.isDigit)).append ['.']
    rwa [List.append_assoc, List.takeWhile_append_dropWhile] at hvisible
  · cases h
    exact Or.inl rfl

/-! ## Dates and times -/

/-- A date begins with a year and a dash, and ends with a number. -/
theorem date?_eq_some {d : Date} (h : date? cs = some (d, rest)) :
    Dashed (trimStart cs) ∧ EndsVisibly cs rest := by
  unfold date? at h
  simp only [bind, Option.bind_eq_some_iff] at h
  obtain ⟨⟨year, r₁⟩, hyear, r₂, hdash, ⟨month, r₃⟩, hmonth, r₄, hdash', ⟨day, r₅⟩, hday, _, -,
    h⟩ := h
  cases h
  obtain ⟨sign, ds, htrim, hsign, hds⟩ := year?_eq_some hyear
  obtain rfl := after?_eq_some hdash
  obtain rfl := after?_eq_some hdash'
  refine ⟨⟨sign, ds, r₂, htrim, hsign, hds⟩, endsVisibly_of_trimStart ?_⟩
  -- behind the year stand a dash, the month, a dash and the day
  have hbehind := ((endsVisibly_of_number? hmonth).append ['-']).trans
    ((endsVisibly_of_number? hday).append ['-'])
  rw [htrim, ← List.append_assoc]
  exact hbehind.append _

theorem endsVisibly_of_hourMinute? {hour minute : Nat}
    (h : hourMinute? cs = some (hour, minute, rest)) : EndsVisibly cs rest := by
  unfold hourMinute? at h
  simp only [bind, Option.bind_eq_some_iff] at h
  obtain ⟨⟨_, r₁⟩, hhour, r₂, hcolon, ⟨_, r₃⟩, hminute, h⟩ := h
  cases h
  obtain rfl := after?_eq_some hcolon
  exact (endsVisibly_of_number? hhour).trans ((endsVisibly_of_number? hminute).append [':'])

theorem endsVisibly_of_secondTime? {t : TimeOfDay} (h : secondTime? cs = some (t, rest)) :
    EndsVisibly cs rest := by
  unfold secondTime? at h
  simp only [bind, Option.bind_eq_some_iff] at h
  obtain ⟨⟨_, _, r₁⟩, hminute, r₂, hcolon, ⟨_, r₃⟩, hsecond, ⟨_, r₄⟩, hfraction, _, -, h⟩ := h
  cases h
  obtain rfl := after?_eq_some hcolon
  have hbefore := (endsVisibly_of_hourMinute? hminute).trans
    ((endsVisibly_of_number? hsecond).append [':'])
  rcases fraction?_eq_some hfraction with rfl | hbehind
  · exact hbefore
  · exact hbefore.trans hbehind

theorem endsVisibly_of_minuteTime? {t : TimeOfDay} (h : minuteTime? cs = some (t, rest)) :
    EndsVisibly cs rest := by
  unfold minuteTime? at h
  simp only [bind, Option.bind_eq_some_iff] at h
  obtain ⟨⟨_, _, r₁⟩, hminute, _, -, h⟩ := h
  cases h
  exact endsVisibly_of_hourMinute? hminute

theorem dateTimeWith?_eq_some {time? : List Char → Option (TimeOfDay × List Char)}
    (htime : ∀ {cs t rest}, time? cs = some (t, rest) → EndsVisibly cs rest) {t : LocalDateTime}
    (h : dateTimeWith? time? cs = some t) : Dashed (trimStart cs) ∧ EndsVisibly cs [] := by
  unfold dateTimeWith? at h
  simp only [bind, Option.bind_eq_some_iff] at h
  obtain ⟨⟨_, r₁⟩, hdate, r₂, hmark, ⟨_, r₃⟩, hread, h⟩ := h
  split at h
  · next hend =>
    rw [show r₃ = [] from hend] at hread
    obtain ⟨hdashed, hvisible⟩ := date?_eq_some hdate
    obtain rfl := after?_eq_some hmark
    exact ⟨hdashed, hvisible.trans ((htime hread).append ['T'])⟩
  · cases h

theorem offsetSign?_eq_some {sign : Int} (h : offsetSign? cs = some (sign, rest)) :
    ∃ c, cs = c :: rest := by
  unfold offsetSign? at h
  split at h
  · next c tail =>
    refine ⟨c, ?_⟩
    split at h
    · cases h
      rfl
    · split at h <;> cases h
      rfl
  · cases h

theorem internetMark?_eq_some (h : internetMark? cs = some rest) : ∃ c, cs = c :: rest := by
  unfold internetMark? at h
  split at h
  · next c tail =>
    split at h <;> cases h
    exact ⟨c, rfl⟩
  · cases h

/-- An offset is a letter, or ends with minutes. -/
theorem endsVisibly_of_internetOffset? {o : UtcOffset}
    (h : internetOffset? cs = some (o, rest)) : EndsVisibly cs rest := by
  unfold internetOffset? at h
  split at h
  · cases h
    exact ⟨[], 'Z', rfl, by decide⟩
  · cases h
    exact ⟨[], 'z', rfl, by decide⟩
  · simp only [bind, Option.bind_eq_some_iff] at h
    obtain ⟨⟨_, r₁⟩, hsign, ⟨_, r₂⟩, hhour, r₃, hcolon, ⟨_, r₄⟩, hminute, h⟩ := h
    split at h
    · simp only [Option.bind_eq_some_iff] at h
      obtain ⟨_, -, hsome⟩ := h
      cases hsome
      obtain ⟨c, rfl⟩ := offsetSign?_eq_some hsign
      obtain rfl := after?_eq_some hcolon
      have hhours := endsVisibly_of_digitsUpTo? (digits?_eq_some (by decide) hhour).1
      have hminutes := endsVisibly_of_digitsUpTo? (digits?_eq_some (by decide) hminute).1
      exact (hhours.trans (hminutes.append [':'])).append [c]
    · cases h

/-! ## Instants -/

/-- What has the width of a number is that number. -/
theorem number?_of_digits? (h : digits? 2 cs = some (n, rest)) : number? cs = some (n, rest) := by
  obtain ⟨hread, ds, rfl, hne, hds⟩ := digits?_eq_some (by decide) h
  rw [number?, trimStart_digits hds hne, hread]

theorem year?_of_digits? (h : digits? 4 cs = some (n, rest)) :
    year? cs = some ((n : Int), rest) := by
  obtain ⟨hread, ds, rfl, hne, hds⟩ := digits?_eq_some (by decide) h
  obtain ⟨d, ds, rfl⟩ := List.exists_cons_of_ne_nil hne
  rw [List.cons_append] at hread ⊢
  rw [year?_of_isDigit (hds d List.mem_cons_self), hread, Option.map_some]

/-- **The parts of an instant** as the loose readers find them: a date, hours and minutes, seconds
with a fraction, and an offset up to the end. -/
structure InstantParts (cs : List Char) : Prop where
  head : ∀ c ∈ cs.head?, isBlank c = false
  parts : ∃ date r₁ r₂ hour minute r₃ second r₄ nano r₅ offset,
    date? cs = some (date, r₁) ∧ internetMark? r₁ = some r₂ ∧
    hourMinute? r₂ = some (hour, minute, ':' :: r₃) ∧ number? r₃ = some (second, r₄) ∧
    fraction? r₄ = some (nano, r₅) ∧ internetOffset? r₅ = some (offset, [])

theorem instantParts {t : OffsetDateTime} (h : readInternetDateTime? cs = some t) :
    InstantParts cs := by
  unfold readInternetDateTime? at h
  obtain ⟨⟨year, r₁⟩, hyear, h⟩ := Option.bind_eq_some_iff.1 h
  obtain ⟨r₂, hdash, h⟩ := Option.bind_eq_some_iff.1 h
  obtain ⟨⟨month, r₃⟩, hmonth, h⟩ := Option.bind_eq_some_iff.1 h
  obtain ⟨r₄, hdash', h⟩ := Option.bind_eq_some_iff.1 h
  obtain ⟨⟨day, r₅⟩, hday, h⟩ := Option.bind_eq_some_iff.1 h
  obtain ⟨r₆, hmark, h⟩ := Option.bind_eq_some_iff.1 h
  obtain ⟨⟨hour, r₇⟩, hhour, h⟩ := Option.bind_eq_some_iff.1 h
  obtain ⟨r₈, hcolon, h⟩ := Option.bind_eq_some_iff.1 h
  obtain ⟨⟨minute, r₉⟩, hminute, h⟩ := Option.bind_eq_some_iff.1 h
  obtain ⟨r₁₀, hcolon', h⟩ := Option.bind_eq_some_iff.1 h
  obtain ⟨⟨second, r₁₁⟩, hsecond, h⟩ := Option.bind_eq_some_iff.1 h
  obtain ⟨⟨nano, r₁₂⟩, hfraction, h⟩ := Option.bind_eq_some_iff.1 h
  obtain ⟨⟨offset, r₁₃⟩, hoffset, h⟩ := Option.bind_eq_some_iff.1 h
  obtain ⟨date, hdate, h⟩ := Option.bind_eq_some_iff.1 h
  obtain ⟨time, -, h⟩ := Option.bind_eq_some_iff.1 h
  split at h
  · next hend =>
    rw [show r₁₃ = [] from hend] at hoffset
    obtain rfl := after?_eq_some hcolon'
    refine ⟨?_, date, r₅, r₆, hour, minute, r₁₀, second, r₁₁, nano, r₁₂, offset, ?_, hmark, ?_,
      number?_of_digits? hsecond, hfraction, hoffset⟩
    · obtain ⟨-, ds, rfl, hne, hds⟩ := digits?_eq_some (by decide) hyear
      obtain ⟨d, ds, rfl⟩ := List.exists_cons_of_ne_nil hne
      rintro c ⟨⟩
      exact isBlank_of_isDigit (hds d List.mem_cons_self)
    · simp only [date?, year?_of_digits? hyear, hdash, number?_of_digits? hmonth, hdash',
        number?_of_digits? hday, hdate, bind, Option.bind_some, pure]
    · simp only [hourMinute?, number?_of_digits? hhour, hcolon, number?_of_digits? hminute, bind,
        Option.bind_some, pure]
  · cases h

theorem InstantParts.endsVisibly (h : InstantParts cs) : EndsVisibly cs [] := by
  obtain ⟨_, r₁, r₂, _, _, r₃, _, r₄, _, r₅, _, hdate, hmark, hminute, hsecond, hfraction,
    hoffset⟩ := h.parts
  obtain ⟨c, rfl⟩ := internetMark?_eq_some hmark
  have hbefore := (date?_eq_some hdate).2.trans (((endsVisibly_of_hourMinute? hminute).trans
    ((endsVisibly_of_number? hsecond).append [':'])).append [c])
  rcases fraction?_eq_some hfraction with rfl | hbehind
  · exact hbefore.trans (endsVisibly_of_internetOffset? hoffset)
  · exact (hbefore.trans hbehind).trans (endsVisibly_of_internetOffset? hoffset)

end Calendar

/-- **An instant is no clock reading**: its offset is left behind the time. -/
theorem readLocalDateTime?_eq_none {cs : List Char} {t : OffsetDateTime}
    (h : readInternetDateTime? cs = some t) : readLocalDateTime? cs = none := by
  obtain ⟨date, r₁, r₂, hour, minute, r₃, second, r₄, nano, r₅, offset, hdate, hmark, hminute,
    hsecond, hfraction, hoffset⟩ := (instantParts h).parts
  have hoffset' : r₅ ≠ [] := by
    obtain ⟨taken, c, rfl, -⟩ := endsVisibly_of_internetOffset? hoffset
    simp
  have hmark' : ∀ r, after? 'T' r₁ = some r → r = r₂ := by
    intro r hr
    obtain rfl := after?_eq_some hr
    cases hmark
    rfl
  -- to the second the time ends at the offset, and to the minute at the seconds
  have hto : ∀ time? : List Char → Option (TimeOfDay × List Char),
      (∀ time r, time? r₂ = some (time, r) → r ≠ []) → dateTimeWith? time? cs = none := by
    intro time? htime
    unfold dateTimeWith?
    rw [hdate]
    cases hafter : after? 'T' r₁ with
    | none => simp [hafter]
    | some r =>
      obtain rfl := hmark' r hafter
      cases hread : time? r with
      | none => simp [hafter, hread]
      | some x => simp [hafter, hread, htime x.1 x.2 hread]
  have hseconds : dateTimeWith? secondTime? cs = none := by
    refine hto _ fun time r hread => ?_
    simp only [secondTime?, hminute, after?_cons, hsecond, hfraction, bind, Option.bind_some,
      Option.bind_eq_some_iff] at hread
    obtain ⟨_, -, hsome⟩ := hread
    cases hsome
    exact hoffset'
  have hminutes : dateTimeWith? minuteTime? cs = none := by
    refine hto _ fun time r hread => ?_
    simp only [minuteTime?, hminute, bind, Option.bind_some, Option.bind_eq_some_iff] at hread
    obtain ⟨_, -, hsome⟩ := hread
    cases hsome
    simp
  rw [readLocalDateTime?, hseconds, hminutes]
  rfl

/-! ## Literals -/

section Trimmed

variable {cs : List Char}

theorem date?_trimStart (cs : List Char) : date? (trimStart cs) = date? cs := by
  unfold date?
  rw [year?_trimStart]

theorem readDate?_trimStart (cs : List Char) : readDate? (trimStart cs) = readDate? cs := by
  unfold readDate?
  rw [date?_trimStart]

theorem readLocalDateTime?_trimStart (cs : List Char) :
    readLocalDateTime? (trimStart cs) = readLocalDateTime? cs := by
  unfold readLocalDateTime? dateTimeWith?
  rw [date?_trimStart]

theorem Text.trim_of_endsVisibly (h : EndsVisibly cs []) : trim cs = trimStart cs := by
  obtain ⟨taken, c, rfl, hc⟩ := h
  have hlast : (trimStart (taken ++ [c])).getLast? = some c := by
    unfold trimStart
    rw [List.dropWhile_append]
    split
    · simp [hc]
    · rw [List.getLast?_append]
      rfl
  have htight : Tight (trimStart (taken ++ [c])) :=
    ⟨Scan.head?_dropWhile isBlank _, by simp [hlast, hc]⟩
  have htrim := trim_of_tight htight
  rwa [trim, trimStart_trimStart] at htrim

namespace Literal

variable {l : Literal}

/-- A date, a clock reading or an instant begins with a year and a dash, white space aside, and ends
with no white space. -/
theorem shape_of_temporal? (h : temporal? cs = some l) :
    Dashed (trimStart cs) ∧ EndsVisibly cs [] := by
  unfold temporal? at h
  split at h
  · next d hdate =>
    simp only [readDate?, bind, Option.bind_eq_some_iff] at hdate
    obtain ⟨⟨_, rest⟩, hread, hend⟩ := hdate
    split at hend
    · next hnil =>
      rw [show rest = [] from hnil] at hread
      exact date?_eq_some hread
    · cases hend
  · split at h
    · next t hinstant =>
      obtain ⟨_, _, _, _, _, _, _, _, _, _, _, hdate, -⟩ := (instantParts hinstant).parts
      exact ⟨(date?_eq_some hdate).1, (instantParts hinstant).endsVisibly⟩
    · obtain ⟨t, hlocal, -⟩ := Option.map_eq_some_iff.1 h
      unfold readLocalDateTime? at hlocal
      cases hsecond : dateTimeWith? secondTime? cs with
      | some _ => exact dateTimeWith?_eq_some endsVisibly_of_secondTime? hsecond
      | none =>
        rw [hsecond] at hlocal
        exact dateTimeWith?_eq_some endsVisibly_of_minuteTime? hlocal

theorem trim_of_temporal? (h : temporal? cs = some l) : trim cs = trimStart cs :=
  trim_of_endsVisibly (shape_of_temporal? h).2

/-- **Without white space around it a date begins with a number and a dash.** -/
theorem dashed_of_temporal? (h : temporal? cs = some l) : Dashed (trim cs) := by
  rw [trim_of_temporal? h]
  exact (shape_of_temporal? h).1

/-- **White space around a date changes nothing in it.** -/
theorem temporal?_trim (h : temporal? cs = some l) : temporal? (trim cs) = some l := by
  rw [trim_of_temporal? h]
  unfold temporal? at h ⊢
  rw [readDate?_trimStart, readLocalDateTime?_trimStart]
  cases hdate : readDate? cs with
  | some d => simpa [hdate] using h
  | none =>
    simp only [hdate] at h ⊢
    cases hinstant : readInternetDateTime? cs with
    | some t =>
      have hsame : trimStart cs = cs := trimStart_of_head (instantParts hinstant).head
      rw [hsame, hinstant]
      simpa [hinstant] using h
    | none =>
      simp only [hinstant] at h
      -- what is read as a clock reading is no instant, with less white space either
      cases hinstant' : readInternetDateTime? (trimStart cs) with
      | some t =>
        have hnone := readLocalDateTime?_eq_none hinstant'
        rw [readLocalDateTime?_trimStart] at hnone
        rw [hnone] at h
        cases h
      | none => exact h

end Literal

end Trimmed

end Sift
