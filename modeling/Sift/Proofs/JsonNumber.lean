import Sift.Json.Reader
import Sift.Proofs.NumberText
import Sift.Proofs.Scanning

/-!
# Numbers in JSON read back

* `Json.Numeral`: a number by its parts, as the grammar has them.
* `JsonGrammar.reads_number`, `JsonGrammar.fails_number_of_none`: **the parts decide what is read**,
  wherever the number ends.
* `Json.Numeral.value?_ofInt`: an integer is read back.
* `Json.exists_numeral`: the text of a finite double is a number that rounds to it.
* `Json.Numeral.Writes.value?`: it is read as the double if its digits are few.
-/

namespace Sift

open Scan Number

namespace Json

/-- The text of an exponent. -/
def exponentText (e : Int) : List Char := 'e' :: (if 0 ≤ e then ['+'] else []) ++ intText e

/-- **A number of the grammar**: digits with no zero in front of others, and after them a fraction
and an exponent, if there are any. -/
structure Numeral where
  negative : Bool
  whole : List Char
  fraction : Option (List Char)
  exponent : Option Int
  whole_ne : whole ≠ []
  whole_digits : ∀ c ∈ whole, c.isDigit = true
  whole_head : whole.head? = some '0' → whole.length ≤ 1
  fraction_ne : fraction ≠ some []
  fraction_digits : ∀ ds ∈ fraction, ∀ c ∈ ds, c.isDigit = true

namespace Numeral

/-- The text of the fraction. -/
def fractionText (x : Numeral) : List Char := x.fraction.elim [] ('.' :: ·)

/-- The text of a number. -/
def text (x : Numeral) : List Char :=
  signed x.negative (x.whole ++ (x.fractionText ++ x.exponent.elim [] exponentText))

/-- What a number is read as. -/
def value? (x : Numeral) : Option Json := ofParts? x.negative x.whole x.fraction x.exponent

/-- The number without its sign. -/
def decimal (x : Numeral) : Decimal :=
  ⟨digitsValue (x.whole ++ x.fraction.getD []), x.exponent.getD 0 - (x.fraction.getD []).length⟩

/-- A number begins with a minus or a digit. -/
theorem exists_head (x : Numeral) :
    ∃ c cs, x.text = c :: cs ∧ (c = '-' ∨ c.isDigit = true) := by
  obtain ⟨c, cs, hwhole⟩ := List.exists_cons_of_ne_nil x.whole_ne
  have hc := x.whole_digits c (hwhole ▸ List.mem_cons_self)
  unfold text signed
  cases x.negative with
  | true => exact ⟨'-', _, rfl, Or.inl rfl⟩
  | false => exact ⟨c, _, by rw [hwhole]; rfl, Or.inr hc⟩

end Numeral

end Json

namespace JsonGrammar

variable {rest : List Char}

/-- No number goes on with what follows. -/
def EndsNumber (rest : List Char) : Prop :=
  ∀ c ∈ rest.head?, c.isDigit = false ∧ c ≠ '.' ∧ c ≠ 'e' ∧ c ≠ 'E'

/-- Digits are read up to the first character that is none. -/
theorem reads_digits {ds : List Char} (hne : ds ≠ []) (hds : ∀ c ∈ ds, c.isDigit = true)
    (hrest : ∀ c ∈ rest.head?, c.isDigit = false) : Reads digits (· = ds) (ds ++ rest) rest := by
  obtain ⟨c, cs, rfl⟩ := List.exists_cons_of_ne_nil hne
  rw [List.forall_mem_cons] at hds
  have htake : (cs ++ rest).takeWhile Char.isDigit = cs := by
    rw [List.takeWhile_append_of_pos hds.2]
    cases rest with
    | nil => simp
    | cons d rest => rw [List.takeWhile_cons_of_neg (by simp [hrest d rfl]), List.append_nil]
  have hdrop : (cs ++ rest).dropWhile Char.isDigit = rest := by
    rw [List.dropWhile_append_of_pos hds.2]
    cases rest with
    | nil => rfl
    | cons d rest => rw [List.dropWhile_cons_of_neg (by simp [hrest d rfl])]
  refine (Reads.char (P := (· = c)) hds.1 rfl).bind_eq ?_
  have hmany := (readsMany_char Char.isDigit (cs ++ rest)).many
  rw [htake, hdrop] at hmany
  exact hmany.bind_eq (Reads.pure rfl)

theorem reads_exponentPart (e : Int) (hrest : ∀ c ∈ rest.head?, c.isDigit = false) :
    Reads exponentPart (· = e) (Json.exponentText e ++ rest) rest := by
  have hdigits : Reads digits (· = natText e.natAbs) (natText e.natAbs ++ rest) rest :=
    reads_digits (natText_ne_nil _) (fun c hc => isDigit_of_mem_natText hc) hrest
  unfold Json.exponentText
  rw [intText, List.cons_append, List.cons_append]
  refine (Reads.char (P := fun _ => True) rfl trivial).bind fun _ _ => ?_
  by_cases he : 0 ≤ e
  · rw [if_pos he, if_neg (by omega)]
    refine (Reads.optional_some (P := (· = some '+')) (Reads.char rfl rfl)).bind_eq ?_
    refine hdigits.bind_eq (Reads.pure ?_)
    rw [digitsValue_natText, if_neg (by decide)]
    omega
  · rw [if_neg he, if_pos (by omega)]
    refine (Reads.optional_some (P := (· = some '-')) (Reads.char rfl rfl)).bind_eq ?_
    refine hdigits.bind_eq (Reads.pure ?_)
    rw [digitsValue_natText, if_pos rfl]
    omega

section Parts

variable (x : Json.Numeral)

theorem reads_wholePart {cs : List Char} (hcs : ∀ c ∈ cs.head?, c.isDigit = false) :
    Reads wholePart (· = x.whole) (x.whole ++ cs) cs := by
  refine (reads_digits x.whole_ne x.whole_digits hcs).bind_eq ?_
  rw [if_neg fun h => absurd (x.whole_head h.1) (Nat.not_le.2 h.2)]
  exact Reads.pure rfl

theorem reads_fraction {cs : List Char} (hcs : ∀ c ∈ cs.head?, c.isDigit = false ∧ c ≠ '.') :
    Reads (optional fractionPart) (· = x.fraction) (x.fractionText ++ cs) cs := by
  have hne := x.fraction_ne
  have hdigits := x.fraction_digits
  unfold Json.Numeral.fractionText
  cases hfraction : x.fraction with
  | none => exact Reads.optional_none (fails_exactly fun c hc => (hcs c hc).2).bind rfl
  | some ds =>
    rw [hfraction] at hne
    have hds : ds ≠ [] := fun h => hne (h ▸ rfl)
    refine Reads.optional_some (Reads.exactly_bind ?_)
    exact (reads_digits hds (hdigits ds hfraction) fun c hc => (hcs c hc).1).mono
      fun _ h => congrArg some h

theorem reads_exponent (hrest : EndsNumber rest) :
    Reads (optional exponentPart) (· = x.exponent)
      (x.exponent.elim [] Json.exponentText ++ rest) rest := by
  cases x.exponent with
  | none =>
    refine Reads.optional_none (fails_char fun c hc => ?_).bind rfl
    simp [(hrest c hc).2.2.1, (hrest c hc).2.2.2]
  | some e =>
    exact Reads.optional_some ((reads_exponentPart e fun c hc => (hrest c hc).1).mono
      fun _ h => congrArg some h)

theorem reads_sign (cs : List Char) : Reads (optional (exactly '-'))
    (fun sign => sign.isSome = x.negative) (x.text ++ cs)
      (x.whole ++ (x.fractionText ++ (x.exponent.elim [] Json.exponentText ++ cs))) := by
  unfold Json.Numeral.text signed
  cases x.negative with
  | true =>
    simp only [if_true, List.append_assoc, List.cons_append, List.nil_append]
    exact Reads.optional_some (Reads.exactly rfl)
  | false =>
    simp only [Bool.false_eq_true, if_false, List.append_assoc, List.nil_append]
    refine Reads.optional_none (fails_exactly fun c hc => ?_) rfl
    obtain ⟨d, ds, hwhole⟩ := List.exists_cons_of_ne_nil x.whole_ne
    rw [hwhole] at hc
    cases hc
    exact (ne_sign_of_isDigit (x.whole_digits _ (hwhole ▸ List.mem_cons_self))).1

/-- What stands ahead behind the sign and behind the digits. -/
theorem ends_parts (hrest : EndsNumber rest) :
    (∀ c ∈ (x.fractionText ++ (x.exponent.elim [] Json.exponentText ++ rest)).head?,
        c.isDigit = false) ∧
      ∀ c ∈ (x.exponent.elim [] Json.exponentText ++ rest).head?,
        c.isDigit = false ∧ c ≠ '.' := by
  have hexponent : ∀ c ∈ (x.exponent.elim [] Json.exponentText ++ rest).head?,
      c.isDigit = false ∧ c ≠ '.' := by
    cases x.exponent with
    | none => exact fun c hc => ⟨(hrest c hc).1, (hrest c hc).2.1⟩
    | some e =>
      rintro c ⟨⟩
      decide
  refine ⟨?_, hexponent⟩
  unfold Json.Numeral.fractionText
  cases x.fraction with
  | none => exact fun c hc => (hexponent c hc).1
  | some ds =>
    rintro c ⟨⟩
    rfl

variable {x}

/-- **A number is read as the value of its parts**, wherever it ends. -/
theorem reads_number {j : Json} (h : x.value? = some j) (hrest : EndsNumber rest) :
    Reads number (· = j) (x.text ++ rest) rest := by
  obtain ⟨hwhole, hfraction⟩ := ends_parts x hrest
  refine (reads_sign x rest).bind fun sign hsign => ?_
  refine (reads_wholePart x hwhole).bind_eq ?_
  refine (reads_fraction x hfraction).bind_eq ?_
  refine (reads_exponent x hrest).bind_eq ?_
  rw [hsign, show Json.ofParts? x.negative x.whole x.fraction x.exponent = some j from h]
  exact Reads.pure rfl

/-- A number beyond every double is none. -/
theorem fails_number_of_none (h : x.value? = none) (hrest : EndsNumber rest) :
    Fails number (x.text ++ rest) := by
  obtain ⟨hwhole, hfraction⟩ := ends_parts x hrest
  refine (reads_sign x rest).bind_fails fun sign hsign => ?_
  refine (reads_wholePart x hwhole).bind_fails ?_
  rintro _ rfl
  refine (reads_fraction x hfraction).bind_fails ?_
  rintro _ rfl
  refine (reads_exponent x hrest).bind_fails ?_
  rintro _ rfl
  rw [hsign, show Json.ofParts? x.negative x.whole x.fraction x.exponent = none from h]
  exact fails_fail

end Parts

end JsonGrammar

namespace Json

/-! ## Integers -/

/-- The digits of a positive number begin with no zero. -/
theorem natText_head_ne {n : Nat} (hn : 0 < n) : (natText n).head? ≠ some '0' := by
  intro h
  obtain ⟨hlow, -⟩ := natText_bounds hn
  have hvalue := digitsValue_natText n
  have hdigits : ∀ c ∈ natText n, c.isDigit = true := fun c hc => isDigit_of_mem_natText hc
  obtain ⟨c, cs, hcs⟩ := List.exists_cons_of_ne_nil (natText_ne_nil n)
  rw [hcs] at h hlow hvalue hdigits
  cases h
  -- the digits behind a zero are too few
  have hzero : digitsValue ('0' :: cs) = digitsValue cs := digitsValue_zeros_append 1 cs
  have hlt := digitsValue_lt fun c hc => hdigits c (List.mem_cons_of_mem _ hc)
  rw [hzero] at hvalue
  rw [hvalue] at hlt
  exact absurd hlt (Nat.not_lt.2 hlow)

theorem natText_head (n : Nat) (h : (natText n).head? = some '0') : (natText n).length ≤ 1 := by
  rcases Nat.eq_zero_or_pos n with rfl | hn
  · decide
  · exact absurd h (natText_head_ne hn)

/-- Digits alone are an integer where they fit. -/
theorem ofParts?_integer {negative : Bool} {whole : List Char} {i : Int64}
    (h : toInt64? (withSign negative (digitsValue whole)) = some i)
    (hzero : ¬(negative = true ∧ digitsValue whole = 0)) :
    ofParts? negative whole none none = some (.integer i) := by
  unfold withSign at h
  unfold ofParts?
  simp only [h, hzero, if_false]

namespace Numeral

/-- An integer. -/
def ofInt (i : Int) : Numeral where
  negative := i < 0
  whole := natText i.natAbs
  fraction := none
  exponent := none
  whole_ne := natText_ne_nil _
  whole_digits _ hc := isDigit_of_mem_natText hc
  whole_head := natText_head _
  fraction_ne := by simp
  fraction_digits _ h := by cases h

theorem text_ofInt (i : Int) : (ofInt i).text = intText i := by
  rw [intText_eq, text, fractionText]
  simp only [ofInt, Option.elim_none, List.append_nil]

theorem value?_ofInt (i : Int64) : (ofInt i.toInt).value? = some (.integer i) := by
  have hself : toInt64? i.toInt = some i := by
    unfold toInt64?
    rw [if_pos ⟨Int64.minValue_le_toInt i, Int64.toInt_le i⟩, Int64.ofInt_toInt]
  have hvalue : withSign (i.toInt < 0) i.toInt.natAbs = i.toInt := by
    unfold withSign
    simp only [decide_eq_true_eq]
    split <;> omega
  refine ofParts?_integer ?_ ?_
  · rw [ofInt, digitsValue_natText, hvalue, hself]
  · rw [ofInt, digitsValue_natText, decide_eq_true_eq]
    omega

end Numeral

/-! ## Doubles -/

/-- A fraction is rounded alike in larger terms. -/
theorem roundHalfEven_scale {c : Nat} (hc : 0 < c) (num den : Nat) :
    roundHalfEven (c * num) (c * den) = roundHalfEven num den := by
  have hfloor : c * num / (c * den) = num / den := Nat.mul_div_mul_left num den hc
  have hmod : 2 * (c * num % (c * den)) = c * (2 * (num % den)) := by
    rw [Nat.mul_mod_mul_left]
    ring
  simp only [roundHalfEven, hfloor, hmod, Nat.mul_lt_mul_left hc]

theorem nearest_scale {c : Nat} (hc : 0 < c) (num den : Nat) :
    BinaryFormat.double.nearest (c * num) (c * den) = BinaryFormat.double.nearest num den := by
  have hfloor : c * num / (c * den) = num / den := Nat.mul_div_mul_left num den hc
  rw [Binary64.nearest_double, Binary64.nearest_double, hfloor, Nat.mul_assoc,
    roundHalfEven_scale hc]

/-- A whole number with a zero behind its point. -/
theorem roundsTo_tenfold {d : Decimal} {steps : Nat} (hexp : 0 ≤ d.exponent)
    (h : d.RoundsTo steps) :
    Decimal.RoundsTo ⟨d.digits * Nat.pow 10 d.exponent.toNat * 10, -1⟩ steps := by
  unfold Decimal.RoundsTo at h ⊢
  have hten : gridUnit (-1) = (Binary64.one, 10 * 1) := rfl
  simp only [gridUnit, if_pos hexp] at h
  rw [hten]
  generalize Nat.pow 10 d.exponent.toNat = power at h ⊢
  generalize Binary64.one = one at h ⊢
  have hnum : d.digits * power * 10 * one = 10 * (d.digits * (power * one)) := by ring
  rw [hnum, nearest_scale (by decide), h]

theorem roundsTo_zero {d : Decimal} (h : d.digits = 0) : d.RoundsTo 0 := by
  have hself := Binary64.nearest_self (m := 0) (gridUnit_pos d.exponent).2 (Nat.dvd_zero _)
  rw [Nat.zero_mul] at hself
  unfold Decimal.RoundsTo
  rwa [h, Nat.zero_mul]

/-- A number with a fraction or an exponent is written for a decimal. A whole number has a zero
behind its point. -/
structure Numeral.Writes (x : Numeral) (negative : Bool) (d : Decimal) (cs : List Char) :
    Prop where
  sign : x.negative = negative
  text : x.text = signed negative cs
  isDouble : x.fraction ≠ none ∨ x.exponent ≠ none
  decimal : x.decimal = d ∨
    0 ≤ d.exponent ∧ x.decimal = ⟨d.digits * Nat.pow 10 d.exponent.toNat * 10, -1⟩

/-- It rounds to what the decimal rounds to. -/
theorem Numeral.Writes.rounds {x : Numeral} {negative : Bool} {d : Decimal} {cs : List Char}
    {steps : Nat} (h : x.Writes negative d cs) (hd : d.RoundsTo steps) :
    x.decimal.RoundsTo steps := by
  rcases h.decimal with hsame | ⟨hexp, htenfold⟩
  · rwa [hsame]
  · rw [htenfold]
    exact roundsTo_tenfold hexp hd

section Written

variable {d : Decimal} {digits : List Char} (negative : Bool)
  (hdigits : ∀ c ∈ digits, c.isDigit = true) (hvalue : digitsValue digits = d.digits)

include hdigits hvalue

/-- Digits on either side of the point. -/
theorem exists_numeral_between (hhead : digits.head? ≠ some '0') {point : Nat} (hpos : 0 < point)
    (hlt : point < digits.length) (hpoint : (digits.length : Int) + d.exponent = point) :
    ∃ x : Numeral, x.Writes negative d (digits.take point ++ '.' :: digits.drop point) := by
  refine ⟨⟨negative, digits.take point, some (digits.drop point), none, ?_,
    fun c hc => hdigits c (List.mem_of_mem_take hc), ?_, ?_, ?_⟩, rfl, ?_, Or.inl (by simp),
    Or.inl ?_⟩
  · rw [← List.length_pos_iff, List.length_take]
    omega
  · rw [List.head?_take, if_neg hpos.ne']
    exact fun hzero => absurd hzero hhead
  · rw [Ne, Option.some.injEq, List.drop_eq_nil_iff]
    omega
  · rintro _ ⟨⟩ c hc
    exact hdigits c (List.mem_of_mem_drop hc)
  · simp [Numeral.text, Numeral.fractionText]
  · have hexp : (0 : Int) - (digits.drop point).length = d.exponent := by
      rw [List.length_drop]
      omega
    simp only [Numeral.decimal, Option.getD_some, Option.getD_none, List.take_append_drop, hvalue,
      hexp]

variable (hne : digits ≠ [])

include hne

/-- Digits behind the point, with zeros in front of them. -/
theorem exists_numeral_below {zeros : Nat}
    (hzeros : (digits.length : Int) + d.exponent = -zeros) :
    ∃ x : Numeral, x.Writes negative d ('0' :: '.' :: List.replicate zeros '0' ++ digits) := by
  refine ⟨⟨negative, ['0'], some (List.replicate zeros '0' ++ digits), none, by simp, by simp,
    fun _ => Nat.le_refl 1, by simp [hne], ?_⟩, rfl, ?_, Or.inl (by simp), Or.inl ?_⟩
  · rintro _ ⟨⟩ c hc
    exact (List.mem_append.1 hc).elim isDigit_of_mem_zeros (hdigits c)
  · simp [Numeral.text, Numeral.fractionText]
  · have hsame : digitsValue ('0' :: (List.replicate zeros '0' ++ digits)) = d.digits := by
      rw [← List.cons_append, ← List.replicate_succ, digitsValue_zeros_append, hvalue]
    have hexp : (0 : Int) - (List.replicate zeros '0' ++ digits).length = d.exponent := by
      rw [List.length_append, List.length_replicate]
      omega
    simp only [Numeral.decimal, Option.getD_some, Option.getD_none, List.singleton_append, hsame,
      hexp]

/-- Digits in front of the point, with zeros behind them. -/
theorem exists_numeral_whole (hhead : digits.head? ≠ some '0') (hexp : 0 ≤ d.exponent) :
    ∃ x : Numeral, x.Writes negative d
      (digits ++ List.replicate d.exponent.toNat '0' ++ ['.', '0']) := by
  refine ⟨⟨negative, digits ++ List.replicate d.exponent.toNat '0', some ['0'], none, by simp [hne],
    ?_, ?_, by simp, by simp⟩, rfl, ?_, Or.inl (by simp), Or.inr ⟨hexp, ?_⟩⟩
  · intro c hc
    exact (List.mem_append.1 hc).elim (hdigits c) isDigit_of_mem_zeros
  · rw [List.head?_append_of_ne_nil _ hne]
    exact fun hzero => absurd hzero hhead
  · simp [Numeral.text, Numeral.fractionText]
  · have hlast := digitsValue_append_zeros (digits ++ List.replicate d.exponent.toNat '0') 1
    rw [digitsValue_append_zeros digits, hvalue, List.replicate_one] at hlast
    simp only [Numeral.decimal, Option.getD_some, Option.getD_none, hlast]
    rfl

/-- The digits of a double without an exponent. -/
theorem exists_positional (hhead : digits.head? ≠ some '0') :
    ∃ x : Numeral, x.Writes negative d (positional true digits (digits.length + d.exponent)) := by
  have hlen := List.length_pos_iff.2 hne
  unfold positional
  split
  · next hpoint => exact exists_numeral_below negative hdigits hvalue hne (by omega)
  split
  · next hpoint hwhole =>
    have hzeros : (digits.length + d.exponent).toNat - digits.length = d.exponent.toNat := by omega
    rw [hzeros]
    exact exists_numeral_whole negative hdigits hvalue hne hhead (by omega)
  · next hpoint hfraction =>
    exact exists_numeral_between negative hdigits hvalue hhead (by omega) (by omega) (by omega)

/-- The digits of a double with an exponent behind them. -/
theorem exists_scientific : ∃ x : Numeral, x.Writes negative d
    (scientific true digits (digits.length + d.exponent - 1)) := by
  obtain ⟨c, cs, rfl⟩ := List.exists_cons_of_ne_nil hne
  rw [List.forall_mem_cons] at hdigits
  have hc : ∀ b ∈ [c], b.isDigit = true := by simpa using hdigits.1
  unfold scientific
  generalize hexp : ((c :: cs).length : Int) + d.exponent - 1 = e
  rw [List.length_cons] at hexp
  cases cs with
  | nil =>
    refine ⟨⟨negative, [c], none, some e, by simp, hc, fun _ => Nat.le_refl 1, by simp, by simp⟩,
      rfl, ?_, Or.inr (by simp), Or.inl ?_⟩
    · simp [Numeral.text, Numeral.fractionText, exponentText]
    · have hself : e - (0 : Nat) = d.exponent := by
        rw [List.length_nil] at hexp
        omega
      simp only [Numeral.decimal, Option.getD_some, Option.getD_none, List.append_nil,
        List.length_nil, hvalue, hself]
  | cons b bs =>
    refine ⟨⟨negative, [c], some (b :: bs), some e, by simp, hc, fun _ => Nat.le_refl 1, by simp,
      ?_⟩, rfl, ?_, Or.inr (by simp), Or.inl ?_⟩
    · rintro _ ⟨⟩
      exact hdigits.2
    · simp [Numeral.text, Numeral.fractionText, exponentText]
    · have hself : e - ((b :: bs).length : Nat) = d.exponent := by omega
      simp only [Numeral.decimal, Option.getD_some, List.singleton_append, hvalue, hself]

end Written

/-- **The text of a finite double is a number of the grammar.** It is written for the shortest
digits of the double, if that is not zero. -/
theorem exists_numeral (negative : Bool) {steps : Nat} (fits : Fits steps) : ∃ x d,
    Numeral.Writes x negative d
      (if steps = 0 then ['0', '.', '0'] else Layout.json.magnitude steps) ∧
    d.RoundsTo steps ∧ (0 < steps → d = shortest .even steps) := by
  rcases Nat.eq_zero_or_pos steps with rfl | hsteps
  · refine ⟨⟨negative, ['0'], some ['0'], none, by simp, by simp, fun _ => Nat.le_refl 1, by simp,
      by simp⟩, ⟨0, -1⟩, ⟨rfl, rfl, Or.inl (by simp), Or.inl rfl⟩, roundsTo_zero rfl, ?_⟩
    exact fun hpos => absurd hpos (Nat.lt_irrefl 0)
  · have hround := shortest_roundsTo .even hsteps fits.1
    have hhead := natText_head_ne (hround.digits_pos fits hsteps)
    have hdigits : ∀ c ∈ natText (shortest .even steps).digits, c.isDigit = true :=
      fun c hc => isDigit_of_mem_natText hc
    rw [if_neg hsteps.ne']
    suffices hx : ∃ x : Numeral, x.Writes negative (shortest .even steps)
        (Layout.json.magnitude steps) by
      obtain ⟨x, hx⟩ := hx
      exact ⟨x, _, hx, hround, fun _ => rfl⟩
    unfold Layout.magnitude
    dsimp only
    split
    · exact exists_positional negative hdigits (digitsValue_natText _) (natText_ne_nil _) hhead
    · exact exists_scientific negative hdigits (digitsValue_natText _) (natText_ne_nil _)

/-! ## Few digits -/

/-- Digits that follow make a number no smaller. -/
theorem le_foldl_digits (ds : List Char) (n : Nat) :
    n ≤ ds.foldl (fun n c => 10 * n + digitValue c) n := by
  induction ds generalizing n with
  | nil => exact Nat.le_refl n
  | cons c ds ih => exact Nat.le_trans (by omega) (ih (10 * n + digitValue c))

theorem takeFitting_of_lt {ds : List Char} {n : Nat}
    (h : ds.foldl (fun n c => 10 * n + digitValue c) n < Nat.pow 2 64) :
    takeFitting n ds = (ds.foldl (fun n c => 10 * n + digitValue c) n, []) := by
  induction ds generalizing n with
  | nil => rfl
  | cons c ds ih =>
    have hnext := Nat.lt_of_le_of_lt (le_foldl_digits ds (10 * n + digitValue c)) h
    exact (if_pos hnext).trans (ih h)

/-- A number whose digits fit is scaled as they are. -/
theorem Numeral.value?_of_digits (x : Numeral) (hdouble : x.fraction ≠ none ∨ x.exponent ≠ none)
    (hfit : x.decimal.digits < Nat.pow 2 64) :
    x.value? = (scale? x.negative x.decimal.digits x.decimal.exponent).map .float := by
  have hvalue : x.decimal.digits = (x.fraction.getD []).foldl
      (fun n c => 10 * n + digitValue c) (digitsValue x.whole) := List.foldl_append
  have hrest : takeFitting (digitsValue x.whole) (x.fraction.getD []) =
      (x.decimal.digits, []) := by
    rw [hvalue] at hfit ⊢
    exact takeFitting_of_lt hfit
  have hwhole : takeFitting 0 x.whole = (digitsValue x.whole, []) := by
    rw [hvalue] at hfit
    exact takeFitting_of_lt (Nat.lt_of_le_of_lt (le_foldl_digits _ _) hfit)
  have hshift : (0 : Int) - (x.fraction.getD []).length + x.exponent.getD 0 =
      x.decimal.exponent := by
    unfold decimal
    simp only
    omega
  unfold value? ofParts?
  simp only
  split
  · next hnone hnone' _ => exact absurd hdouble (by simp [hnone, hnone'])
  · simp only [hwhole, hrest, List.length_nil, Int.natCast_zero, Nat.sub_zero, hshift]

/-- The powers of ten that are doubles. -/
theorem powerSteps_of_le : ∀ k ≤ 22, powerSteps k = Nat.pow 10 k * Binary64.one := by
  decide +kernel

section Scale

open Binary64 BinaryFormat

variable {d : Decimal} {steps : Nat}

/-- **A power of ten that is a double scales digits that are one without a second rounding.** -/
theorem scale?_of_small (negative : Bool) (h : d.RoundsTo steps) (fits : Fits steps)
    (hdigits : d.digits ≤ 2 ^ 53) (hexp : d.exponent.natAbs ≤ 22) :
    scale? negative d.digits d.exponent = some (.finite negative steps fits) := by
  have hself : double.nearest (d.digits * one) 1 = d.digits * one := by
    have hnearest := nearest_self Nat.one_pos (unit_dvd_whole hdigits)
    rwa [Nat.mul_one] at hnearest
  unfold scale? scaled?
  rw [hself]
  split
  · next hzero =>
    have hnone : d.digits = 0 := (Nat.mul_eq_zero.1 hzero).resolve_right steps_one_pos.ne'
    have hround : double.nearest 0 1 = steps :=
      nearest_zero.trans ((roundsTo_zero hnone).symm.trans h)
    rw [ofSteps_double negative hround fits]
  rw [if_neg (by omega)]
  split
  · next hpos =>
    have hround : double.nearest (d.digits * one * powerSteps d.exponent.toNat) one = steps := by
      have hscale := nearest_scale steps_one_pos
        (d.digits * (Nat.pow 10 d.exponent.toNat * one)) 1
      simp only [Decimal.RoundsTo, gridUnit, if_pos hpos] at h
      rw [h, Nat.mul_one] at hscale
      rw [powerSteps_of_le _ (by omega), ← hscale, Nat.mul_comm d.digits, Nat.mul_assoc]
    rw [ofSteps_double negative hround fits]
  · next hneg =>
    have hround : double.nearest (d.digits * one * one) (powerSteps (-d.exponent).toNat) =
        steps := by
      have hscale := nearest_scale steps_one_pos (d.digits * one) (Nat.pow 10 (-d.exponent).toNat)
      simp only [Decimal.RoundsTo, gridUnit, if_neg hneg] at h
      rw [h] at hscale
      rw [powerSteps_of_le _ (by omega), ← hscale, Nat.mul_comm (d.digits * one) one,
        Nat.mul_comm (Nat.pow 10 _) one]
    rw [if_pos (by omega), dividedBy, ofSteps_double negative hround fits]

end Scale

/-- **A double is read back if its digits are few**: with the zeros behind them, one more than there
are, they make a number up to `2⁵³`, and the power of ten behind them has 22 places at most. -/
theorem Numeral.Writes.value? {x : Numeral} {negative : Bool} {d : Decimal} {cs : List Char}
    {steps : Nat} (h : x.Writes negative d cs) (hd : d.RoundsTo steps) (fits : Fits steps)
    (hdigits : d.digits * 10 ^ (d.exponent.toNat + 1) ≤ 2 ^ 53) (hexp : d.exponent.natAbs ≤ 22) :
    x.value? = some (.float (.finite negative steps fits)) := by
  have hsmall : x.decimal.digits ≤ 2 ^ 53 ∧ x.decimal.exponent.natAbs ≤ 22 := by
    rcases h.decimal with hsame | ⟨-, htenfold⟩
    · rw [hsame]
      exact ⟨(Nat.le_mul_of_pos_right _ (Nat.pow_pos (by decide))).trans hdigits, hexp⟩
    · rw [htenfold]
      have hone : (-1 : Int).natAbs ≤ 22 := by decide
      refine ⟨?_, hone⟩
      calc d.digits * Nat.pow 10 d.exponent.toNat * 10
          = d.digits * 10 ^ (d.exponent.toNat + 1) := by
            rw [Nat.pow_succ, ← Nat.mul_assoc]
            rfl
        _ ≤ 2 ^ 53 := hdigits
  have hfit : x.decimal.digits < Nat.pow 2 64 := Nat.lt_of_le_of_lt hsmall.1 (by decide)
  rw [x.value?_of_digits h.isDouble hfit, h.sign,
    scale?_of_small negative (h.rounds hd) fits hsmall.1 hsmall.2, Option.map_some]

end Json

end Sift
