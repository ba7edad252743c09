import Sift.Proofs.LiteralValue
import Sift.Proofs.ShortestDigits

/-!
# Numbers read back

* `Decimal.text`, `readDecimal?_text`: digits with a point are read as the decimal that they are
  written for.
* `ofDecimal_eq`: **a decimal that rounds to a double is read as it.**
* `readFloat?_text`: the text of a double is read as it.
* `readInt?_intText`, `readFloat?_intText`: the text of an integer is read as it, and as the double
  that it rounds to.
* `Binary64.DigitsExact`, `Binary64.readInt64?_text_iff`: **a double is read as the integer that it
  is** if its shortest digits are exact; up to `2⁵³` they are, `Binary64.digitsExact_of_natAbs_le`.
-/

namespace Sift.Number

open Binary64 BinaryFormat

/-! ## Digits -/

theorem natText_eq_padded (n : Nat) : natText n = padded 0 n := by
  rw [padded, Nat.zero_sub, List.replicate_zero, List.nil_append]

theorem isDigit_of_mem_natText {n : Nat} {c : Char} (h : c ∈ natText n) : c.isDigit = true :=
  isDigit_of_mem_padded (natText_eq_padded n ▸ h)

theorem digitsValue_natText (n : Nat) : digitsValue (natText n) = n := by
  rw [natText_eq_padded, digitsValue_padded]

theorem natText_ne_nil (n : Nat) : natText n ≠ [] := natText_eq_padded n ▸ padded_ne_nil 0 n

theorem isDigit_of_mem_zeros {n : Nat} {c : Char} (h : c ∈ List.replicate n '0') :
    c.isDigit = true := by
  rw [List.eq_of_mem_replicate h]
  rfl

/-- Zeros behind the digits of a number multiply it by ten. -/
theorem digitsValue_append_zeros (ds : List Char) (n : Nat) :
    digitsValue (ds ++ List.replicate n '0') = digitsValue ds * Nat.pow 10 n := by
  rw [digitsValue_eq_ofDigitChars, Nat.ofDigitChars_append, Nat.ofDigitChars_replicate_zero,
    Nat.mul_comm]
  rfl

/-- Zeros in front of them do nothing. -/
theorem digitsValue_zeros_append (n : Nat) (ds : List Char) :
    digitsValue (List.replicate n '0' ++ ds) = digitsValue ds := by
  rw [digitsValue_eq_ofDigitChars, Nat.ofDigitChars_append, Nat.ofDigitChars_replicate_zero,
    Nat.mul_zero]
  rfl

/-! ## Decimals -/

variable {ds fs cs : List Char} {c : Char}

theorem readDecimal?_digits (hne : ds ≠ []) (hds : ∀ c ∈ ds, c.isDigit = true) :
    readDecimal? ds = some ⟨digitsValue ds, 0⟩ := by
  have htake : ds.takeWhile Char.isDigit = ds := List.takeWhile_eq_self_iff.2 hds
  have hdrop : ds.dropWhile Char.isDigit = [] := List.dropWhile_eq_nil_iff.2 hds
  unfold readDecimal?
  simp [htake, hdrop, hne]

theorem readDecimal?_point (hne : ds ≠ []) (hds : ∀ c ∈ ds, c.isDigit = true)
    (hfs : ∀ c ∈ fs, c.isDigit = true) :
    readDecimal? (ds ++ '.' :: fs) = some ⟨digitsValue (ds ++ fs), -fs.length⟩ := by
  have htake : (ds ++ '.' :: fs).takeWhile Char.isDigit = ds := by
    rw [List.takeWhile_append_of_pos hds]
    simp
  have hdrop : (ds ++ '.' :: fs).dropWhile Char.isDigit = '.' :: fs := by
    rw [List.dropWhile_append_of_pos hds]
    simp
  have htake' : fs.takeWhile Char.isDigit = fs := List.takeWhile_eq_self_iff.2 hfs
  have hdrop' : fs.dropWhile Char.isDigit = [] := List.dropWhile_eq_nil_iff.2 hfs
  unfold readDecimal?
  simp [htake, hdrop, htake', hdrop', hne]

/-- The digits of a decimal without an exponent, the point among them. -/
def Decimal.text (d : Decimal) : List Char :=
  positional false (natText d.digits) ((natText d.digits).length + d.exponent)

/-- A whole number has its zeros behind it. -/
theorem Decimal.text_of_nonneg {d : Decimal} (h : 0 ≤ d.exponent) :
    d.text = natText d.digits ++ List.replicate d.exponent.toNat '0' := by
  have hlen := List.length_pos_iff.2 (natText_ne_nil d.digits)
  have hzeros : ((natText d.digits).length + d.exponent).toNat - (natText d.digits).length =
      d.exponent.toNat := by omega
  rw [text, positional, if_neg (by omega), if_pos (by omega), hzeros]
  simp

/-- A fraction has a point, and digits around it. -/
theorem Decimal.text_of_neg {d : Decimal} (h : d.exponent < 0) :
    ∃ ds fs, d.text = ds ++ '.' :: fs ∧ ds ≠ [] ∧ (∀ c ∈ ds ++ fs, c.isDigit = true) ∧
      digitsValue (ds ++ fs) = d.digits ∧ -(fs.length : Int) = d.exponent := by
  have hdigits : ∀ c ∈ natText d.digits, c.isDigit = true := fun c hc => isDigit_of_mem_natText hc
  have hvalue := digitsValue_natText d.digits
  unfold text positional
  generalize natText d.digits = digits at hdigits hvalue ⊢
  generalize hpoint : (digits.length : Int) + d.exponent = point
  split
  -- all of them behind the point, with zeros in front
  · refine ⟨['0'], List.replicate (-point).toNat '0' ++ digits, rfl, by simp, ?_, ?_, ?_⟩
    · intro c hc
      rcases List.mem_append.1 hc with hc | hc
      · rw [List.mem_singleton.1 hc]
        rfl
      · exact (List.mem_append.1 hc).elim isDigit_of_mem_zeros (hdigits c)
    · have hzeros := digitsValue_zeros_append ((-point).toNat + 1) digits
      rw [List.replicate_succ, List.cons_append] at hzeros
      rw [List.singleton_append, hzeros, hvalue]
    · rw [List.length_append, List.length_replicate]
      omega
  · rw [if_neg (by omega)]
    refine ⟨digits.take point.toNat, digits.drop point.toNat, rfl, ?_, ?_, ?_, ?_⟩
    · rw [← List.length_pos_iff, List.length_take]
      omega
    · rwa [List.take_append_drop]
    · rw [List.take_append_drop, hvalue]
    · rw [List.length_drop]
      omega

theorem Decimal.mem_text {d : Decimal} {c : Char} (hc : c ∈ d.text) :
    c.isDigit = true ∨ c = '.' := by
  rcases Int.lt_or_le d.exponent 0 with h | h
  · obtain ⟨ds, fs, htext, -, hdigits, -⟩ := text_of_neg h
    rw [htext] at hc
    rcases List.mem_append.1 hc with hc | hc
    · exact Or.inl (hdigits c (List.mem_append_left _ hc))
    · rcases List.mem_cons.1 hc with rfl | hc
      · exact Or.inr rfl
      · exact Or.inl (hdigits c (List.mem_append_right _ hc))
  · rw [text_of_nonneg h] at hc
    exact Or.inl ((List.mem_append.1 hc).elim isDigit_of_mem_natText isDigit_of_mem_zeros)

/-- A decimal as it is read, with no zeros of its own. -/
def Decimal.read (d : Decimal) : Decimal :=
  if 0 ≤ d.exponent then ⟨d.digits * Nat.pow 10 d.exponent.toNat, 0⟩ else d

/-- **Digits with a point are read as the decimal that they are written for.** -/
theorem readDecimal?_text (d : Decimal) : readDecimal? d.text = some d.read := by
  unfold Decimal.read
  split
  · next h =>
    rw [Decimal.text_of_nonneg h, readDecimal?_digits (by simp [natText_ne_nil]),
      digitsValue_append_zeros, digitsValue_natText]
    intro c hc
    exact (List.mem_append.1 hc).elim isDigit_of_mem_natText isDigit_of_mem_zeros
  · next h =>
    obtain ⟨ds, fs, htext, hne, hdigits, hvalue, hlen⟩ := Decimal.text_of_neg (Int.not_le.1 h)
    rw [htext, readDecimal?_point hne (fun c hc => hdigits c (List.mem_append_left _ hc))
      fun c hc => hdigits c (List.mem_append_right _ hc), hvalue, hlen]

theorem Decimal.roundsTo_read {d : Decimal} {steps : Nat} (h : d.RoundsTo steps) :
    d.read.RoundsTo steps := by
  unfold read
  split
  · next hexp =>
    simp only [RoundsTo, gridUnit, if_pos hexp] at h
    simp only [RoundsTo, gridUnit_zero, Nat.mul_assoc]
    exact h
  · exact h

theorem Decimal.exists_head (d : Decimal) : ∃ c cs, d.text = c :: cs ∧ c.isDigit = true := by
  rcases Int.lt_or_le d.exponent 0 with h | h
  · obtain ⟨ds, fs, htext, hne, hdigits, -⟩ := text_of_neg h
    obtain ⟨c, cs, rfl⟩ := List.exists_cons_of_ne_nil hne
    exact ⟨c, _, htext, hdigits c (by simp)⟩
  · obtain ⟨c, cs, hcs⟩ := List.exists_cons_of_ne_nil (natText_ne_nil d.digits)
    refine ⟨c, cs ++ List.replicate d.exponent.toNat '0', ?_,
      isDigit_of_mem_natText (n := d.digits) ?_⟩
    · rw [text_of_nonneg h, hcs, List.cons_append]
    · rw [hcs]
      exact List.mem_cons_self

/-! ## Doubles -/

theorem two_pow_le_ten_pow {m n j : Nat} (hm : m ≤ 13 * j) (hn : 4 * j ≤ n) : 2 ^ m ≤ 10 ^ n :=
  calc 2 ^ m ≤ 2 ^ (13 * j) := Nat.pow_le_pow_right (by decide) hm
    _ = (2 ^ 13) ^ j := Nat.pow_mul 2 13 j
    _ ≤ (10 ^ 4) ^ j := Nat.pow_le_pow_left (by decide) j
    _ = 10 ^ (4 * j) := (Nat.pow_mul 10 4 j).symm
    _ ≤ 10 ^ n := Nat.pow_le_pow_right (by decide) hn

/-- How many digits a number has. -/
theorem natText_bounds {n : Nat} (hn : 0 < n) :
    10 ^ ((natText n).length - 1) ≤ n ∧ n < 10 ^ (natText n).length := by
  have hlen : 0 < (natText n).length := List.length_pos_iff.2 (natText_ne_nil n)
  refine ⟨?_, (Nat.length_toDigits_le_iff (by decide) hlen).1 (le_refl _)⟩
  rcases Nat.eq_zero_or_pos ((natText n).length - 1) with hone | hpos
  · rw [hone]
    exact hn
  · have hmore : ¬(natText n).length ≤ (natText n).length - 1 := by omega
    exact Nat.not_lt.1 fun h => hmore ((Nat.length_toDigits_le_iff (by decide) hpos).2 h)

variable {d : Decimal} {steps : Nat}

/-- What rounds to a double is in its range. -/
theorem Decimal.RoundsTo.bounds (h : d.RoundsTo steps) (hfits : Fits steps) (hsteps : 0 < steps)
    {n : Nat} (hn : n = 2098) :
    d.digits * (gridUnit d.exponent).1 < 2 ^ n * (gridUnit d.exponent).2 ∧
      (gridUnit d.exponent).2 ≤ 2 * (d.digits * (gridUnit d.exponent).1) := by
  have hden := (gridUnit_pos d.exponent).2
  unfold RoundsTo at h
  generalize d.digits * (gridUnit d.exponent).1 = num at h ⊢
  generalize (gridUnit d.exponent).2 = den at h hden ⊢
  constructor
  · by_contra hnot
    have hle := le_nearest hden (unit_dvd_two_pow n) (Nat.not_lt.1 hnot)
    rw [h] at hle
    exact absurd ((fits_iff hn).1 hfits).2 (Nat.not_lt.2 hle)
  -- less than half a step rounds to zero
  · by_contra hnot
    have hfloor : num / den = 0 := Nat.div_eq_of_lt (by omega)
    have hunit : unit (num / den) = 1 := by
      rw [hfloor]
      rfl
    have hzero : double.nearest num den = 0 * 1 :=
      nearest_eq hunit (by omega) (by omega) (by omega) (by omega)
    omega

theorem Decimal.RoundsTo.digits_pos (h : d.RoundsTo steps) (hfits : Fits steps)
    (hsteps : 0 < steps) : 0 < d.digits := by
  obtain ⟨-, habove⟩ := h.bounds hfits hsteps rfl
  by_contra hnot
  rw [Nat.eq_zero_of_not_pos hnot, Nat.zero_mul] at habove
  exact absurd (gridUnit_pos d.exponent).2 (by omega)

/-- A whole number is less than the range. -/
theorem Decimal.RoundsTo.places_of_nonneg (h : d.RoundsTo steps) (hfits : Fits steps)
    (hsteps : 0 < steps) (hexp : 0 ≤ d.exponent) :
    (natText d.digits).length + d.exponent ≤ 350 := by
  obtain ⟨m, hm⟩ : ∃ m, m = 1074 := ⟨_, rfl⟩
  obtain ⟨c, hc⟩ : ∃ c, c = 1024 := ⟨_, rfl⟩
  obtain ⟨t, ht⟩ : ∃ t, t = 332 := ⟨_, rfl⟩
  have hrange : 2 ^ c ≤ 10 ^ t := two_pow_le_ten_pow (j := 83) (by omega) (by omega)
  obtain ⟨hbelow, -⟩ := h.bounds hfits hsteps (n := m + c) (by omega)
  obtain ⟨hlow, -⟩ := natText_bounds (h.digits_pos hfits hsteps)
  generalize (natText d.digits).length = len at hlow ⊢
  simp only [gridUnit, if_pos hexp] at hbelow
  generalize hk : d.exponent.toNat = k at hbelow
  rw [one_eq hm] at hbelow
  change d.digits * (10 ^ k * 2 ^ m) < 2 ^ (m + c) * 1 at hbelow
  have hlt : d.digits * 10 ^ k * 2 ^ m < 2 ^ c * 2 ^ m := by
    rw [Nat.pow_add, Nat.mul_one] at hbelow
    calc d.digits * 10 ^ k * 2 ^ m = d.digits * (10 ^ k * 2 ^ m) := by ring
      _ < 2 ^ m * 2 ^ c := hbelow
      _ = 2 ^ c * 2 ^ m := Nat.mul_comm _ _
  have hplaces : 10 ^ (len - 1 + k) < 10 ^ t :=
    calc 10 ^ (len - 1 + k) = 10 ^ (len - 1) * 10 ^ k := Nat.pow_add 10 (len - 1) k
      _ ≤ d.digits * 10 ^ k := Nat.mul_le_mul_right _ hlow
      _ < 2 ^ c := Nat.lt_of_mul_lt_mul_right hlt
      _ ≤ 10 ^ t := hrange
  rw [Nat.pow_lt_pow_iff_right (by decide)] at hplaces
  omega

/-- A fraction is less than the range too, and at least half a step. -/
theorem Decimal.RoundsTo.places_of_neg (h : d.RoundsTo steps) (hfits : Fits steps)
    (hsteps : 0 < steps) (hexp : ¬0 ≤ d.exponent) :
    -350 ≤ (natText d.digits).length + d.exponent ∧
      (natText d.digits).length + d.exponent ≤ 350 := by
  obtain ⟨m, hm⟩ : ∃ m, m = 1074 := ⟨_, rfl⟩
  obtain ⟨c, hc⟩ : ∃ c, c = 1024 := ⟨_, rfl⟩
  obtain ⟨t, ht⟩ : ∃ t, t = 332 := ⟨_, rfl⟩
  have hrange : 2 ^ c ≤ 10 ^ t := two_pow_le_ten_pow (j := 83) (by omega) (by omega)
  have hstep : 2 ^ (m + 1) ≤ 10 ^ t := two_pow_le_ten_pow (j := 83) (by omega) (by omega)
  obtain ⟨hbelow, habove⟩ := h.bounds hfits hsteps (n := m + c) (by omega)
  obtain ⟨hlow, hhigh⟩ := natText_bounds (h.digits_pos hfits hsteps)
  generalize (natText d.digits).length = len at hlow hhigh ⊢
  simp only [gridUnit, if_neg hexp] at hbelow habove
  generalize hk : (-d.exponent).toNat = k at hbelow habove
  rw [one_eq hm] at hbelow habove
  change d.digits * 2 ^ m < 2 ^ (m + c) * 10 ^ k at hbelow
  change 10 ^ k ≤ 2 * (d.digits * 2 ^ m) at habove
  have hplaces : 10 ^ k < 10 ^ (len + t) :=
    calc 10 ^ k ≤ 2 * (d.digits * 2 ^ m) := habove
      _ = d.digits * 2 ^ (m + 1) := by ring
      _ ≤ d.digits * 10 ^ t := Nat.mul_le_mul_left _ hstep
      _ < 10 ^ len * 10 ^ t := Nat.mul_lt_mul_of_pos_right hhigh (Nat.pow_pos (by decide))
      _ = 10 ^ (len + t) := (Nat.pow_add 10 len t).symm
  have hlt : d.digits * 2 ^ m < 2 ^ c * 10 ^ k * 2 ^ m := by
    rw [Nat.pow_add] at hbelow
    calc d.digits * 2 ^ m < 2 ^ m * 2 ^ c * 10 ^ k := hbelow
      _ = 2 ^ c * 10 ^ k * 2 ^ m := by ring
  have hplaces' : 10 ^ (len - 1) < 10 ^ (t + k) :=
    calc 10 ^ (len - 1) ≤ d.digits := hlow
      _ < 2 ^ c * 10 ^ k := Nat.lt_of_mul_lt_mul_right hlt
      _ ≤ 10 ^ t * 10 ^ k := Nat.mul_le_mul_right _ hrange
      _ = 10 ^ (t + k) := (Nat.pow_add 10 t k).symm
  rw [Nat.pow_lt_pow_iff_right (by decide)] at hplaces hplaces'
  omega

/-- **A decimal that rounds to a double is read as it.** -/
theorem ofDecimal_eq (negative : Bool) (h : d.RoundsTo steps) (hfits : Fits steps)
    (hsteps : 0 < steps) : ofDecimal double negative d = .finite negative steps hfits := by
  have hdigits := h.digits_pos hfits hsteps
  have hlen := List.length_pos_iff.2 (natText_ne_nil d.digits)
  unfold ofDecimal
  simp only
  by_cases hexp : 0 ≤ d.exponent
  · have hhigh := h.places_of_nonneg hfits hsteps hexp
    rw [if_neg (by omega), if_neg (by omega), if_pos hexp]
    simp only [Decimal.RoundsTo, gridUnit, if_pos hexp, ← Nat.mul_assoc] at h
    rw [ofRatio]
    exact ofSteps_double negative h hfits
  · obtain ⟨hlow, hhigh⟩ := h.places_of_neg hfits hsteps hexp
    rw [if_neg (by omega), if_neg (by omega), if_neg hexp]
    simp only [Decimal.RoundsTo, gridUnit, if_neg hexp] at h
    rw [ofRatio]
    exact ofSteps_double negative h hfits

/-! ## Signs -/

/-- What begins with a digit is no name of a number. -/
theorem readMagnitude?_of_isDigit (f : BinaryFormat) (negative : Bool) (hc : c.isDigit = true) :
    readMagnitude? f negative (c :: cs) = (readDecimal? (c :: cs)).map (ofDecimal f negative) := by
  have hname : c ≠ 'n' ∧ c ≠ 'i' := by
    constructor <;> (rintro rfl; revert hc; decide)
  unfold readMagnitude?
  rw [List.map_cons, toLower_of_isDigit hc]
  simp [hname]

/-- A number with its sign. -/
def withSign (negative : Bool) (n : Nat) : Int := if negative then -n else n

/-- The text of a number behind its sign. -/
def signed (negative : Bool) (cs : List Char) : List Char := (if negative then ['-'] else []) ++ cs

theorem readFloat?_signed (f : BinaryFormat) (negative : Bool) (hc : c.isDigit = true) :
    readFloat? f (signed negative (c :: cs)) =
      (readDecimal? (c :: cs)).map (ofDecimal f negative) := by
  cases negative with
  | true => exact readMagnitude?_of_isDigit f true hc
  | false =>
    have hsign := ne_sign_of_isDigit hc
    have hread : readFloat? f (c :: cs) = readMagnitude? f false (c :: cs) := by
      unfold readFloat?
      split
      · next heq => exact absurd (List.cons.inj heq).1 hsign.2.1
      · next heq => exact absurd (List.cons.inj heq).1 hsign.1
      · rfl
    exact hread.trans (readMagnitude?_of_isDigit f false hc)

theorem readInt?_signed (negative : Bool) (hc : c.isDigit = true) :
    readInt? (signed negative (c :: cs)) = (readNat? (c :: cs)).map (withSign negative) := by
  cases negative with
  | true => rfl
  | false =>
    have hsign := ne_sign_of_isDigit hc
    have hread : readInt? (c :: cs) = (readNat? (c :: cs)).map Int.ofNat := by
      unfold readInt?
      split
      · next heq => exact absurd (List.cons.inj heq).1 hsign.2.1
      · next heq => exact absurd (List.cons.inj heq).1 hsign.1
      · rfl
    exact hread

/-! ## Integers -/

theorem readNat?_digits (hne : ds ≠ []) (hds : ∀ c ∈ ds, c.isDigit = true) :
    readNat? ds = some (digitsValue ds) := if_pos ⟨hne, List.all_eq_true.2 hds⟩

theorem readNat?_point (ds fs : List Char) : readNat? (ds ++ '.' :: fs) = none := by
  unfold readNat?
  rw [if_neg]
  simp

theorem intText_eq (i : Int) : intText i = signed (i < 0) (natText i.natAbs) := by
  unfold intText signed
  by_cases h : i < 0 <;> simp [h]

theorem exists_head_natText (n : Nat) : ∃ c cs, natText n = c :: cs ∧ c.isDigit = true := by
  obtain ⟨c, cs, hcs⟩ := List.exists_cons_of_ne_nil (natText_ne_nil n)
  exact ⟨c, cs, hcs, isDigit_of_mem_natText (n := n) (by simp [hcs])⟩

theorem readNat?_natText (n : Nat) : readNat? (natText n) = some n := by
  rw [readNat?_digits (natText_ne_nil n) fun c hc => isDigit_of_mem_natText hc,
    digitsValue_natText]

theorem readDecimal?_natText (n : Nat) : readDecimal? (natText n) = some ⟨n, 0⟩ := by
  rw [readDecimal?_digits (natText_ne_nil n) fun c hc => isDigit_of_mem_natText hc,
    digitsValue_natText]

/-- **The text of an integer is read as it.** -/
theorem readInt?_intText (i : Int) : readInt? (intText i) = some i := by
  obtain ⟨c, cs, hcs, hc⟩ := exists_head_natText i.natAbs
  rw [intText_eq, hcs, readInt?_signed _ hc, ← hcs, readNat?_natText, Option.map_some]
  have hsign : withSign (i < 0) i.natAbs = i := by
    unfold withSign
    by_cases h : i < 0
    · simp only [h, decide_true, if_true]
      omega
    · simp only [h, decide_false, Bool.false_eq_true, if_false]
      omega
  rw [hsign]

/-- **As a double it is read as the one that it rounds to.** -/
theorem readFloat?_intText (i : Int64) :
    readFloat? double (intText i.toInt) = some (ofInt i.toInt) := by
  have hlen : (natText i.toInt.natAbs).length ≤ 19 := by
    have hlow := i.le_toInt
    have hhigh := i.toInt_lt
    exact (Nat.length_toDigits_le_iff (by decide) (by decide)).2 (by omega)
  obtain ⟨c, cs, hcs, hc⟩ := exists_head_natText i.toInt.natAbs
  rw [intText_eq, hcs, readFloat?_signed _ _ hc, ← hcs, readDecimal?_natText, Option.map_some,
    ofInt, ofDecimal]
  simp only
  split
  · next hzero =>
    have habs : i.toInt.natAbs = 0 := by omega
    rw [habs]
  · rw [if_neg (by omega), if_pos (le_refl 0)]
    have hten : i.toInt.natAbs * Nat.pow 10 (0 : Int).toNat = i.toInt.natAbs := Nat.mul_one _
    rw [hten]

/-! ## The text of a double -/

theorem plain_magnitude (steps : Nat) :
    Layout.plain.magnitude steps = (shortest .up steps).text := by
  unfold Layout.magnitude
  exact if_pos rfl

theorem plain_finite (negative : Bool) (fits : Fits steps) :
    Layout.plain.text (.finite negative steps fits) =
      signed negative (if steps = 0 then ['0'] else (shortest .up steps).text) := by
  rw [← plain_magnitude]
  rfl

/-- **The text of a double is read as it.** -/
theorem readFloat?_text (f : Binary64) : readFloat? double (Layout.plain.text f) = some f := by
  cases f with
  | nan => rfl
  | infinity negative => cases negative <;> rfl
  | finite negative steps fits =>
    rw [plain_finite]
    split
    · next hnone =>
      subst hnone
      have hread : readDecimal? ['0'] = some ⟨0, 0⟩ := rfl
      have hround : double.nearest (0 * one) 1 = 0 := by rw [Nat.zero_mul, nearest_zero]
      have hzero : ofDecimal double negative ⟨0, 0⟩ = ofRatio double negative 0 1 := by
        rw [ofDecimal]
        exact if_pos (Or.inl rfl)
      rw [readFloat?_signed _ _ rfl, hread, Option.map_some, hzero, ofRatio,
        ofSteps_double negative hround fits]
    · next hne =>
      have hsteps := Nat.pos_of_ne_zero hne
      have hround := shortest_roundsTo .up hsteps fits.1
      obtain ⟨c, cs, htext, hc⟩ := (shortest .up steps).exists_head
      rw [htext, readFloat?_signed _ _ hc, ← htext, readDecimal?_text, Option.map_some,
        ofDecimal_eq negative (Decimal.roundsTo_read hround) fits hsteps]

/-! ## Doubles as integers -/

theorem readNat?_text (d : Decimal) :
    readNat? d.text = if 0 ≤ d.exponent then some d.read.digits else none := by
  split
  · next h =>
    rw [Decimal.text_of_nonneg h, readNat?_digits (by simp [natText_ne_nil]),
      digitsValue_append_zeros, digitsValue_natText, Decimal.read, if_pos h]
    intro c hc
    exact (List.mem_append.1 hc).elim isDigit_of_mem_natText isDigit_of_mem_zeros
  · next h =>
    obtain ⟨ds, fs, htext, -⟩ := Decimal.text_of_neg (Int.not_le.1 h)
    rw [htext, readNat?_point]

theorem readInt?_finite (negative : Bool) (fits : Fits steps) (hsteps : 0 < steps) :
    readInt? (Layout.plain.text (.finite negative steps fits)) =
      if 0 ≤ (shortest .up steps).exponent then
        some (withSign negative (shortest .up steps).read.digits)
      else none := by
  obtain ⟨c, cs, htext, hc⟩ := (shortest .up steps).exists_head
  rw [plain_finite, if_neg hsteps.ne', htext, readInt?_signed negative hc, ← htext, readNat?_text]
  by_cases hexp : 0 ≤ (shortest .up steps).exponent
  · rw [if_pos hexp, if_pos hexp, Option.map_some]
  · rw [if_neg hexp, if_neg hexp, Option.map_none]

/-- A decimal without a fraction rounds to a whole number. -/
theorem Decimal.RoundsTo.whole (h : d.RoundsTo steps) (hexp : 0 ≤ d.exponent) :
    double.nearest (d.read.digits * one) 1 = steps := by
  have hread := Decimal.roundsTo_read h
  unfold Decimal.read at hread ⊢
  rw [if_pos hexp] at hread ⊢
  unfold RoundsTo at hread
  simp only [gridUnit_zero] at hread
  exact hread

theorem Decimal.isSteps_iff (hexp : 0 ≤ d.exponent) (q : Nat) :
    d.IsSteps (q * one) ↔ d.read.digits = q := by
  unfold IsSteps read
  simp only [gridUnit, if_pos hexp, Nat.mul_one, ← Nat.mul_assoc]
  exact Nat.mul_left_inj steps_one_pos.ne'

theorem shortest_limit : shortest .up (2 ^ 63 * one) = ⟨9223372036854776, 3⟩ := by
  decide +kernel

theorem shortest_precision : shortest .up (2 ^ 53 * one) = ⟨9007199254740992, 0⟩ := by
  decide +kernel

/-- **The digits of a whole number of 64 bits have no fraction.** -/
theorem shortest_exponent_of_le {q : Nat} (hq : 0 < q) (hle : q ≤ 2 ^ 63)
    (hdvd : unit (q * one) ∣ q * one) : 0 ≤ (shortest .up (q * one)).exponent := by
  rcases Nat.eq_or_lt_of_le hle with rfl | hlt
  · rw [shortest_limit]
    decide
  · exact shortest_exponent_nonneg .up hq hlt hdvd

/-- Beyond 64 bits those that have none are beyond them too. -/
theorem limit_lt_digits {q : Nat} (hgt : 2 ^ 63 < q) (h : d.RoundsTo (q * one))
    (hexp : 0 ≤ d.exponent) : 2 ^ 63 < d.read.digits := by
  by_contra hnot
  have hsteps : d.read.digits * one ≤ 2 ^ 63 * one * 1 := by
    rw [Nat.mul_one]
    exact Nat.mul_le_mul_right one (Nat.not_lt.1 hnot)
  have hle := nearest_le Nat.one_pos unit_dvd_limit hsteps
  rw [h.whole hexp] at hle
  exact absurd (Nat.le_of_mul_le_mul_right hle steps_one_pos) (Nat.not_le.2 hgt)

theorem toInt64?_eq_none_iff {i : Int} : toInt64? i = none ↔ i < -2 ^ 63 ∨ 2 ^ 63 ≤ i := by
  unfold toInt64?
  rw [Int64.toInt_minValue, Int64.toInt_maxValue]
  constructor
  · intro h
    split at h
    · cases h
    · omega
  · intro h
    exact if_neg (by omega)

theorem withSign_inj {negative : Bool} {m n : Nat} (h : withSign negative m = withSign negative n) :
    m = n := by
  unfold withSign at h
  split at h <;> omega

end Sift.Number

namespace Sift.Binary64

open Number BinaryFormat

/-- Whether the shortest digits of a double are the number itself. -/
def DigitsExact : Binary64 → Prop
  | finite _ steps _ => steps = 0 ∨ (shortest .up steps).IsSteps steps
  | _ => True

/-- A double as an integer of 64 bits, if it is one. -/
def toInt64? (f : Binary64) : Option Int64 := f.toInt?.bind Number.toInt64?

variable {negative : Bool} {q steps : Nat}

/-- A whole number of steps in ones. -/
theorem exists_whole (negative : Bool) (fits : Fits steps) (hsteps : 0 < steps)
    (hwhole : one ∣ steps) :
    ∃ q fits', 0 < q ∧ finite negative steps fits = finite negative (q * one) fits' := by
  obtain ⟨q, hq⟩ := hwhole
  rw [Nat.mul_comm] at hq
  refine ⟨q, hq ▸ fits, ?_, ?_⟩
  · rw [hq] at hsteps
    exact Nat.pos_of_mul_pos_right hsteps
  · rw [finite.injEq]
    exact ⟨rfl, hq⟩

theorem toInt?_whole (fits : Fits (q * one)) :
    toInt? (.finite negative (q * one) fits) = some (withSign negative q) := by
  have hone : (one : Int) ≠ 0 := Int.natCast_ne_zero.2 steps_one_pos.ne'
  unfold toInt? withSign
  simp only
  rw [if_pos (dvd_mul_left one q), Int.natCast_mul, Int.mul_ediv_cancel _ hone]

/-- A whole number beyond 64 bits is not read as an integer of 64 bits. -/
theorem readInt64?_whole_eq_none (hq : 0 < q) (fits : Fits (q * one))
    (h : Number.toInt64? (withSign negative q) = none) :
    readInt64? (Layout.plain.text (.finite negative (q * one) fits)) = none := by
  have hsteps := Nat.mul_pos hq steps_one_pos
  rw [readInt64?, readInt?_finite _ _ hsteps]
  split
  · next hexp =>
    rw [Option.bind_some, toInt64?_eq_none_iff]
    rw [toInt64?_eq_none_iff] at h
    rcases Nat.lt_or_ge (2 ^ 63) q with hgt | hle
    · have hdigits := limit_lt_digits hgt (shortest_roundsTo .up hsteps fits.1) hexp
      unfold withSign at h ⊢
      split <;> omega
    · -- only the limit itself, ahead of all of them
      have hlimit : negative = false ∧ q = 2 ^ 63 := by
        unfold withSign at h
        cases negative with
        | true =>
          rw [if_pos rfl] at h
          omega
        | false =>
          rw [if_neg (by decide)] at h
          exact ⟨rfl, by omega⟩
      obtain ⟨rfl, rfl⟩ := hlimit
      rw [shortest_limit]
      right
      decide
  · rfl

/-- A whole number is read as an integer of 64 bits, as itself if its digits are exact. -/
theorem readInt64?_whole_iff (hq : 0 < q) (fits : Fits (q * one)) :
    readInt64? (Layout.plain.text (.finite negative (q * one) fits)) =
        toInt64? (.finite negative (q * one) fits) ↔
      ((toInt64? (.finite negative (q * one) fits)).isSome →
        DigitsExact (.finite negative (q * one) fits)) := by
  have hsteps := Nat.mul_pos hq steps_one_pos
  rw [toInt64?, toInt?_whole, Option.bind_some]
  cases hself : Number.toInt64? (withSign negative q) with
  | none => exact iff_of_true (readInt64?_whole_eq_none hq fits hself) (by simp)
  | some n =>
    have hle : q ≤ 2 ^ 63 := by
      have hrange : ¬(withSign negative q < -2 ^ 63 ∨ 2 ^ 63 ≤ withSign negative q) := by
        rw [← toInt64?_eq_none_iff, hself]
        simp
      unfold withSign at hrange
      split at hrange <;> omega
    have hexp := shortest_exponent_of_le hq hle fits.1
    rw [readInt64?, readInt?_finite _ _ hsteps, if_pos hexp, Option.bind_some, DigitsExact,
      Decimal.isSteps_iff hexp]
    simp only [Option.isSome_some, forall_const, hsteps.ne', false_or]
    constructor
    · intro h
      have hread := Number.toInt64?_eq_some h
      rw [Number.toInt64?_eq_some hself] at hread
      exact withSign_inj hread.symm
    · intro h
      rw [h, hself]

/-- **A double and its text are the same integer of 64 bits** unless the double is one and its
shortest digits are not exact. -/
theorem readInt64?_text_iff (f : Binary64) :
    readInt64? (Layout.plain.text f) = f.toInt64? ↔ (f.toInt64?.isSome → f.DigitsExact) := by
  cases f with
  | nan => exact iff_of_true rfl fun _ => trivial
  | infinity negative => exact iff_of_true (by cases negative <;> rfl) fun _ => trivial
  | finite negative steps fits =>
    rcases Nat.eq_zero_or_pos steps with rfl | hsteps
    · refine iff_of_true ?_ fun _ => Or.inl rfl
      have hzero : toInt? (.finite negative 0 fits) = some 0 := by
        rw [toInt?, if_pos (Nat.dvd_zero _), Int.natCast_zero, Int.zero_ediv, Int.neg_zero,
          ite_self]
      rw [toInt64?, hzero, plain_finite, if_pos rfl]
      cases negative <;> rfl
    · by_cases hwhole : one ∣ steps
      · obtain ⟨q, fits', hq, hsame⟩ := exists_whole negative fits hsteps hwhole
        rw [hsame]
        exact readInt64?_whole_iff hq fits'
      · -- the digits of a fraction have a point
        have hround := shortest_roundsTo .up hsteps fits.1
        have hexp : ¬0 ≤ (shortest .up steps).exponent := by
          intro hexp
          have hdvd := one_dvd_nearest (shortest .up steps).read.digits
          rw [hround.whole hexp] at hdvd
          exact hwhole hdvd
        have hnone : toInt64? (.finite negative steps fits) = none := by
          rw [toInt64?, toInt?, if_neg hwhole]
          rfl
        rw [hnone, readInt64?, readInt?_finite _ _ hsteps, if_neg hexp]
        exact iff_of_true rfl (by simp)

/-- **The digits of whole numbers up to `2⁵³` are exact.** -/
theorem digitsExact_of_natAbs_le {f : Binary64} {i : Int} (h : f.toInt? = some i)
    (hle : i.natAbs ≤ 2 ^ 53) : f.DigitsExact := by
  cases f with
  | finite negative steps fits =>
    rcases Nat.eq_zero_or_pos steps with rfl | hsteps
    · exact Or.inl rfl
    · have hwhole : one ∣ steps := by
        by_contra hnot
        rw [toInt?, if_neg hnot] at h
        cases h
      obtain ⟨q, fits', hq, hsame⟩ := exists_whole negative fits hsteps hwhole
      rw [hsame, toInt?_whole] at h
      rw [hsame, DigitsExact]
      have hbound : q ≤ 2 ^ 53 := by
        cases h
        unfold withSign at hle
        split at hle <;> omega
      have hround := shortest_roundsTo .up (Nat.mul_pos hq steps_one_pos) fits'.1
      have hexp := shortest_exponent_of_le hq (hbound.trans (by decide)) fits'.1
      rw [Decimal.isSteps_iff hexp]
      rcases eq_or_limit_of_nearest hbound (hround.whole hexp) with heq | hlimit
      · exact Or.inr heq
      · rw [hlimit, shortest_precision]
        exact Or.inr rfl
  | _ => trivial

end Sift.Binary64
