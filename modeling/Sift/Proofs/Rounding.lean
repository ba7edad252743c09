import Mathlib.Data.Nat.Log
import Mathlib.Tactic.Ring
import Mathlib.Tactic.Linarith
import Sift.Number.Binary64

/-!
# Rounding to doubles

* `Number.roundHalfEven_eq`: a fraction rounds to the whole number within half of it.
* `Binary64.unit`: the distance of doubles from one another around a number of steps.
* `Binary64.nearest_le`, `Binary64.le_nearest`: **rounding does not pass a double.**
* `Binary64.nearest_self`: a double rounds to itself.
* `Binary64.nearest_mono`: rounding keeps the order.
* `Binary64.unit_dvd_nearest`, `Binary64.ofSteps_double`: what a fraction rounds to is a double.
-/

namespace Sift

namespace Number

variable {num den k : Nat}

/-- Rounding does not pass a whole number above. -/
theorem roundHalfEven_le (hden : 0 < den) (h : num ≤ k * den) : roundHalfEven num den ≤ k := by
  have hmod := Nat.div_add_mod' num den
  rcases Nat.lt_or_ge (num / den) k with hlt | hge
  · unfold roundHalfEven
    simp only
    split
    · omega
    · split
      · omega
      · split <;> omega
  · have hmul : k * den ≤ num / den * den := Nat.mul_le_mul_right den hge
    have hnone : num % den = 0 := by omega
    have hself : num / den = k := Nat.le_antisymm (Nat.div_le_of_le_mul (by linarith)) hge
    unfold roundHalfEven
    simp only [hnone, Nat.mul_zero, if_pos hden, hself, le_refl]

/-- Rounding does not pass a whole number below. -/
theorem le_roundHalfEven (hden : 0 < den) (h : k * den ≤ num) : k ≤ roundHalfEven num den := by
  have hfloor : k ≤ num / den := (Nat.le_div_iff_mul_le hden).2 h
  unfold roundHalfEven
  simp only
  split
  · exact hfloor
  · split
    · omega
    · split <;> omega

/-- **A fraction rounds to the whole number within half of it**, at half the way to an even one. -/
theorem roundHalfEven_eq (hden : 0 < den) (hlow : 2 * k * den ≤ 2 * num + den)
    (hhigh : 2 * num ≤ (2 * k + 1) * den)
    (hodd : k % 2 = 1 → 2 * k * den < 2 * num + den ∧ 2 * num < (2 * k + 1) * den) :
    roundHalfEven num den = k := by
  have hnum := Nat.div_add_mod' num den
  have hmod := Nat.mod_lt num hden
  unfold roundHalfEven
  generalize num / den = q at hnum ⊢
  generalize num % den = r at hnum hmod ⊢
  subst hnum
  have hbelow : q ≤ k := by
    have hlt : q * den < (k + 1) * den := by linarith
    exact Nat.lt_succ_iff.1 (Nat.lt_of_mul_lt_mul_right hlt)
  have habove : k ≤ q + 1 := by
    have hlt : k * den < (q + 2) * den := by linarith
    exact Nat.lt_succ_iff.1 (Nat.lt_of_mul_lt_mul_right hlt)
  -- so it is the whole number below the fraction, or the one above
  obtain rfl | rfl : k = q ∨ k = q + 1 := by omega
  · have hhalf : 2 * r ≤ den := by linarith
    have hties : k % 2 = 1 → 2 * r < den := fun h => by linarith [(hodd h).2]
    simp only
    split
    · rfl
    · rw [if_neg (by omega), if_pos (by omega)]
  · have hhalf : den ≤ 2 * r := by linarith
    have hties : (q + 1) % 2 = 1 → den < 2 * r := fun h => by linarith [(hodd h).1]
    simp only
    rw [if_neg (by omega)]
    split
    · rfl
    · rw [if_neg (by omega)]

theorem roundHalfEven_mono {num' : Nat} (hden : 0 < den) (h : num ≤ num') :
    roundHalfEven num den ≤ roundHalfEven num' den := by
  rcases Nat.eq_or_lt_of_le (Nat.div_le_div_right (c := den) h) with heq | hlt
  · have hnum := Nat.div_add_mod' num den
    have hnum' := Nat.div_add_mod' num' den
    rw [heq] at hnum
    have hmod : num % den ≤ num' % den := by omega
    unfold roundHalfEven
    simp only [heq]
    repeat' split
    all_goals omega
  · -- both round to a whole number next to them
    have hle : roundHalfEven num den ≤ num / den + 1 := by
      refine roundHalfEven_le hden ?_
      rw [Nat.mul_comm]
      exact Nat.le_of_lt (Nat.lt_mul_div_succ num hden)
    exact (hle.trans hlt).trans (le_roundHalfEven hden (Nat.div_mul_le_self num' den))

end Number

namespace Binary64

open Number BinaryFormat

variable {num den m x : Nat}

/-- The distance of doubles from one another around a number of steps. -/
def unit (x : Nat) : Nat := 2 ^ (x.log2 - 52)

theorem unit_pos (x : Nat) : 0 < unit x := Nat.two_pow_pos _

/-- One in steps. The exponent is a variable here, and so is that of the range below: nothing
shall take the powers themselves. -/
theorem one_eq {n : Nat} (h : n = 1074) : one = 2 ^ n := by
  unfold one
  rw [← h]
  rfl

theorem steps_one_pos : 0 < one := by
  obtain ⟨n, hn⟩ : ∃ n, n = 1074 := ⟨_, rfl⟩
  rw [one_eq hn]
  exact Nat.two_pow_pos n

theorem log2_mul_one {q : Nat} (hq : 0 < q) : (q * one).log2 = q.log2 + 1074 := by
  obtain ⟨n, hn⟩ : ∃ n, n = 1074 := ⟨_, rfl⟩
  rw [one_eq hn, ← hn, Nat.log2_eq_iff (Nat.mul_pos hq (Nat.two_pow_pos n)).ne', Nat.pow_add,
    Nat.add_right_comm, Nat.pow_add 2 (q.log2 + 1)]
  exact ⟨Nat.mul_le_mul_right _ (Nat.log2_self_le hq.ne'),
    Nat.mul_lt_mul_of_pos_right Nat.lt_log2_self (Nat.two_pow_pos n)⟩

theorem fits_iff {n : Nat} (h : n = 2098) : Fits x ↔ unit x ∣ x ∧ x < 2 ^ n := by
  unfold Fits
  rw [← h]
  rfl

theorem nearest_double (num den : Nat) :
    double.nearest num den = roundHalfEven num (den * unit (num / den)) * unit (num / den) := by
  have hunit : max 0 ((num / den).log2 + 1 - 53) = (num / den).log2 - 52 := by omega
  simp only [nearest, double, hunit, unit]
  rfl

theorem log2_mono (h : m ≤ x) : m.log2 ≤ x.log2 := by
  rw [Nat.log2_eq_log_two, Nat.log2_eq_log_two]
  exact Nat.log_mono_right h

/-- Below a number of steps doubles are not farther from one another. -/
theorem unit_dvd_unit (h : m ≤ x) : unit m ∣ unit x :=
  Nat.pow_dvd_pow 2 (Nat.sub_le_sub_right (log2_mono h) 52)

theorem unit_dvd_two_pow (n : Nat) : unit (2 ^ n) ∣ 2 ^ n := by
  rw [unit, Nat.log2_two_pow]
  exact Nat.pow_dvd_pow 2 (Nat.sub_le _ _)

/-- **Rounding does not pass a double above.** -/
theorem nearest_le (hden : 0 < den) (hm : unit m ∣ m) (h : num ≤ m * den) :
    double.nearest num den ≤ m := by
  have hfloor : num / den ≤ m := Nat.div_le_of_le_mul (by linarith)
  obtain ⟨k, hk⟩ := (unit_dvd_unit hfloor).trans hm
  rw [nearest_double]
  have hround : roundHalfEven num (den * unit (num / den)) ≤ k := by
    refine roundHalfEven_le (Nat.mul_pos hden (unit_pos _)) ?_
    calc num ≤ m * den := h
      _ = unit (num / den) * k * den := by rw [← hk]
      _ = k * (den * unit (num / den)) := by ring
  calc roundHalfEven num (den * unit (num / den)) * unit (num / den)
      ≤ k * unit (num / den) := Nat.mul_le_mul_right _ hround
    _ = m := by rw [Nat.mul_comm, ← hk]

theorem le_nearest_of_dvd (hden : 0 < den) (hm : unit (num / den) ∣ m) (h : m * den ≤ num) :
    m ≤ double.nearest num den := by
  obtain ⟨k, hk⟩ := hm
  rw [nearest_double]
  have hround : k ≤ roundHalfEven num (den * unit (num / den)) := by
    refine le_roundHalfEven (Nat.mul_pos hden (unit_pos _)) ?_
    calc k * (den * unit (num / den)) = unit (num / den) * k * den := by ring
      _ = m * den := by rw [← hk]
      _ ≤ num := h
  calc m = k * unit (num / den) := by rw [Nat.mul_comm, ← hk]
    _ ≤ roundHalfEven num (den * unit (num / den)) * unit (num / den) :=
      Nat.mul_le_mul_right _ hround

/-- **Rounding does not pass a double below.** -/
theorem le_nearest (hden : 0 < den) (hm : unit m ∣ m) (h : m * den ≤ num) :
    m ≤ double.nearest num den := by
  have hfloor : m ≤ num / den := (Nat.le_div_iff_mul_le hden).2 h
  rcases Nat.eq_or_lt_of_le (log2_mono hfloor) with heq | hlt
  · refine le_nearest_of_dvd hden ?_ h
    rwa [unit, ← heq]
  · -- a power of two lies between them
    have hne : num / den ≠ 0 := by
      intro hzero
      rw [hzero] at hlt
      exact absurd hlt (Nat.not_lt_zero _)
    have hpower : 2 ^ (num / den).log2 * den ≤ num :=
      (Nat.le_div_iff_mul_le hden).1 (Nat.log2_self_le hne)
    have hdvd : unit (num / den) ∣ 2 ^ (num / den).log2 :=
      Nat.pow_dvd_pow 2 (Nat.sub_le _ _)
    calc m ≤ 2 ^ (m.log2 + 1) := Nat.le_of_lt Nat.lt_log2_self
      _ ≤ 2 ^ (num / den).log2 := Nat.pow_le_pow_right (by decide) hlt
      _ ≤ double.nearest num den := le_nearest_of_dvd hden hdvd hpower

/-- **A double rounds to itself.** -/
theorem nearest_self (hden : 0 < den) (hm : unit m ∣ m) : double.nearest (m * den) den = m :=
  Nat.le_antisymm (nearest_le hden hm (Nat.le_refl _)) (le_nearest hden hm (Nat.le_refl _))

theorem nearest_zero : double.nearest 0 1 = 0 := nearest_self (m := 0) Nat.one_pos (dvd_zero _)

/-- **Rounding keeps the order.** -/
theorem nearest_mono {num' : Nat} (hden : 0 < den) (h : num ≤ num') :
    double.nearest num den ≤ double.nearest num' den := by
  have hfloor : num / den ≤ num' / den := Nat.div_le_div_right h
  rcases Nat.eq_or_lt_of_le (log2_mono hfloor) with heq | hlt
  · rw [nearest_double, nearest_double, unit, unit, heq]
    exact Nat.mul_le_mul_right _ (roundHalfEven_mono (Nat.mul_pos hden (Nat.two_pow_pos _)) h)
  · -- a power of two lies between them
    have hpower := unit_dvd_two_pow (num' / den).log2
    have hne : num' / den ≠ 0 := by
      intro hzero
      rw [hzero] at hlt
      exact absurd hlt (Nat.not_lt_zero _)
    have habove : num ≤ 2 ^ (num' / den).log2 * den := by
      have hlt' : num / den < 2 ^ (num' / den).log2 :=
        Nat.lt_of_lt_of_le Nat.lt_log2_self (Nat.pow_le_pow_right (by decide) hlt)
      exact Nat.le_of_lt ((Nat.div_lt_iff_lt_mul hden).1 hlt')
    have hbelow : 2 ^ (num' / den).log2 * den ≤ num' :=
      (Nat.le_div_iff_mul_le hden).1 (Nat.log2_self_le hne)
    exact (nearest_le hden hpower habove).trans (le_nearest hden hpower hbelow)

theorem lt_mul_unit (x : Nat) : x < 2 ^ 53 * unit x := by
  have hlt : x < 2 ^ (x.log2 + 1) := Nat.lt_log2_self
  have hle : 2 ^ (x.log2 + 1) ≤ 2 ^ (53 + (x.log2 - 52)) :=
    Nat.pow_le_pow_right (by decide) (by omega)
  exact Nat.lt_of_lt_of_le hlt (hle.trans_eq (Nat.pow_add 2 53 _))

/-- As many units as the significant bits can count are a double. -/
theorem unit_dvd_of_le {k d : Nat} (hk : k ≤ 2 ^ 53) : unit (k * 2 ^ d) ∣ k * 2 ^ d := by
  rcases Nat.eq_or_lt_of_le hk with rfl | hlt
  -- one unit more than they can count is a power of two
  · have hpower : 2 ^ 53 * 2 ^ d = 2 ^ (53 + d) := (Nat.pow_add 2 53 d).symm
    rw [hpower]
    exact unit_dvd_two_pow _
  · rcases Nat.eq_zero_or_pos k with rfl | hpos
    · simp
    · have hne : k * 2 ^ d ≠ 0 := Nat.mul_ne_zero hpos.ne' (Nat.two_pow_pos d).ne'
      have hlog : (k * 2 ^ d).log2 < 53 + d := by
        rw [Nat.log2_lt hne, Nat.pow_add]
        exact Nat.mul_lt_mul_of_pos_right hlt (Nat.two_pow_pos d)
      exact Dvd.dvd.mul_left (Nat.pow_dvd_pow 2 (by omega)) k

/-- As many units above one as the significant bits can count are a double. -/
theorem unit_dvd_mul_one {k d : Nat} (hk : k ≤ 2 ^ 53) :
    unit (k * 2 ^ d * one) ∣ k * 2 ^ d * one := by
  obtain ⟨one', hone⟩ : ∃ n, n = 1074 := ⟨_, rfl⟩
  rw [one_eq hone, Nat.mul_assoc, ← Nat.pow_add]
  exact unit_dvd_of_le hk

/-- The whole numbers up to `2⁵³` are doubles. -/
theorem unit_dvd_whole {k : Nat} (hk : k ≤ 2 ^ 53) : unit (k * one) ∣ k * one := by
  have hdvd := unit_dvd_mul_one (d := 0) hk
  rwa [Nat.pow_zero, Nat.mul_one] at hdvd

/-- So is `2⁶³`. -/
theorem unit_dvd_limit : unit (2 ^ 63 * one) ∣ 2 ^ 63 * one := by
  have hdvd := unit_dvd_mul_one (k := 1) (d := 63) (by decide)
  rwa [Nat.one_mul] at hdvd

/-- No other whole number rounds to one below `2⁵³`. -/
theorem eq_or_limit_of_nearest {n q : Nat} (hq : q ≤ 2 ^ 53)
    (h : double.nearest (n * one) 1 = q * one) : n = q ∨ q = 2 ^ 53 := by
  rcases Nat.lt_or_ge (2 ^ 53) n with hlt | hle
  · have hge : 2 ^ 53 * one * 1 ≤ n * one := by
      rw [Nat.mul_one]
      exact Nat.mul_le_mul_right one hlt.le
    have hlimit := le_nearest Nat.one_pos (unit_dvd_whole (le_refl _)) hge
    rw [h] at hlimit
    exact Or.inr (Nat.le_antisymm hq (Nat.le_of_mul_le_mul_right hlimit steps_one_pos))
  · have hself := nearest_self Nat.one_pos (unit_dvd_whole hle)
    rw [Nat.mul_one, h] at hself
    exact Or.inl (Nat.eq_of_mul_eq_mul_right steps_one_pos hself).symm

/-- **What a fraction rounds to is a double.** -/
theorem unit_dvd_nearest (num : Nat) (hden : 0 < den) :
    unit (double.nearest num den) ∣ double.nearest num den := by
  rw [nearest_double]
  refine unit_dvd_of_le (roundHalfEven_le (Nat.mul_pos hden (unit_pos _)) ?_)
  have hfloor : num < (num / den + 1) * den := by
    rw [Nat.mul_comm]
    exact Nat.lt_mul_div_succ num hden
  have hunit : (num / den + 1) * den ≤ 2 ^ 53 * unit (num / den) * den :=
    Nat.mul_le_mul_right den (lt_mul_unit (num / den))
  calc num ≤ 2 ^ 53 * unit (num / den) * den := Nat.le_of_lt (Nat.lt_of_lt_of_le hfloor hunit)
    _ = 2 ^ 53 * (den * unit (num / den)) := by ring

/-- A whole number rounds to a whole number. -/
theorem one_dvd_nearest (q : Nat) : one ∣ double.nearest (q * one) 1 := by
  rcases Nat.le_total q (2 ^ 53) with hle | hge
  · have hself := nearest_self Nat.one_pos (unit_dvd_whole hle)
    rw [Nat.mul_one] at hself
    rw [hself]
    exact dvd_mul_left _ _
  -- with more bits than a double has they are more than one apart
  · obtain ⟨n, hn⟩ : ∃ n, n = 1074 := ⟨_, rfl⟩
    have hpos : 0 < q := Nat.lt_of_lt_of_le (Nat.two_pow_pos 53) hge
    have hbits : 53 ≤ q.log2 := (Nat.le_log2 hpos.ne').2 hge
    rw [nearest_double, Nat.div_one, unit, log2_mul_one hpos, ← hn]
    have hone : one ∣ 2 ^ (q.log2 + n - 52) := by
      rw [one_eq hn]
      exact Nat.pow_dvd_pow 2 (by omega)
    exact Dvd.dvd.mul_left hone _

/-- Inside the range it is finite. -/
theorem ofSteps_double {steps : Nat} (negative : Bool) (hsteps : double.nearest num den = steps)
    (h : Fits steps) : ofSteps double negative num den = .finite negative steps h := by
  have hrange : ∀ n, n = 2098 → steps < Nat.pow 2 n := by
    rintro n rfl
    exact h.2
  subst hsteps
  exact (dif_pos h).trans (if_pos (hrange double.ceiling rfl))

end Binary64

end Sift
