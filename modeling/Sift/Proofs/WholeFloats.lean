import Sift.Proofs.MixedNumbers
import Sift.Proofs.NumberText
import Sift.Query.Coercion

/-!
# Doubles as integers

A double is compared with integers as the integer that it is. Its range is tested among doubles,
where the greatest integer of 64 bits is rounded up to `2⁶³`.

* `Binary64.toInt?_eq_some_iff`: the integer that a double is.
* `Binary64.IsWhole`, `Binary64.InRange`, `Binary64.truncated`: the test for a fraction, the test of
  the range and the conversion that neither test stands before.
* `Binary64.toInt64?_eq`: **behind both tests the conversion is exact.**
* `Operand.float_as_integer`: a double is read as an integer of 64 bits if and only if it is one.
-/

namespace Sift

open Number

namespace Binary64

variable {f : Binary64} {negative : Bool} {steps : Nat}

/-! ## The integer that a double is -/

theorem value_finite (negative : Bool) (fits : Fits steps) :
    (finite negative steps fits).value = ((withSign negative steps : Int) : ℚ) / one := by
  rw [value, withSign]
  split
  · rw [Int.cast_neg, Int.cast_natCast]
  · rw [Int.cast_natCast]

theorem withSign_mul (negative : Bool) (q m : Nat) :
    withSign negative (q * m) = withSign negative q * m := by
  unfold withSign
  split
  · rw [Int.natCast_mul, Int.neg_mul]
  · rw [Int.natCast_mul]

theorem natAbs_withSign (negative : Bool) (q : Nat) : (withSign negative q).natAbs = q := by
  unfold withSign
  split <;> omega

/-- The value of a double is an integer if its steps are so many ones. -/
theorem value_finite_eq_iff (negative : Bool) (fits : Fits steps) {k : Int} :
    (finite negative steps fits).value = k ↔ withSign negative steps = k * one := by
  rw [value_finite, div_eq_iff one_pos_rat.ne', ← Int.cast_natCast, ← Int.cast_mul, Int.cast_inj]

/-- **The integer that a double is** has its value. -/
theorem toInt?_eq_some_iff {k : Int} : f.toInt? = some k ↔ f.IsFinite ∧ f.value = k := by
  constructor
  · intro h
    cases f with
    | finite negative steps fits =>
      have hwhole : one ∣ steps := by
        by_contra hnot
        rw [toInt?, if_neg hnot] at h
        cases h
      obtain ⟨q, hq⟩ := hwhole
      rw [Nat.mul_comm] at hq
      refine ⟨⟨negative, steps, fits, rfl⟩, ?_⟩
      rw [value_finite_eq_iff]
      have hsame : finite negative steps fits = finite negative (q * one) (hq ▸ fits) := by
        rw [finite.injEq]
        exact ⟨rfl, hq⟩
      rw [hsame, toInt?_whole] at h
      rw [hq, withSign_mul, Option.some.inj h]
    | _ => cases h
  · rintro ⟨⟨negative, steps, fits, rfl⟩, hvalue⟩
    rw [value_finite_eq_iff] at hvalue
    have hsteps : steps = k.natAbs * one := by
      rw [← natAbs_withSign negative steps, hvalue, Int.natAbs_mul, Int.natAbs_natCast]
    have hsame : finite negative steps fits = finite negative (k.natAbs * one) (hsteps ▸ fits) := by
      rw [finite.injEq]
      exact ⟨rfl, hsteps⟩
    rw [hsame, toInt?_whole]
    rw [hsteps, withSign_mul] at hvalue
    have hone : (one : Int) ≠ 0 := Int.natCast_ne_zero.2 steps_one_pos.ne'
    rw [Int.eq_of_mul_eq_mul_right hone hvalue]

/-! ## The tests before the conversion -/

/-- Whether a double has no fraction. -/
def IsWhole : Binary64 → Prop
  | finite _ steps _ => one ∣ steps
  | _ => False

/-- **Whether a double is in the range of integers of 64 bits.** The ends of the range are doubles
themselves: the least integer, which belongs to it, and what the greatest one is rounded to, which
does not. -/
def InRange (f : Binary64) : Prop :=
  (∃ o, f.compare? (ofInt Int64.minValue.toInt) = some o ∧ o ≠ .lt) ∧
    f.compare? (ofInt Int64.maxValue.toInt) = some .lt

/-- **The conversion without a test.** The fraction is dropped, what is out of range becomes the end
of the range that is nearer, and a NaN becomes zero. -/
def truncated : Binary64 → Int64
  | nan => 0
  | infinity negative => if negative then Int64.minValue else Int64.maxValue
  | finite negative steps _ => Int64.ofInt
    (max Int64.minValue.toInt (min (withSign negative (steps / one)) Int64.maxValue.toInt))

theorem rank_minValue : (ofInt Int64.minValue.toInt).rank = some (-2 ^ 63 * (one : Int)) := by
  decide +kernel

/-- The greatest integer has more bits than a double, and is rounded up. -/
theorem rank_maxValue : (ofInt Int64.maxValue.toInt).rank = some (2 ^ 63 * (one : Int)) := by
  decide +kernel

/-- **The range among doubles is that of the integers**, for doubles that are such. -/
theorem inRange_whole_iff {q : Nat} (fits : Fits (q * one)) :
    (finite negative (q * one) fits).InRange ↔
      -2 ^ 63 ≤ withSign negative q ∧ withSign negative q < 2 ^ 63 := by
  have hone : (0 : Int) < one := Int.natCast_pos.2 steps_one_pos
  have hrank : (finite negative (q * one) fits).rank = some (withSign negative q * one) := by
    rw [← withSign_mul]
    rfl
  rw [InRange, Scalar.compare?_of_rank hrank rank_minValue,
    Scalar.compare?_of_rank hrank rank_maxValue]
  simp only [Option.some.injEq, exists_eq_left', compare_lt_iff_lt, ne_eq, not_lt,
    Int.mul_lt_mul_right hone]

theorem toInt64?_eq_some_iff {k : Int} {i : Int64} :
    Number.toInt64? k = some i ↔ k = i.toInt := by
  refine ⟨fun h => (Number.toInt64?_eq_some h).symm, ?_⟩
  rintro rfl
  have hlow := i.minValue_le_toInt
  have hhigh := i.toInt_le
  rw [Number.toInt64?, if_pos ⟨hlow, hhigh⟩, Int64.ofInt_toInt]

/-- In the range nothing is cut off. -/
theorem truncated_whole {q : Nat} (fits : Fits (q * one)) (hlow : -2 ^ 63 ≤ withSign negative q)
    (hhigh : withSign negative q < 2 ^ 63) :
    (finite negative (q * one) fits).truncated = Int64.ofInt (withSign negative q) := by
  have hmin : Int64.minValue.toInt = -2 ^ 63 := rfl
  have hmax : Int64.maxValue.toInt = 2 ^ 63 - 1 := rfl
  rw [truncated, Nat.mul_div_cancel q steps_one_pos, hmin, hmax]
  congr 1
  omega

/-- **Behind both tests the conversion is exact**, and what is converted to an integer without a
loss passes them. -/
theorem toInt64?_eq (f : Binary64) {i : Int64} :
    f.toInt64? = some i ↔ f.IsWhole ∧ f.InRange ∧ i = f.truncated := by
  cases f with
  | finite negative steps fits =>
    by_cases hwhole : one ∣ steps
    · obtain ⟨q, hq⟩ := hwhole
      rw [Nat.mul_comm] at hq
      have hsame : finite negative steps fits = finite negative (q * one) (hq ▸ fits) := by
        rw [finite.injEq]
        exact ⟨rfl, hq⟩
      have hiswhole : (finite negative (q * one) (hq ▸ fits)).IsWhole := dvd_mul_left one q
      rw [hsame, toInt64?, toInt?_whole, Option.bind_some, toInt64?_eq_some_iff, inRange_whole_iff]
      constructor
      · intro h
        have hlow := i.le_toInt
        have hhigh := i.toInt_lt
        rw [truncated_whole _ (by omega) (by omega), h, Int64.ofInt_toInt]
        exact ⟨hiswhole, by omega, rfl⟩
      · rintro ⟨-, ⟨hlow, hhigh⟩, rfl⟩
        rw [truncated_whole _ hlow hhigh, Int64.toInt_ofInt_of_le hlow hhigh]
    · refine iff_of_false ?_ fun h => hwhole h.1
      rw [toInt64?, toInt?, if_neg hwhole]
      intro h
      cases h
  | _ =>
    refine iff_of_false (fun h => ?_) fun h => h.1
    cases h

end Binary64

namespace Operand

open Binary64

/-- **A double is read as an integer if and only if it is one**, and one of 64 bits; and then as the
integer with its value. So the conversion behind the test for a fraction and the test of the range
neither drops a fraction nor stops at an end of the range. -/
theorem float_as_integer (f : Binary64) :
    ((∃ x, (scalar (.float f)).as .integer = .ok x) ↔
      f.IsFinite ∧ ∃ k : Int, f.value = k ∧ -2 ^ 63 ≤ k ∧ k < 2 ^ 63) ∧
    (∀ i : Int64, (scalar (.float f)).as .integer = .ok (.integer i) ↔
      f.IsFinite ∧ f.value = i.toInt) ∧
    ∀ x, (scalar (.float f)).as .integer = .ok x ↔
      f.IsWhole ∧ f.InRange ∧ x = .integer f.truncated := by
  have hread : ∀ x, (scalar (.float f)).as .integer = .ok x ↔
      ∃ i, f.toInt64? = some i ∧ x = .integer i := by
    intro x
    have has : (scalar (.float f)).as? .integer = f.toInt64?.map .integer := rfl
    rw [Operand.as, has]
    cases f.toInt64? with
    | none => simp
    | some i => simp [eq_comm]
  have hexact : ∀ i : Int64, f.toInt64? = some i ↔ f.IsFinite ∧ f.value = i.toInt := by
    intro i
    rw [Binary64.toInt64?, Option.bind_eq_some_iff]
    simp only [toInt64?_eq_some_iff, exists_eq_right, toInt?_eq_some_iff]
  refine ⟨⟨?_, ?_⟩, ?_, ?_⟩
  · rintro ⟨x, hx⟩
    obtain ⟨i, hi, -⟩ := (hread x).1 hx
    obtain ⟨hfinite, hvalue⟩ := (hexact i).1 hi
    exact ⟨hfinite, i.toInt, hvalue, i.le_toInt, i.toInt_lt⟩
  · rintro ⟨hfinite, k, hvalue, hlow, hhigh⟩
    have hk : (Int64.ofInt k).toInt = k := Int64.toInt_ofInt_of_le hlow hhigh
    have hi := (hexact (Int64.ofInt k)).2 ⟨hfinite, by rw [hk, hvalue]⟩
    exact ⟨_, (hread _).2 ⟨_, hi, rfl⟩⟩
  · intro i
    rw [hread, ← hexact]
    simp
  · intro x
    rw [hread]
    simp only [toInt64?_eq, and_assoc, exists_and_left, exists_eq_left]

end Operand

end Sift
