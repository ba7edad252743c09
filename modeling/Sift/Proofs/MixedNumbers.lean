import Mathlib.Algebra.Order.Field.Rat
import Mathlib.Order.Compare
import Sift.Proofs.Rounding
import Sift.Query.Comparison
import Sift.Query.Member

/-!
# Integers among doubles

An integer of 64 bits is rounded to a double before it is compared with one.

* `Scalar.number`: the number that an integer or a finite double is; `Scalar.rounded`: the double
  that it is compared as.
* `Scalar.compare?_eq`: what is compared.
* `Scalar.rounded_mono`: rounding keeps the order.
* `Scalar.compare?_numbers`: **numbers compare by their values unless different ones round to the
  same double**, and are in order unless such a double stands between two integers.
* `Scalar.exists_equal_numbers`: some do.
-/

namespace Sift

namespace Binary64

open BinaryFormat

/-- Whether a double is a number. -/
def IsFinite (b : Binary64) : Prop := ∃ negative steps fits, b = finite negative steps fits

/-- The number that a finite double is. -/
def value : Binary64 → ℚ
  | finite negative steps _ => (if negative then -(steps : ℚ) else steps) / one
  | _ => 0

/-! ## Rounding numbers of steps -/

/-- A number of steps, rounded to a double. -/
def rounding (s : Int) : Int :=
  if s < 0 then -(double.nearest s.natAbs 1 : Int) else double.nearest s.natAbs 1

theorem rounding_mono {s t : Int} (h : s ≤ t) : rounding s ≤ rounding t := by
  unfold rounding
  split
  · split
    · have habs : t.natAbs ≤ s.natAbs := by omega
      have hle := nearest_mono Nat.one_pos habs
      omega
    · omega
  · rw [if_neg (by omega)]
    have habs : s.natAbs ≤ t.natAbs := by omega
    have hle := nearest_mono Nat.one_pos habs
    omega

/-- A double is not changed. -/
theorem rounding_of_dvd {s : Int} (h : unit s.natAbs ∣ s.natAbs) : rounding s = s := by
  have hself := nearest_self Nat.one_pos h
  rw [Nat.mul_one] at hself
  unfold rounding
  rw [hself]
  split <;> omega

/-- Doubles up to `2⁶³` are inside the range. -/
theorem fits_of_le {steps : Nat} (hdvd : unit steps ∣ steps) (h : steps ≤ 2 ^ 63 * one) :
    Fits steps := by
  obtain ⟨one', hone⟩ : ∃ n, n = 1074 := ⟨_, rfl⟩
  obtain ⟨ceiling, hceiling⟩ : ∃ n, n = 2098 := ⟨_, rfl⟩
  rw [one_eq hone, ← Nat.pow_add] at h
  rw [fits_iff hceiling]
  exact ⟨hdvd, Nat.lt_of_le_of_lt h (Nat.pow_lt_pow_right (by decide) (by omega))⟩

/-- **An integer of 64 bits becomes the double that it rounds to.** -/
theorem ofInt_eq (i : Int64) : ∃ fits,
    ofInt i.toInt = .finite (i.toInt < 0) (double.nearest (i.toInt.natAbs * one) 1) fits := by
  have hbound : i.toInt.natAbs ≤ 2 ^ 63 := by
    have hlow := i.le_toInt
    have hhigh := i.toInt_lt
    omega
  have hle : double.nearest (i.toInt.natAbs * one) 1 ≤ 2 ^ 63 * one := by
    refine nearest_le Nat.one_pos unit_dvd_limit ?_
    rw [Nat.mul_one]
    exact Nat.mul_le_mul_right one hbound
  have hfits := fits_of_le (unit_dvd_nearest _ Nat.one_pos) hle
  exact ⟨hfits, ofSteps_double _ rfl hfits⟩

theorem isFinite_ofInt (i : Int64) : (ofInt i.toInt).IsFinite := by
  obtain ⟨fits, heq⟩ := ofInt_eq i
  exact ⟨_, _, fits, heq⟩

theorem rank_ofInt (i : Int64) : (ofInt i.toInt).rank = some (rounding (i.toInt * one)) := by
  obtain ⟨fits, heq⟩ := ofInt_eq i
  have habs : (i.toInt * one).natAbs = i.toInt.natAbs * one := by
    rw [Int.natAbs_mul, Int.natAbs_natCast]
  have hsign : i.toInt * one < 0 ↔ i.toInt < 0 := by
    have hone : (0 : Int) < one := Int.natCast_pos.2 steps_one_pos
    constructor
    · intro h
      by_contra hnot
      have hnonneg := Int.mul_nonneg (Int.not_lt.1 hnot) hone.le
      omega
    · exact fun h => Int.mul_neg_of_neg_of_pos h hone
  rw [heq, rank, rounding, habs]
  simp only [hsign, decide_eq_true_eq]

theorem one_pos_rat : (0 : ℚ) < (one : ℕ) := by
  have hpos := steps_one_pos
  generalize one = n at hpos ⊢
  exact Nat.cast_pos.2 hpos

theorem value_eq {b : Binary64} (hb : b.IsFinite) {s : Int} (h : b.rank = some s) :
    b.value = (s : ℚ) / one := by
  obtain ⟨negative, steps, fits, rfl⟩ := hb
  cases h
  rw [value]
  split
  · rw [Int.cast_neg, Int.cast_natCast]
  · rw [Int.cast_natCast]

end Binary64

/-! ## Numbers -/

namespace Scalar

open Binary64

/-- Whether a scalar is an integer or a finite double. -/
def IsNumber : Scalar → Prop
  | integer _ => True
  | float f => f.IsFinite
  | _ => False

/-- The number that a scalar is. -/
def number : Scalar → ℚ
  | integer i => i.toInt
  | float f => f.value
  | _ => 0

/-- The number that it is compared as with one of the other kind. -/
def rounded : Scalar → ℚ
  | integer i => (Binary64.ofInt i.toInt).value
  | float f => f.value
  | _ => 0

/-- Whether a scalar comes before another one or is equal to it. -/
def AtMost (ignoreCase : Bool) (x y : Scalar) : Prop :=
  ∃ o, x.compare? ignoreCase y = some o ∧ o ≠ .gt

/-- The number in steps. -/
def steps : Scalar → Int
  | integer i => i.toInt * one
  | float f => f.rank.getD 0
  | _ => 0

variable {x y z : Scalar}

theorem rank_float {f : Binary64} (hf : f.IsFinite) :
    f.rank = some (float f).steps ∧ rounding (float f).steps = (float f).steps := by
  obtain ⟨negative, steps, fits, rfl⟩ := hf
  have habs : (if negative then -(steps : Int) else steps).natAbs = steps := by
    split <;> omega
  exact ⟨rfl, rounding_of_dvd (habs.symm ▸ fits.1)⟩

theorem number_eq (hx : x.IsNumber) : x.number = x.steps / one := by
  cases x with
  | integer i =>
    rw [number, steps, Int.cast_mul, Int.cast_natCast, mul_div_cancel_right₀ _ one_pos_rat.ne']
  | float f => exact value_eq hx (rank_float hx).1
  | _ => cases hx

theorem rounded_eq (hx : x.IsNumber) : x.rounded = rounding x.steps / one := by
  cases x with
  | integer i => exact value_eq (isFinite_ofInt i) (rank_ofInt i)
  | float f => rw [(rank_float hx).2, ← number_eq hx, number, rounded]
  | _ => cases hx

/-- Steps are in the order of their numbers. -/
theorem compare_div {u : ℚ} (hu : 0 < u) (s t : Int) :
    compare ((s : ℚ) / u) (t / u) = compare s t := by
  rcases lt_trichotomy s t with h | rfl | h
  · rw [compare_lt_iff_lt.2 h, compare_lt_iff_lt]
    exact (div_lt_div_iff_of_pos_right hu).2 (Int.cast_lt.2 h)
  · rw [compare_eq_iff_eq.2 rfl, compare_eq_iff_eq.2 rfl]
  · rw [compare_gt_iff_gt.2 h, compare_gt_iff_gt]
    exact (div_lt_div_iff_of_pos_right hu).2 (Int.cast_lt.2 h)

theorem compare?_of_rank {a b : Binary64} {s t : Int} (ha : a.rank = some s)
    (hb : b.rank = some t) : a.compare? b = some (compare s t) := by
  rw [Binary64.compare?, ha, hb]
  rfl

/-- **Numbers of one kind compare by their values, others by what they round to.** -/
theorem compare?_eq (ignoreCase : Bool) (hx : x.IsNumber) (hy : y.IsNumber) :
    x.compare? ignoreCase y =
      some (if x.kind = y.kind then compare x.number y.number
        else compare x.rounded y.rounded) := by
  cases x with
  | integer i =>
    cases y with
    | integer j =>
      have hcast := compare_div zero_lt_one i.toInt j.toInt
      rw [div_one, div_one] at hcast
      simp only [kind, if_true, number, hcast, compare?]
    | float g =>
      obtain ⟨hrank, hself⟩ := rank_float hy
      simp only [kind, reduceCtorEq, if_false]
      rw [rounded_eq hx, rounded_eq hy, compare_div one_pos_rat, hself]
      exact compare?_of_rank (rank_ofInt i) hrank
    | _ => cases hy
  | float f =>
    obtain ⟨hrank, hself⟩ := rank_float hx
    cases y with
    | integer j =>
      simp only [kind, reduceCtorEq, if_false]
      rw [rounded_eq hx, rounded_eq hy, compare_div one_pos_rat, hself]
      exact compare?_of_rank hrank (rank_ofInt j)
    | float g =>
      simp only [kind, if_true]
      rw [number_eq hx, number_eq hy, compare_div one_pos_rat]
      exact compare?_of_rank hrank (rank_float hy).1
    | _ => cases hy
  | _ => cases hx

/-- Rounding keeps the order. -/
theorem rounded_mono (hx : x.IsNumber) (hy : y.IsNumber) (h : x.number ≤ y.number) :
    x.rounded ≤ y.rounded := by
  have hone := one_pos_rat
  rw [number_eq hx, number_eq hy, div_le_div_iff_of_pos_right hone, Int.cast_le] at h
  rw [rounded_eq hx, rounded_eq hy, div_le_div_iff_of_pos_right hone, Int.cast_le]
  exact rounding_mono h

/-- Up to `2⁵³` nothing is rounded. -/
theorem rounded_of_abs_le (hx : x.IsNumber) (h : |x.number| ≤ 2 ^ 53) : x.rounded = x.number := by
  cases x with
  | integer i =>
    rw [rounded_eq hx, number_eq hx, rounding_of_dvd]
    have habs : i.toInt.natAbs ≤ 2 ^ 53 := by
      rw [number, ← Int.cast_abs, Int.abs_eq_natAbs] at h
      exact_mod_cast h
    rw [steps, Int.natAbs_mul, Int.natAbs_natCast]
    exact unit_dvd_whole habs
  | float f => rfl
  | _ => cases hx

/-! ## The order of numbers -/

theorem atMost_iff (ignoreCase : Bool) (hx : x.IsNumber) (hy : y.IsNumber) :
    x.AtMost ignoreCase y ↔
      if x.kind = y.kind then x.number ≤ y.number else x.rounded ≤ y.rounded := by
  unfold AtMost
  rw [compare?_eq ignoreCase hx hy]
  simp only [Option.some.injEq, exists_eq_left']
  split
  · exact compare_le_iff_le
  · exact compare_le_iff_le

/-- What numbers are rounded to is in their order. -/
theorem AtMost.rounded_le {ignoreCase : Bool} (hx : x.IsNumber) (hy : y.IsNumber)
    (h : x.AtMost ignoreCase y) : x.rounded ≤ y.rounded := by
  rw [atMost_iff ignoreCase hx hy] at h
  split at h
  · exact rounded_mono hx hy h
  · exact h

theorem kind_of_isNumber (hx : x.IsNumber) : x.kind = .integer ∨ x.kind = .float := by
  cases x with
  | integer i => exact .inl rfl
  | float f => exact .inr rfl
  | _ => cases hx

theorem rounded_of_float (h : x.kind = .float) : x.rounded = x.number := by
  cases x with
  | float f => rfl
  | _ => cases h

/-- Unless both are integers. -/
theorem atMost_of_rounded_le (ignoreCase : Bool) (hx : x.IsNumber) (hy : y.IsNumber)
    (hfloat : x.kind = .float ∨ y.kind = .float) (h : x.rounded ≤ y.rounded) :
    x.AtMost ignoreCase y := by
  rw [atMost_iff ignoreCase hx hy]
  split
  · next hkind =>
    rw [← hkind, or_self] at hfloat
    rwa [rounded_of_float hfloat, rounded_of_float (hkind ▸ hfloat)] at h
  · exact h

/-- **The order of numbers is transitive unless a double stands between two integers** that it is
equal to. -/
theorem atMost_trans_iff (ignoreCase : Bool) (hx : x.IsNumber) (hy : y.IsNumber)
    (hz : z.IsNumber) (hxy : x.AtMost ignoreCase y) (hyz : y.AtMost ignoreCase z) :
    x.AtMost ignoreCase z ↔
      ¬(x.kind = .integer ∧ y.kind = .float ∧ z.kind = .integer ∧ z.number < x.number) := by
  have hrounded := (hxy.rounded_le hx hy).trans (hyz.rounded_le hy hz)
  rcases kind_of_isNumber hx with hxi | hxf
  · rcases kind_of_isNumber hz with hzi | hzf
    · rw [atMost_iff ignoreCase hx hz, hxi, hzi, if_pos rfl, ← not_lt]
      rcases kind_of_isNumber hy with hyi | hyf
      · rw [atMost_iff ignoreCase hx hy, hxi, hyi, if_pos rfl] at hxy
        rw [atMost_iff ignoreCase hy hz, hyi, hzi, if_pos rfl] at hyz
        exact iff_of_true (not_lt.2 (hxy.trans hyz)) (by simp [hyi])
      · simp [hyf]
    · exact iff_of_true (atMost_of_rounded_le ignoreCase hx hz (.inr hzf) hrounded) (by simp [hzf])
  · exact iff_of_true (atMost_of_rounded_le ignoreCase hx hz (.inl hxf) hrounded) (by simp [hxf])

/-- **Numbers compare by their values unless they are of different kinds and different ones round
to the same double.** Up to `2⁵³` none is rounded. They are in order unless a double stands between
two integers. -/
theorem compare?_numbers (ignoreCase : Bool) (hx : x.IsNumber) (hy : y.IsNumber)
    (hz : z.IsNumber) :
    (x.compare? ignoreCase y = some (compare x.number y.number) ↔
      (x.kind ≠ y.kind → x.rounded = y.rounded → x.number = y.number)) ∧
    (|x.number| ≤ 2 ^ 53 → x.rounded = x.number) ∧
    (x.AtMost ignoreCase y → y.AtMost ignoreCase z → (x.AtMost ignoreCase z ↔
      ¬(x.kind = .integer ∧ y.kind = .float ∧ z.kind = .integer ∧ z.number < x.number))) := by
  refine ⟨?_, rounded_of_abs_le hx, atMost_trans_iff ignoreCase hx hy hz⟩
  rw [compare?_eq ignoreCase hx hy, Option.some.injEq]
  split
  · next hkind => exact iff_of_true rfl fun hne => absurd hkind hne
  · next hkind =>
    constructor
    · intro heq _ hround
      rw [compare_eq_iff_eq.2 hround] at heq
      exact compare_eq_iff_eq.1 heq.symm
    · intro hinj
      rcases lt_trichotomy x.number y.number with hlt | heq | hgt
      · have hne : x.rounded ≠ y.rounded := fun h => hlt.ne (hinj hkind h)
        have hround := lt_of_le_of_ne (rounded_mono hx hy hlt.le) hne
        rw [compare_lt_iff_lt.2 hround, compare_lt_iff_lt.2 hlt]
      · have hround := (rounded_mono hx hy heq.le).antisymm (rounded_mono hy hx heq.ge)
        rw [compare_eq_iff_eq.2 hround, compare_eq_iff_eq.2 heq]
      · have hne : y.rounded ≠ x.rounded := fun h => hgt.ne' (hinj hkind h.symm)
        have hround := lt_of_le_of_ne (rounded_mono hy hx hgt.le) hne
        rw [compare_gt_iff_gt.2 hround, compare_gt_iff_gt.2 hgt]

theorem compare?_numbers_neighbours : ∃ x y z : Scalar,
    x.number = 9007199254740991 ∧ y = float (Binary64.ofInt 9007199254740992) ∧
      z.number = 9007199254740992 ∧
      x.compare? false y = some (compare x.number y.number) ∧ x.AtMost false z := by
  have hx : (integer 9007199254740991).number = ((9007199254740991 : Int) : ℚ) := rfl
  have hz : (integer 9007199254740992).number = ((9007199254740992 : Int) : ℚ) := rfl
  have hxy : (integer 9007199254740991).AtMost false
      (float (Binary64.ofInt (Int64.toInt 9007199254740992))) := ⟨.lt, by decide +kernel, by decide⟩
  have hyz : (float (Binary64.ofInt (Int64.toInt 9007199254740992))).AtMost false
      (integer 9007199254740992) := ⟨.eq, by decide +kernel, by decide⟩
  obtain ⟨hcompare, hexact, htrans⟩ := compare?_numbers false (x := integer 9007199254740991)
    (y := float (Binary64.ofInt (Int64.toInt 9007199254740992))) (z := integer 9007199254740992)
    trivial (isFinite_ofInt 9007199254740992) trivial
  have hbound : |(integer 9007199254740991).number| ≤ 2 ^ 53 := by
    rw [hx]
    norm_num
  refine ⟨_, _, _, by norm_num [hx], rfl, by norm_num [hz],
    hcompare.2 fun _ hround => (hexact hbound).symm.trans hround, (htrans hxy hyz).2 ?_⟩
  rintro ⟨-, -, -, hlt⟩
  norm_num [hx, hz] at hlt

/-- **An integer is equal to a double that is less.** Among unsigned integers of 64 bits two
different ones are so equal to the same third one. -/
theorem exists_equal_numbers :
    (∃ (a : Int64) (b : Binary64), b.IsFinite ∧ b.value < a.toInt ∧
      (integer a).compare? false (float b) = some .eq ∧
      (float b).compare? false (integer a) = some .eq) ∧
    ∃ k m n : UInt64,
      (Member.value m).compare? false (Member.value n) = some .eq ∧
      (Member.value n).compare? false (Member.value k) = some .eq ∧
      (Member.value m).compare? false (Member.value k) = some .gt := by
  have hnumber : (integer 9007199254740992).number = ((2 ^ 53 : Int) : ℚ) := rfl
  have hvalue : (integer 9007199254740992).rounded = 2 ^ 53 := by
    rw [rounded_of_abs_le (x := integer 9007199254740992) trivial, hnumber] <;>
      norm_num [hnumber]
  have hless : (integer 9007199254740992).rounded < ((9007199254740993 : Int) : ℚ) := by
    rw [hvalue]
    norm_num
  exact ⟨⟨9007199254740993, Binary64.ofInt (Int64.toInt 9007199254740992),
      isFinite_ofInt 9007199254740992, hless, by decide +kernel, by decide +kernel⟩,
    9223372036854775806, 9223372036854775807, 9223372036854775808,
    by decide +kernel, by decide +kernel, by decide +kernel⟩

end Scalar

end Sift
