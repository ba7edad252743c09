import Sift.Number.Shortest
import Sift.Proofs.Rounding

/-!
# The shortest digits read back

* `Decimal.RoundsTo`: the decimals that a double is the nearest one to.
* `RoundingInterval.nearest_of_contains`: **what lies in the interval of a double rounds to it.**
* `shortest_roundsTo`: so do the shortest digits.
* `shortest_exponent_nonneg`: those of a whole number below `2⁶³` have no fraction.
-/

namespace Sift.Number

open Binary64 BinaryFormat

/-- A decimal rounds to so many steps. -/
def Decimal.RoundsTo (d : Decimal) (steps : Nat) : Prop :=
  double.nearest (d.digits * (gridUnit d.exponent).1) (gridUnit d.exponent).2 = steps

/-- A decimal is so many steps. -/
def Decimal.IsSteps (d : Decimal) (steps : Nat) : Prop :=
  d.digits * (gridUnit d.exponent).1 = steps * (gridUnit d.exponent).2

theorem gridUnit_pos (exponent : Int) :
    0 < (gridUnit exponent).1 ∧ 0 < (gridUnit exponent).2 := by
  have hone := steps_one_pos
  have hten : ∀ k, 0 < Nat.pow 10 k := fun k => Nat.pow_pos (by decide)
  unfold gridUnit
  generalize one = n at hone ⊢
  split
  · exact ⟨Nat.mul_pos (hten _) hone, Nat.one_pos⟩
  · exact ⟨hone, hten _⟩

/-! ## The interval of a double -/

variable {steps num den : Nat}

theorem nearest_eq {u k : Nat} (hunit : unit (num / den) = u) (hw : 0 < den * u)
    (hlow : 2 * k * (den * u) ≤ 2 * num + den * u) (hhigh : 2 * num ≤ (2 * k + 1) * (den * u))
    (hodd : k % 2 = 1 →
      2 * k * (den * u) < 2 * num + den * u ∧ 2 * num < (2 * k + 1) * (den * u)) :
    double.nearest num den = k * u := by
  rw [nearest_double, hunit, roundHalfEven_eq hw hlow hhigh hodd]

/-- The numbers with as many bits as a double has are one unit of it apart. -/
theorem unit_eq {drop : Nat} (hden : 0 < den) (hlow : 2 ^ 52 * (den * 2 ^ drop) ≤ num)
    (hhigh : num < 2 ^ 53 * (den * 2 ^ drop)) : unit (num / den) = 2 ^ drop := by
  have hbelow : 2 ^ (52 + drop) ≤ num / den := by
    rw [Nat.le_div_iff_mul_le hden, Nat.pow_add]
    calc 2 ^ 52 * 2 ^ drop * den = 2 ^ 52 * (den * 2 ^ drop) := by ring
      _ ≤ num := hlow
  have habove : num / den < 2 ^ (52 + drop + 1) := by
    rw [Nat.div_lt_iff_lt_mul hden]
    calc num < 2 ^ 53 * (den * 2 ^ drop) := hhigh
      _ = 2 ^ (52 + drop + 1) * den := by ring
  have hne : num / den ≠ 0 := (Nat.lt_of_lt_of_le (Nat.two_pow_pos _) hbelow).ne'
  have hlog : (num / den).log2 = 52 + drop := (Nat.log2_eq_iff hne).2 ⟨hbelow, habove⟩
  rw [unit, hlog, Nat.add_sub_cancel_left]

/-- Below a power of two the interval is cut to half of its width. -/
theorem RoundingInterval.low_ofSteps (steps : Nat) : (ofSteps steps).low = 4 * steps -
    (if 0 < steps.log2 - 52 ∧ steps = 2 ^ steps.log2 then unit steps else 2 * unit steps) := rfl

theorem RoundingInterval.high_ofSteps (steps : Nat) :
    (ofSteps steps).high = 4 * steps + 2 * unit steps := rfl

theorem RoundingInterval.closed_ofSteps (steps : Nat) :
    (ofSteps steps).closed = decide (steps / unit steps % 2 = 0) := rfl

theorem RoundingInterval.bounds_of_contains {i : RoundingInterval} (h : i.contains num den) :
    i.low * den ≤ num ∧ num ≤ i.high * den ∧
      (i.closed = false → i.low * den < num ∧ num < i.high * den) := by
  unfold contains at h
  split at h
  · next hclosed =>
    simp only [Bool.and_eq_true, decide_eq_true_eq] at h
    exact ⟨h.1, h.2, fun hopen => absurd (hclosed.symm.trans hopen) (by decide)⟩
  · simp only [Bool.and_eq_true, decide_eq_true_eq] at h
    exact ⟨h.1.le, h.2.le, fun _ => h⟩

/-- Where doubles are `u` apart on both sides, the numbers within half of that. -/
theorem nearest_of_wide {u k : Nat} (hunit : unit (num / den) = u) (hw : 0 < den * u)
    (hlow : (4 * (u * k) - 2 * u) * den ≤ 4 * num) (hhigh : 4 * num ≤ (4 * (u * k) + 2 * u) * den)
    (hodd : k % 2 = 1 →
      (4 * (u * k) - 2 * u) * den < 4 * num ∧ 4 * num < (4 * (u * k) + 2 * u) * den) :
    double.nearest num den = u * k := by
  have hmul : 4 * (u * k) * den = 2 * (2 * k * (den * u)) := by ring
  have hmul' : (4 * (u * k) + 2 * u) * den = 2 * ((2 * k + 1) * (den * u)) := by ring
  have htwo : 2 * u * den = 2 * (den * u) := by ring
  rw [Nat.sub_mul, hmul, htwo] at hlow hodd
  rw [hmul'] at hhigh hodd
  rw [Nat.mul_comm u k]
  exact nearest_eq hunit hw (by omega) (by omega) fun h => by
    have hstrict := hodd h
    omega

/-- Such numbers have as many bits as the double. -/
theorem unit_of_wide {drop k : Nat} (hden : 0 < den) (hk : 2 ^ 52 < k) (hk' : k < 2 ^ 53)
    (hlow : (4 * (2 ^ drop * k) - 2 * 2 ^ drop) * den ≤ 4 * num)
    (hhigh : 4 * num ≤ (4 * (2 ^ drop * k) + 2 * 2 ^ drop) * den) :
    unit (num / den) = 2 ^ drop := by
  have hw : 0 < den * 2 ^ drop := Nat.mul_pos hden (Nat.two_pow_pos _)
  have hmul : 4 * (2 ^ drop * k) * den = 4 * (k * (den * 2 ^ drop)) := by ring
  have htwo : 2 * 2 ^ drop * den = 2 * (den * 2 ^ drop) := by ring
  rw [Nat.sub_mul, hmul, htwo] at hlow
  rw [Nat.add_mul, hmul, htwo] at hhigh
  have hbelow := Nat.mul_le_mul_right (den * 2 ^ drop) (Nat.succ_le_of_lt hk)
  have habove := Nat.mul_le_mul_right (den * 2 ^ drop) (Nat.le_sub_one_of_lt hk')
  rw [Nat.succ_mul] at hbelow
  rw [Nat.sub_mul] at habove
  exact unit_eq hden (by omega) (by omega)

/-- Below a power of two doubles are only half as far apart. -/
theorem nearest_of_power {drop : Nat} (hden : 0 < den)
    (hlow : (4 * 2 ^ (52 + (drop + 1)) - 2 ^ (drop + 1)) * den ≤ 4 * num)
    (hhigh : 4 * num ≤ (4 * 2 ^ (52 + (drop + 1)) + 2 * 2 ^ (drop + 1)) * den) :
    double.nearest num den = 2 ^ (52 + (drop + 1)) := by
  have hw : 0 < den * 2 ^ drop := Nat.mul_pos hden (Nat.two_pow_pos _)
  have hw' : 0 < den * 2 ^ (drop + 1) := Nat.mul_pos hden (Nat.two_pow_pos _)
  have hhalf : den * 2 ^ (drop + 1) = 2 * (den * 2 ^ drop) := by ring
  have hmul : 4 * 2 ^ (52 + (drop + 1)) * den = 2 ^ 54 * (den * 2 ^ (drop + 1)) := by ring
  have hone : 2 ^ (drop + 1) * den = den * 2 ^ (drop + 1) := Nat.mul_comm _ _
  have htwo : 2 * 2 ^ (drop + 1) * den = 2 * (den * 2 ^ (drop + 1)) := by ring
  rw [Nat.sub_mul, hmul, hone] at hlow
  rw [Nat.add_mul, hmul, htwo] at hhigh
  rcases Nat.lt_or_ge num (2 ^ 52 * (den * 2 ^ (drop + 1))) with hlt | hge
  · have hunit : unit (num / den) = 2 ^ drop := unit_eq hden (by omega) (by omega)
    rw [nearest_eq (k := 2 ^ 53) hunit hw (by omega) (by omega) fun h => absurd h (by decide)]
    ring
  · have hunit : unit (num / den) = 2 ^ (drop + 1) := unit_eq hden hge (by omega)
    rw [nearest_eq (k := 2 ^ 52) hunit hw' (by omega) (by omega) fun h => absurd h (by decide)]
    ring

/-- The numbers around a double are as far apart as it is from its neighbours. -/
theorem unit_of_near {drop k : Nat} (hden : 0 < den) (hsteps : 0 < steps)
    (hdrop : steps.log2 - 52 = drop) (hk : steps = 2 ^ drop * k)
    (hwide : ¬(0 < drop ∧ steps = 2 ^ steps.log2))
    (hlow : (4 * steps - 2 * 2 ^ drop) * den ≤ 4 * num)
    (hhigh : 4 * num ≤ (4 * steps + 2 * 2 ^ drop) * den) : unit (num / den) = 2 ^ drop := by
  rcases Nat.eq_zero_or_pos drop with rfl | hpos
  -- up to 53 bits doubles are one step apart
  · have hfloor : num / den ≤ steps := by
      rw [← Nat.lt_succ_iff, Nat.div_lt_iff_lt_mul hden, Nat.succ_mul]
      rw [Nat.add_mul] at hhigh
      have hassoc : 4 * steps * den = 4 * (steps * den) := Nat.mul_assoc _ _ _
      omega
    have hle := log2_mono hfloor
    rw [unit, show (num / den).log2 - 52 = 0 by omega]
  · have hlog : 2 ^ 52 * 2 ^ drop ≤ steps := by
      rw [← Nat.pow_add, show 52 + drop = steps.log2 by omega]
      exact Nat.log2_self_le hsteps.ne'
    have hlt : steps < 2 ^ 53 * 2 ^ drop := hdrop ▸ lt_mul_unit steps
    have hne : steps ≠ 2 ^ 52 * 2 ^ drop := by
      rw [← Nat.pow_add, show 52 + drop = steps.log2 by omega]
      exact fun heq => hwide ⟨hpos, heq⟩
    have hmul : steps = k * 2 ^ drop := hk.trans (Nat.mul_comm _ _)
    rw [hmul] at hlog hlt hne
    rw [hk] at hlow hhigh
    have hle : 2 ^ 52 ≤ k := Nat.le_of_mul_le_mul_right hlog (Nat.two_pow_pos drop)
    have hne' : 2 ^ 52 ≠ k := by
      rintro rfl
      exact hne rfl
    exact unit_of_wide hden (Nat.lt_of_le_of_ne hle hne') (Nat.lt_of_mul_lt_mul_right hlt) hlow
      hhigh

/-- **What lies in the interval of a double rounds to it.** -/
theorem RoundingInterval.nearest_of_contains (hden : 0 < den) (hsteps : 0 < steps)
    (hdvd : unit steps ∣ steps) (h : (ofSteps steps).contains (4 * num) den) :
    double.nearest num den = steps := by
  obtain ⟨hlow, hhigh, hopen⟩ := bounds_of_contains h
  have hunit : unit steps = 2 ^ (steps.log2 - 52) := rfl
  obtain ⟨k, hk⟩ := hdvd
  have hquot : steps / unit steps = k := Nat.div_eq_of_eq_mul_right (unit_pos _) hk
  rw [low_ofSteps] at hlow hopen
  rw [high_ofSteps] at hhigh hopen
  rw [closed_ofSteps, hquot] at hopen
  split at hlow
  · next hpower =>
    obtain ⟨hdrop, hpower⟩ := hpower
    obtain ⟨drop, hdrop⟩ : ∃ drop, steps.log2 = 52 + (drop + 1) := ⟨steps.log2 - 53, by omega⟩
    rw [hunit, hdrop, Nat.add_sub_cancel_left] at hlow hhigh
    rw [hdrop] at hpower
    rw [hpower] at hlow hhigh ⊢
    exact nearest_of_power hden hlow hhigh
  · next hwide =>
    rw [if_neg hwide] at hopen
    have hodd : k % 2 = 1 → (4 * steps - 2 * unit steps) * den < 4 * num ∧
        4 * num < (4 * steps + 2 * unit steps) * den := fun h => hopen (by simp [h])
    generalize hdrop : steps.log2 - 52 = drop at hunit hwide
    rw [hunit] at hk hlow hhigh hodd
    have hw : 0 < den * 2 ^ drop := Nat.mul_pos hden (Nat.two_pow_pos _)
    have hnear := unit_of_near hden hsteps hdrop hk hwide hlow hhigh
    rw [hk] at hlow hhigh hodd ⊢
    exact nearest_of_wide hnear hw hlow hhigh hodd

/-! ## Grids -/

variable {tie : Tie} {exponent : Int} {d : Decimal}

/-- A multiple of a power of ten is taken only where it rounds to the double. -/
theorem roundsTo_of_onGrid? (hsteps : 0 < steps) (hdvd : unit steps ∣ steps)
    (h : onGrid? tie steps exponent = some d) : d.RoundsTo steps ∧ d.exponent = exponent := by
  have hgrid := (gridUnit_pos exponent).2
  have hread : ∀ m, (RoundingInterval.ofSteps steps).contains (4 * m * (gridUnit exponent).1)
      (gridUnit exponent).2 = true → Decimal.RoundsTo ⟨m, exponent⟩ steps := by
    intro m hm
    rw [Nat.mul_assoc] at hm
    exact RoundingInterval.nearest_of_contains hgrid hsteps hdvd hm
  unfold onGrid? at h
  simp only at h
  split at h
  · next hboth =>
    cases h
    refine ⟨?_, rfl⟩
    split
    · exact hread _ hboth.2
    · exact hread _ hboth.1
  · split at h
    · next hlower =>
      cases h
      exact ⟨hread _ hlower, rfl⟩
    · split at h
      · next hupper =>
        cases h
        exact ⟨hread _ hupper, rfl⟩
      · cases h

/-- A number of steps is a decimal itself. -/
theorem roundsTo_exact (hdvd : unit steps ∣ steps) {n : Nat} (hn : n = 1074) :
    Decimal.RoundsTo ⟨steps * Nat.pow 5 n, -1074⟩ steps := by
  have hplaces : (-(-1074 : Int)).toNat = n := by
    rw [hn]
    rfl
  have hunit : gridUnit (-1074) = (one, Nat.pow 10 n) := by
    rw [gridUnit, if_neg (by decide), hplaces]
  have hten : steps * Nat.pow 5 n * one = steps * Nat.pow 10 n := by
    rw [one_eq hn, Nat.mul_assoc]
    exact congrArg (steps * ·) (Nat.mul_pow 5 2 n).symm
  unfold Decimal.RoundsTo
  simp only [hunit]
  rw [hten]
  exact nearest_self (Nat.pow_pos (by decide)) hdvd

/-- **The shortest digits of a double round to it.** -/
theorem shortest_roundsTo (tie : Tie) (hsteps : 0 < steps) (hdvd : unit steps ∣ steps) :
    (shortest tie steps).RoundsTo steps := by
  obtain ⟨n, hn⟩ : ∃ n, n = 1074 := ⟨_, rfl⟩
  unfold shortest
  rw [← hn]
  cases hfind : (List.range 20).findSome? fun (i : Nat) =>
    onGrid? tie steps (gridStart steps - i) with
  | none => exact roundsTo_exact hdvd hn
  | some d =>
    obtain ⟨i, -, hgrid⟩ := List.exists_of_findSome?_eq_some hfind
    exact (roundsTo_of_onGrid? hsteps hdvd hgrid).1

/-! ## Whole numbers -/

theorem RoundingInterval.contains_self (hsteps : 0 < steps) :
    (ofSteps steps).contains (4 * steps) 1 = true := by
  have hunit := unit_pos steps
  have hlow : (ofSteps steps).low * 1 < 4 * steps := by
    rw [low_ofSteps]
    split <;> omega
  have hhigh : 4 * steps < (ofSteps steps).high * 1 := by
    rw [high_ofSteps]
    omega
  unfold contains
  split
  · simp only [hlow.le, hhigh.le, decide_true, Bool.and_self]
  · simp only [hlow, hhigh, decide_true, Bool.and_self]

theorem gridUnit_zero : gridUnit 0 = (one, 1) := by
  have hten : Nat.pow 10 (0 : Int).toNat = 1 := rfl
  rw [gridUnit, if_pos (le_refl 0), hten, Nat.one_mul]

/-- A whole number is on the grid of the ones. -/
theorem exists_onGrid?_zero (tie : Tie) {q : Nat} (hq : 0 < q) :
    ∃ d, onGrid? tie (q * one) 0 = some d := by
  have hself := RoundingInterval.contains_self (Nat.mul_pos hq steps_one_pos)
  rw [← Nat.mul_assoc] at hself
  have hfloor : q * one * 1 / one = q := by rw [Nat.mul_one, Nat.mul_div_cancel q steps_one_pos]
  unfold onGrid?
  simp only [gridUnit_zero, hfloor, hself, true_and, if_true]
  split <;> exact ⟨_, rfl⟩

/-- The places of a whole number below `2⁶³`. -/
theorem gridStart_bounds {q : Nat} (hq : 0 < q) (hlt : q < 2 ^ 63) :
    0 ≤ gridStart (q * one) ∧ gridStart (q * one) < 20 := by
  have hlog := log2_mul_one hq
  have hbits : q.log2 < 63 := (Nat.log2_lt hq.ne').2 hlt
  unfold gridStart
  rw [hlog]
  omega

/-- **The shortest digits of a whole number below `2⁶³` have no fraction**: the grid of the ones
is tried. -/
theorem shortest_exponent_nonneg (tie : Tie) {q : Nat} (hq : 0 < q) (hlt : q < 2 ^ 63)
    (hdvd : unit (q * one) ∣ q * one) : 0 ≤ (shortest tie (q * one)).exponent := by
  obtain ⟨hlow, hhigh⟩ := gridStart_bounds hq hlt
  obtain ⟨start, hstart⟩ := Int.eq_ofNat_of_zero_le hlow
  obtain ⟨d₀, hones⟩ := exists_onGrid?_zero tie hq
  unfold shortest
  rw [hstart] at hhigh ⊢
  have hmem : start ∈ List.range 20 := List.mem_range.2 (by omega)
  have hones' : onGrid? tie (q * one) (start - start : Int) = some d₀ := by rwa [Int.sub_self]
  cases hfind : (List.range 20).findSome? fun (i : Nat) =>
    onGrid? tie (q * one) ((start : Int) - i) with
  | none =>
    rw [List.findSome?_eq_none_iff] at hfind
    rw [hfind start hmem] at hones'
    cases hones'
  | some d =>
    obtain ⟨before, i, after, hsplit, hgrid, hnone⟩ := List.findSome?_eq_some_iff.1 hfind
    rw [Option.getD_some, (roundsTo_of_onGrid? (Nat.mul_pos hq steps_one_pos) hdvd hgrid).2]
    -- no grid was taken before that of the ones
    have hle : i ≤ start := by
      have hsorted : (List.range 20).Pairwise (· < ·) := List.pairwise_lt_range
      rw [hsplit] at hmem hsorted
      rcases List.mem_append.1 hmem with hbefore | hbehind
      · rw [hnone start hbefore] at hones'
        cases hones'
      · rcases List.mem_cons.1 hbehind with rfl | hafter
        · exact le_refl _
        · exact (List.rel_of_pairwise_cons (List.pairwise_append.1 hsorted).2.1 hafter).le
    omega

end Sift.Number
