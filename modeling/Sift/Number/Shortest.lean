import Sift.Number.Binary64

/-!
# The shortest digits of a double

A decimal reads back as a double when it lies in the interval of reals that round to it. The
digits chosen are those of the coarsest power of ten with a multiple in that interval, and of two
such multiples the nearer one.

* `Decimal`: an integer times a power of ten.
* `Interval.contains`: the decimals that read back.
* `shortest`: the digits of a positive double.
-/

namespace Sift.Number

/-- `digits · 10 ^ exponent`. -/
structure Decimal where
  digits : Nat
  exponent : Int
  deriving DecidableEq, Repr

/-- Which of two equally near decimals is taken. -/
inductive Tie where
  | up
  | even
  deriving DecidableEq, Repr

/-- The reals that round to a double, its ends in quarters of the least step. -/
structure RoundingInterval where
  low : Nat
  high : Nat
  closed : Bool

/-- The reals that round to a number of steps. Half the way to the neighbours; the neighbour below
a power of two is nearer. The ends belong to an even significand. -/
def RoundingInterval.ofSteps (steps : Nat) : RoundingInterval :=
  let drop := steps.log2 - 52
  let unit := Nat.pow 2 drop
  { low := 4 * steps - (if 0 < drop ∧ steps = Nat.pow 2 steps.log2 then unit else 2 * unit)
    high := 4 * steps + 2 * unit
    closed := steps / unit % 2 = 0 }

/-- Whether the fraction `num / den` of a quarter step rounds to the double. -/
def RoundingInterval.contains (i : RoundingInterval) (num den : Nat) : Bool :=
  if i.closed then i.low * den ≤ num && num ≤ i.high * den
  else i.low * den < num && num < i.high * den

/-- One unit of `10 ^ exponent` as a fraction of steps. -/
def gridUnit (exponent : Int) : Nat × Nat :=
  if 0 ≤ exponent then (Nat.pow 10 exponent.toNat * Binary64.one, 1)
  else (Binary64.one, Nat.pow 10 (-exponent).toNat)

/-- The multiple of `10 ^ exponent` that reads back as `steps`, the nearer one of two. -/
def onGrid? (tie : Tie) (steps : Nat) (exponent : Int) : Option Decimal :=
  let (num, den) := gridUnit exponent
  let interval := RoundingInterval.ofSteps steps
  let floor := steps * den / num
  let lower := interval.contains (4 * floor * num) den
  let upper := interval.contains (4 * (floor + 1) * num) den
  let twice := 2 * (steps * den % num)
  let roundsUp := num < twice ∨ (num = twice ∧ (tie = .up ∨ floor % 2 = 1))
  if lower ∧ upper then some ⟨if roundsUp then floor + 1 else floor, exponent⟩
  else if lower then some ⟨floor, exponent⟩
  else if upper then some ⟨floor + 1, exponent⟩
  else none

/-- A power of ten above a positive number of steps, and less than two places above it. -/
def gridStart (steps : Nat) : Int := ((steps.log2 : Int) + 1 - 1074) * 30103 / 100000 + 1

/-- The shortest decimal that reads back as a positive number of steps. The grids are tried from
the coarsest down; the exact value stands behind them. -/
def shortest (tie : Tie) (steps : Nat) : Decimal :=
  ((List.range 20).findSome? fun (i : Nat) => onGrid? tie steps (gridStart steps - i)).getD
    ⟨steps * Nat.pow 5 1074, -1074⟩

end Sift.Number
