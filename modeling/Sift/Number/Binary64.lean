/-!
# Doubles

A finite double is a sign and a whole number of the least steps `2⁻¹⁰⁷⁴`, so order and exactness
are questions about whole numbers.

* `Binary64`: NaN, the infinities and the finite doubles.
* `Binary64.ofRatio`: the double nearest to a fraction; a half goes to the even neighbour.
* `Binary64.rank`: the value in steps, by which doubles are ordered; NaN has none.
* `Binary64.toInt?`: the integer that a double is, if it is one.
-/

namespace Sift

/-- The numbers of steps that a double can hold: at most 53 significant bits, below `2¹⁰²⁴`. -/
def Fits (steps : Nat) : Prop :=
  Nat.pow 2 (steps.log2 - 52) ∣ steps ∧ steps < Nat.pow 2 2098

instance (steps : Nat) : Decidable (Fits steps) :=
  inferInstanceAs (Decidable (_ ∧ _))

/-- The doubles. Zero has a sign. -/
inductive Binary64 where
  | nan
  | infinity (negative : Bool)
  | finite (negative : Bool) (steps : Nat) (fits : Fits steps)
  deriving DecidableEq

/-- A binary format by its significant bits, the exponent of its least step above `2⁻¹⁰⁷⁴`, and
the exponent at which its range ends, both counted in steps. -/
structure BinaryFormat where
  bits : Nat
  grain : Nat
  ceiling : Nat

/-- The format of doubles. -/
def BinaryFormat.double : BinaryFormat := ⟨53, 0, 2098⟩

/-- The format of floats of 32 bits. -/
def BinaryFormat.single : BinaryFormat := ⟨24, 925, 1202⟩

namespace Number

/-- `num / den` to the nearest whole number, a half to the even neighbour. -/
def roundHalfEven (num den : Nat) : Nat :=
  let floor := num / den
  let twice := 2 * (num % den)
  if twice < den then floor
  else if den < twice then floor + 1
  else if floor % 2 = 0 then floor else floor + 1

end Number

/-- The steps that a format has nearest to the fraction `num / den` of steps, were its range
unlimited. -/
def BinaryFormat.nearest (f : BinaryFormat) (num den : Nat) : Nat :=
  let unit := Nat.pow 2 (max f.grain ((num / den).log2 + 1 - f.bits))
  Number.roundHalfEven num (den * unit) * unit

namespace Binary64

/-- The least step goes `2¹⁰⁷⁴` times into one. -/
def one : Nat := Nat.pow 2 1074

/-- The steps nearest to a fraction of steps, infinity where they leave the range. -/
def ofSteps (f : BinaryFormat) (negative : Bool) (num den : Nat) : Binary64 :=
  let steps := f.nearest num den
  if h : Fits steps then
    if steps < Nat.pow 2 f.ceiling then .finite negative steps h else .infinity negative
  else .infinity negative

/-- The double nearest to `num / den`. -/
def ofRatio (f : BinaryFormat) (negative : Bool) (num den : Nat) : Binary64 :=
  ofSteps f negative (num * one) den

/-- The double nearest to an integer. -/
def ofInt (i : Int) : Binary64 := ofRatio .double (i < 0) i.natAbs 1

/-- The value in steps, with the infinities beyond every finite double; NaN has none. -/
def rank : Binary64 → Option Int
  | .nan => none
  | .infinity negative =>
    some (if negative then -(Nat.pow 2 2098 : Nat) else (Nat.pow 2 2098 : Nat))
  | .finite negative steps _ => some (if negative then -steps else steps)

/-- The order of two doubles; a NaN is comparable to none. -/
def compare? (a b : Binary64) : Option Ordering := do
  return compare (← a.rank) (← b.rank)

/-- Whether two doubles are the same number. The two zeros are, a NaN is not itself. -/
def sameNumber (a b : Binary64) : Bool := a.compare? b == some .eq

/-- The integer that a double is, if it has no fraction. -/
def toInt? : Binary64 → Option Int
  | .finite negative steps _ =>
    if one ∣ steps then some (if negative then -(steps / one) else steps / one) else none
  | _ => none

end Binary64

end Sift
