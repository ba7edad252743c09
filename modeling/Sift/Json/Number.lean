import Sift.Json.Basic

/-!
# Numbers in JSON texts

A number without fraction and exponent that fits into 64 bits is an integer. Any other number is a
double, computed from the digits that fit into an unsigned word of 64 bits: digits of the whole
part that no longer fit only scale, digits of the fraction that no longer fit are dropped, and the
scaling is one rounded multiplication or division.

* `takeFitting`: the digits that fit.
* `scale?`: a significand times a power of ten; none where it overflows.
* `ofParts?`: the value of a number.
-/

namespace Sift.Json

open Number (digitValue digitsValue readInt?)

/-- Digits are taken into a significand of 64 bits as long as they fit. Returns the significand and
the digits left over. -/
def takeFitting (significand : Nat) : List Char → Nat × List Char
  | [] => (significand, [])
  | c :: rest =>
    let next := 10 * significand + digitValue c
    if next < Nat.pow 2 64 then takeFitting next rest else (significand, c :: rest)

/-- The steps of the double nearest to a power of ten. -/
def powerSteps (exponent : Nat) : Nat :=
  BinaryFormat.double.nearest (Nat.pow 10 exponent * Binary64.one) 1

/-- A double divided by a power of ten. -/
def dividedBy (negative : Bool) (steps exponent : Nat) : Binary64 :=
  Binary64.ofSteps .double negative (steps * Binary64.one) (powerSteps exponent)

/-- A double of some steps times a power of ten; none where the product overflows. Powers below
`10⁻³⁰⁸` are taken in two divisions, and two of them leave nothing of a significand. -/
def scaled? (negative : Bool) (steps : Nat) (exponent : Int) : Option Binary64 :=
  if steps = 0 then some (Binary64.ofSteps .double negative 0 1)
  else if 308 < exponent then none
  else if 0 ≤ exponent then
    match Binary64.ofSteps .double negative (steps * powerSteps exponent.toNat) Binary64.one with
    | .infinity _ => none
    | product => some product
  else if -308 ≤ exponent then some (dividedBy negative steps (-exponent).toNat)
  else if -616 ≤ exponent then
    match dividedBy negative steps 308 with
    | .finite _ once _ => some (dividedBy negative once (-exponent - 308).toNat)
    | other => some other
  else some (Binary64.ofSteps .double negative 0 1)

/-- A significand times a power of ten. -/
def scale? (negative : Bool) (significand : Nat) (exponent : Int) : Option Binary64 :=
  scaled? negative (BinaryFormat.double.nearest (significand * Binary64.one) 1) exponent

/-- The value of a number from its sign, the digits of its whole part and fraction, and its
exponent. -/
def ofParts? (negative : Bool) (whole : List Char) (fraction : Option (List Char))
    (exponent : Option Int) : Option Json :=
  let n := digitsValue whole
  let value : Int := if negative then -n else n
  match fraction, exponent, Number.toInt64? value with
  | none, none, some i =>
    if negative ∧ n = 0 then some (.float (Binary64.ofSteps .double true 0 1))
    else some (.integer i)
  | _, _, _ =>
    let (significand, left) := takeFitting 0 whole
    let digits := fraction.getD []
    let (significand, dropped) := takeFitting significand digits
    let shift : Int := left.length - (digits.length - dropped.length : Nat)
    (scale? negative significand (shift + exponent.getD 0)).map .float

end Sift.Json
