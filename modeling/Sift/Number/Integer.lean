/-!
# Integer text

* `digitsValue`: the number that a run of decimal digits stands for.
* `hexValue?`: the value of a hexadecimal digit.
* `readInt?`: an optional sign and at least one digit, nothing else.
* `readInt64?`: the same, for the integers of 64 bits; none where the number does not fit.
* `intText`: the digits of an integer, with a minus where it is negative.
-/

namespace Sift.Number

/-- The value of a decimal digit. -/
def digitValue (c : Char) : Nat := c.toNat - '0'.toNat

/-- The value of a hexadecimal digit. -/
def hexValue? (c : Char) : Option Nat :=
  if c.isDigit then some (digitValue c)
  else if 'a' ≤ c.toLower ∧ c.toLower ≤ 'f' then some (10 + c.toLower.toNat - 'a'.toNat)
  else none

/-- The number that decimal digits stand for. -/
def digitsValue (ds : List Char) : Nat := ds.foldl (fun n c => 10 * n + digitValue c) 0

/-- The decimal digits of a number. -/
def natText (n : Nat) : List Char := Nat.toDigits 10 n

/-- The decimal digits of a number, with zeros in front up to a width. -/
def padded (width n : Nat) : List Char :=
  List.replicate (width - (natText n).length) '0' ++ natText n

/-- The text of an integer. -/
def intText (i : Int) : List Char :=
  if i < 0 then '-' :: natText i.natAbs else natText i.natAbs

/-- A number written with digits alone. -/
def readNat? (cs : List Char) : Option Nat :=
  if cs ≠ [] ∧ cs.all Char.isDigit then some (digitsValue cs) else none

/-- An optional sign, then digits. -/
def readInt? : List Char → Option Int
  | '+' :: cs => (readNat? cs).map Int.ofNat
  | '-' :: cs => (readNat? cs).map fun n => -Int.ofNat n
  | cs => (readNat? cs).map Int.ofNat

/-- An integer as a 64-bit one, where it fits. -/
def toInt64? (i : Int) : Option Int64 :=
  if Int64.minValue.toInt ≤ i ∧ i ≤ Int64.maxValue.toInt then some (Int64.ofInt i) else none

/-- A 64-bit integer from its text. -/
def readInt64? (cs : List Char) : Option Int64 := (readInt? cs).bind toInt64?

/-- Only numbers that fit are taken, and they are kept as they are. -/
theorem toInt64?_eq_some {i : Int} {n : Int64} (h : toInt64? i = some n) : n.toInt = i := by
  unfold toInt64? at h
  split at h
  · next hi =>
    cases h
    rw [Int64.toInt_minValue, Int64.toInt_maxValue] at hi
    exact Int64.toInt_ofInt_of_le hi.1 (Int.lt_of_le_sub_one hi.2)
  · simp at h

end Sift.Number
