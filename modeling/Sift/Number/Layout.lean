import Sift.Number.Integer
import Sift.Number.Shortest

/-!
# Texts of doubles

All texts of doubles have the shortest digits. They differ in where an exponent takes over and in
the spelling of whole numbers and of exponents, which a `Layout` records.

* `Layout.plain`: never an exponent; the text of values in filters.
* `Layout.json`: numbers in JSON.
* `Layout.inspected`: numbers in inspected values.
* `readFloat?`: reads any of them back.
-/

namespace Sift.Number

/-- How a double is laid out. -/
structure Layout where
  /-- The exponents of ten, of the first digit, that are written without an exponent. -/
  isPositional : Int → Bool
  /-- Whether a whole number keeps a fraction of zero. -/
  wholeFraction : Bool
  /-- Whether an exponent that is not negative has a plus. -/
  exponentPlus : Bool
  /-- Which of two equally near decimals is taken. -/
  tie : Tie

/-- Digits only, and a fraction only where there is one. -/
def Layout.plain : Layout := ⟨fun _ => true, false, false, .up⟩

/-- Positional from `10⁻⁵` and below `10¹⁶`; exponents have a sign. -/
def Layout.json : Layout := ⟨fun e => -5 ≤ e && e < 16, true, true, .even⟩

/-- Positional from `10⁻⁴` and below `10¹⁶`; exponents have a sign only where negative. -/
def Layout.inspected : Layout := ⟨fun e => -4 ≤ e && e < 16, true, false, .up⟩

/-- Digits with the point after the first `point` of them, filled up with zeros. -/
def positional (wholeFraction : Bool) (digits : List Char) (point : Int) : List Char :=
  if point ≤ 0 then '0' :: '.' :: List.replicate (-point).toNat '0' ++ digits
  else if digits.length ≤ point.toNat then
    digits ++ List.replicate (point.toNat - digits.length) '0' ++
      (if wholeFraction then ['.', '0'] else [])
  else digits.take point.toNat ++ '.' :: digits.drop point.toNat

/-- Digits with the point after the first of them, and an exponent. -/
def scientific (plus : Bool) (digits : List Char) (exponent : Int) : List Char :=
  (match digits with
    | d :: e :: rest => d :: '.' :: e :: rest
    | ds => ds) ++
  'e' :: (if plus ∧ 0 ≤ exponent then ['+'] else []) ++ intText exponent

/-- The text of a positive number of steps. -/
def Layout.magnitude (l : Layout) (steps : Nat) : List Char :=
  let d := shortest l.tie steps
  let digits := natText d.digits
  let point := digits.length + d.exponent
  if l.isPositional (point - 1) then positional l.wholeFraction digits point
  else scientific l.exponentPlus digits (point - 1)

/-- The text of a double. -/
def Layout.text (l : Layout) : Binary64 → List Char
  | .nan => ['N', 'a', 'N']
  | .infinity negative => (if negative then ['-'] else []) ++ ['i', 'n', 'f']
  | .finite negative steps _ =>
    (if negative then ['-'] else []) ++
      (if steps = 0 then (if l.wholeFraction then ['0', '.', '0'] else ['0'])
      else l.magnitude steps)

/-- The double nearest to `± digits · 10 ^ exponent`. Numbers beyond every double are infinite and
numbers below the least one zero, before any power of ten is taken. -/
def ofDecimal (f : BinaryFormat) (negative : Bool) (d : Decimal) : Binary64 :=
  let places := (natText d.digits).length + d.exponent
  if d.digits = 0 ∨ places < -350 then Binary64.ofRatio f negative 0 1
  else if 350 < places then .infinity negative
  else if 0 ≤ d.exponent then
    Binary64.ofRatio f negative (d.digits * Nat.pow 10 d.exponent.toNat) 1
  else Binary64.ofRatio f negative d.digits (Nat.pow 10 (-d.exponent).toNat)

/-- Digits with at most one point among them and an exponent after them. -/
def readDecimal? (cs : List Char) : Option Decimal :=
  let whole := cs.takeWhile Char.isDigit
  let afterWhole := cs.dropWhile Char.isDigit
  let (fraction, rest) := match afterWhole with
    | '.' :: r => (r.takeWhile Char.isDigit, r.dropWhile Char.isDigit)
    | r => ([], r)
  if whole = [] ∧ fraction = [] then none
  else
    let decimal (e : Int) : Decimal := ⟨digitsValue (whole ++ fraction), e - fraction.length⟩
    match rest with
    | [] => some (decimal 0)
    | c :: r => if c = 'e' ∨ c = 'E' then (readInt? r).map decimal else none

/-- A number without its sign: a decimal, or one of the names of infinity and NaN. -/
def readMagnitude? (f : BinaryFormat) (negative : Bool) (cs : List Char) : Option Binary64 :=
  let name := cs.map Char.toLower
  if name = ['n', 'a', 'n'] then some .nan
  else if name = ['i', 'n', 'f'] ∨ name = ['i', 'n', 'f', 'i', 'n', 'i', 't', 'y'] then
    some (.infinity negative)
  else (readDecimal? cs).map (ofDecimal f negative)

/-- A number of a binary format from its text. -/
def readFloat? (f : BinaryFormat) : List Char → Option Binary64
  | '+' :: cs => readMagnitude? f false cs
  | '-' :: cs => readMagnitude? f true cs
  | cs => readMagnitude? f false cs

end Sift.Number
