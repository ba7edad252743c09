import Sift.Calendar.Reader
import Sift.Calendar.Text
import Sift.Error

/-!
# Value expressions

What may stand for a value in a filter: literals, wildcards, sets, ranges and their combinations.

* `Literal`: a text, or a date or time in the text; `Literal.ofText` tells which.
* `Fragment`: text to look for, never empty.
* `Interval`: a range with at least one end.
* `Expression`: the tree of value expressions; `Expression.negate` never nests negations.
-/

namespace Sift

/-- A single value as written. -/
inductive Literal where
  | text (s : String)
  | date (d : Date)
  | dateTime (t : LocalDateTime) (offset : Option UtcOffset)
  deriving DecidableEq

namespace Literal

/-- A date, an instant on some clock, or a clock reading, in that order of preference. -/
def temporal? (cs : List Char) : Option Literal :=
  match readDate? cs with
  | some d => some (.date d)
  | none => match readInternetDateTime? cs with
    | some t => some (.dateTime t.clock (some t.offset))
    | none => (readLocalDateTime? cs).map (.dateTime · none)

/-- What a bare word stands for: a date or time where it reads as one. -/
def ofText (cs : List Char) : Literal := (temporal? cs).getD (.text (String.ofList cs))

end Literal

/-- Text to look for. -/
structure Fragment where
  text : String
  text_ne : text ≠ ""
  deriving DecidableEq

/-- Text to look for; the empty text is refused. -/
def Fragment.of (text : String) : Except SyntaxError Fragment :=
  if h : text = "" then .error .emptyText else .ok ⟨text, h⟩

/-- Text to look for, where there is any. -/
def Fragment.ofOption : Option String → Except SyntaxError Fragment
  | some text => Fragment.of text
  | none => .error (.missing "text")

/-- A range of values with its ends, open at one side at most. -/
inductive Interval where
  | from (min : Literal)
  | upTo (max : Literal)
  | between (min max : Literal)
  deriving DecidableEq

namespace Interval

/-- The lower end. -/
def min? : Interval → Option Literal
  | .from min => some min
  | .upTo _ => none
  | .between min _ => some min

/-- The upper end. -/
def max? : Interval → Option Literal
  | .from _ => none
  | .upTo max => some max
  | .between _ max => some max

/-- The range between two ends, each of which may be left open, but not both. -/
def ofEnds? : Option Literal → Option Literal → Option Interval
  | none, none => none
  | some min, none => some (.from min)
  | none, some max => some (.upTo max)
  | some min, some max => some (.between min max)

theorem ofEnds?_min?_max? (i : Interval) : ofEnds? i.min? i.max? = some i := by cases i <;> rfl

end Interval

/-- What stands for a value in a filter. -/
inductive Expression where
  | literal (l : Literal)
  /-- Every value. -/
  | anything
  | oneOf (choices : List Expression)
  | contains (f : Fragment)
  | startsWith (f : Fragment)
  | endsWith (f : Fragment)
  | not (e : Expression)
  | or (left right : Expression)
  | range (i : Interval)

namespace Expression

/-- A text that stands for itself. -/
def constant (s : String) : Expression := .literal (.text s)

/-- The negation. A negation is taken away instead of negated again. -/
def negate : Expression → Expression
  | not e => e
  | e => not e

mutual

/-- Equality of expressions as a program. -/
def same : Expression → Expression → Bool
  | literal a, literal b => a == b
  | anything, anything => true
  | oneOf as, oneOf bs => sameList as bs
  | contains a, contains b => a == b
  | startsWith a, startsWith b => a == b
  | endsWith a, endsWith b => a == b
  | not a, not b => same a b
  | or a b, or c d => same a c && same b d
  | range a, range b => a == b
  | _, _ => false

/-- Equality of lists of expressions as a program. -/
def sameList : List Expression → List Expression → Bool
  | [], [] => true
  | a :: as, b :: bs => same a b && sameList as bs
  | _, _ => false

end

instance : BEq Expression := ⟨same⟩

mutual

theorem eq_of_same : ∀ {a b : Expression}, same a b = true → a = b
  | literal _, b, h | anything, b, h | contains _, b, h | startsWith _, b, h
  | endsWith _, b, h | range _, b, h => by
    cases b <;> simp_all [same]
  | oneOf as, b, h => by
    cases b <;> simp only [same, Bool.false_eq_true] at h
    rw [eq_of_sameList h]
  | not a, b, h => by
    cases b <;> simp only [same, Bool.false_eq_true] at h
    rw [eq_of_same h]
  | or l r, b, h => by
    cases b <;> simp only [same, Bool.false_eq_true, Bool.and_eq_true] at h
    rw [eq_of_same h.1, eq_of_same h.2]

theorem eq_of_sameList : ∀ {as bs : List Expression}, sameList as bs = true → as = bs
  | [], bs, h => by cases bs <;> simp_all [sameList]
  | a :: as, bs, h => by
    cases bs <;> simp only [sameList, Bool.false_eq_true, Bool.and_eq_true] at h
    rw [eq_of_same h.1, eq_of_sameList h.2]

end

mutual

theorem same_refl : ∀ a : Expression, same a a = true
  | literal _ | anything | contains _ | startsWith _ | endsWith _ | range _ => by simp [same]
  | oneOf as => by simp [same, sameList_refl as]
  | not a => by simp [same, same_refl a]
  | or l r => by simp [same, same_refl l, same_refl r]

theorem sameList_refl : ∀ as : List Expression, sameList as as = true
  | [] => rfl
  | a :: as => by simp [sameList, same_refl a, sameList_refl as]

end

instance : LawfulBEq Expression where
  eq_of_beq := eq_of_same
  rfl := same_refl _

instance : DecidableEq Expression := instDecidableEqOfLawfulBEq

end Expression

end Sift
