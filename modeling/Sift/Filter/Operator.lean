import Sift.Error
import Sift.Text.Ascii

/-!
# Operators

* `Operator`: the comparisons of a filter.
* `Operator.invert`: the operator that accepts exactly the rest.
* `Operator.positive`: each pair of complements has one positive member, by which both are
  decided.
* `Operator.invert_invert`, `Operator.isNegation_invert`: the pairs.
-/

namespace Sift

/-- The comparisons of a filter. -/
inductive Operator where
  | eq
  | neq
  | gt
  | gte
  | lt
  | lte
  | startsWith
  | notStartsWith
  | endsWith
  | notEndsWith
  | contains
  | notContains
  | isNull
  | isNotNull
  | isEmpty
  | isNotEmpty
  deriving DecidableEq, Repr

namespace Operator

/-- All operators in their usual order. -/
def all : List Operator :=
  [eq, neq, gt, gte, lt, lte, startsWith, notStartsWith, endsWith, notEndsWith, contains,
    notContains, isNull, isNotNull, isEmpty, isNotEmpty]

/-- The word for an operator in filters and in JSON. -/
def token : Operator → String
  | eq => "eq"
  | neq => "neq"
  | gt => "gt"
  | gte => "gte"
  | lt => "lt"
  | lte => "lte"
  | startsWith => "startswith"
  | notStartsWith => "nstartswith"
  | endsWith => "endswith"
  | notEndsWith => "nendswith"
  | contains => "contains"
  | notContains => "ncontains"
  | isNull => "isnull"
  | isNotNull => "isnotnull"
  | isEmpty => "isempty"
  | isNotEmpty => "isnotempty"

/-- The operator that accepts exactly the rest. -/
def invert : Operator → Operator
  | eq => neq
  | neq => eq
  | gt => lte
  | lte => gt
  | gte => lt
  | lt => gte
  | startsWith => notStartsWith
  | notStartsWith => startsWith
  | endsWith => notEndsWith
  | notEndsWith => endsWith
  | contains => notContains
  | notContains => contains
  | isNull => isNotNull
  | isNotNull => isNull
  | isEmpty => isNotEmpty
  | isNotEmpty => isEmpty

/-- The negative member of each pair; `lt` and `lte` are the negations of `gte` and `gt`. -/
def isNegation : Operator → Bool
  | neq | lt | lte | notStartsWith | notEndsWith | notContains | isNotNull | isNotEmpty => true
  | _ => false

/-- The positive member of the pair, and whether a negation was taken away. -/
def positive (op : Operator) : Operator × Bool :=
  if op.isNegation then (op.invert, true) else (op, false)

/-- Whether a value follows the operator. -/
def requiresValue : Operator → Bool
  | isNull | isNotNull | isEmpty | isNotEmpty => false
  | _ => true

/-- The operators that look for a piece of text, in both polarities. -/
def isText : Operator → Bool
  | startsWith | notStartsWith | endsWith | notEndsWith | contains | notContains => true
  | _ => false

/-- The operator for a word, the case of letters aside. -/
def ofToken? (token : String) : Option Operator := all.find? fun op => Text.sameWord op.token token

/-- The operator for a word, or the refusal of the word. -/
def ofToken (token : String) : Except SyntaxError Operator :=
  match ofToken? token with
  | some op => .ok op
  | none => .error (.outOfRange "operator" s!"unknown operator `{token}`")

theorem invert_invert (op : Operator) : op.invert.invert = op := by cases op <;> rfl

/-- **One member of each pair of complements is a negation.** -/
theorem isNegation_invert (op : Operator) : op.invert.isNegation = !op.isNegation := by
  cases op <;> rfl

/-- Complements share their positive member and differ in the negation taken away. -/
theorem positive_invert (op : Operator) :
    op.invert.positive = (op.positive.1, !op.positive.2) := by cases op <;> rfl

end Operator

/-- How the members of a group are combined. -/
inductive Logic where
  | and
  | or
  deriving DecidableEq, Repr

namespace Logic

/-- The logic of the negated members. -/
def flip : Logic → Logic
  | and => or
  | or => and

/-- The word for a logic in filters and in JSON. -/
def token : Logic → String
  | and => "and"
  | or => "or"

theorem flip_flip (l : Logic) : l.flip.flip = l := by cases l <;> rfl

end Logic

end Sift
