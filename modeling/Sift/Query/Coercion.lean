import Sift.Filter.Node
import Sift.Query.Error
import Sift.Text.Case

/-!
# Reading operands as a kind

An operand is compared with values of a known kind, and has to be read as one of it first.

* `Literal.as?`: a literal of a value expression.
* `Operand.as`: any operand, or why it cannot be read.
-/

namespace Sift

/-- A date or time as a scalar. An instant that the calendar does not reach is a clock reading. -/
def Literal.temporalScalar? : Literal → Option Scalar
  | text _ => none
  | date d => some (.date d)
  | dateTime t none => some (.dateTime t)
  | dateTime t (some offset) =>
    match OffsetDateTime.of? t offset with
    | some instant => some (.offsetDateTime instant)
    | none => some (.dateTime t)

/-- A clock reading as a date or time of some kind. -/
def LocalDateTime.as? (t : LocalDateTime) : Kind → Option Scalar
  | .date => some (.date t.date)
  | .dateTime => some (.dateTime t)
  | .offsetDateTime => some (.offsetDateTime (.ofUtc t))
  | _ => none

/-- A date or time as another kind of date or time: a date is its first moment, a time without an
offset is UTC, and what is left out of an instant is what its clock does not show. -/
def Scalar.temporalAs? (s : Scalar) (kind : Kind) : Option Scalar :=
  match s with
  | date d => (LocalDateTime.atMidnight d).as? kind
  | dateTime t => t.as? kind
  | offsetDateTime t => if kind = .offsetDateTime then some s else t.clock.as? kind
  | _ => none

/-- A date or time as any kind. As a text it is written as it was. -/
def Literal.temporalAs? (l : Literal) (kind : Kind) : Option Scalar :=
  if kind = .string then some (.string (String.ofList l.written))
  else l.temporalScalar?.bind (·.temporalAs? kind)

/-- A truth value by its name, the case of letters aside. -/
def readBoolean? (cs : List Char) : Option Bool :=
  let word := Text.lower cs
  if word = ['t', 'r', 'u', 'e'] then some true
  else if word = ['f', 'a', 'l', 's', 'e'] then some false
  else none

/-- A text as a value of some kind. White space around it does not count, except in texts. -/
def readScalar? (s : String) : Kind → Option Scalar
  | .string => some (.string s)
  | .integer => (Number.readInt64? (Text.trim s.toList)).map .integer
  | .float => (Number.readFloat? .double (Text.trim s.toList)).map .float
  | .boolean => (readBoolean? (Text.trim s.toList)).map .boolean
  | kind => (Literal.temporal? (Text.trim s.toList)).bind (·.temporalAs? kind)

/-- A literal as a value of some kind. -/
def Literal.as? (l : Literal) (kind : Kind) : Option Scalar :=
  match l with
  | text s => readScalar? s kind
  | l => l.temporalAs? kind

/-- A scalar as a value of some kind. A float is an integer only where it is one exactly. -/
def Scalar.as? (s : Scalar) (kind : Kind) : Option Scalar :=
  match s, kind with
  | string s, kind => readScalar? s kind
  | s, .string => some (.string (String.ofList s.text))
  | integer i, .integer => some (.integer i)
  | integer i, .float => some (.float (Binary64.ofInt i.toInt))
  | float f, .integer => (f.toInt?.bind Number.toInt64?).map .integer
  | float f, .float => some (.float f)
  | boolean b, .boolean => some (.boolean b)
  | s, kind => s.temporalAs? kind

namespace Operand

/-- An operand as a value of some kind. Of expressions only literals are values. -/
def as? (kind : Kind) : Operand → Option Scalar
  | scalar s => s.as? kind
  | expression (.literal l) => l.as? kind
  | _ => none

/-- An operand as a value of some kind, or why it is none. -/
def as (kind : Kind) (operand : Operand) : Except Mismatch Scalar :=
  match operand.as? kind with
  | some s => .ok s
  | none =>
    .error (.unreadable (String.ofList (operand.text?.getD ['n', 'u', 'l', 'l'])) kind.name)

end Operand

end Sift
