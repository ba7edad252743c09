import Sift.Calendar.Text
import Sift.Number.Layout

/-!
# Scalars

* `Kind`: the seven kinds of single values.
* `Scalar`: a value of one of them, with its kind.
* `Scalar.text`: how a scalar is written in a filter.
-/

namespace Sift

/-- The kinds of single values. -/
inductive Kind where
  | string
  | integer
  | float
  | boolean
  | date
  | dateTime
  | offsetDateTime
  deriving DecidableEq, Repr

namespace Kind

/-- The name of a kind in messages. -/
def name : Kind → String
  | string => "string"
  | integer => "integer"
  | float => "float"
  | boolean => "boolean"
  | date => "date"
  | dateTime => "date-time"
  | offsetDateTime => "date-time with offset"

/-- Whether values of the kind can be less or greater. Booleans cannot. -/
def isOrderable (k : Kind) : Bool := k != boolean

end Kind

/-- A single value. -/
inductive Scalar where
  | string (s : String)
  | integer (i : Int64)
  | float (f : Binary64)
  | boolean (b : Bool)
  | date (d : Date)
  | dateTime (t : LocalDateTime)
  | offsetDateTime (t : OffsetDateTime)
  deriving DecidableEq

namespace Scalar

/-- The kind of a value. -/
def kind : Scalar → Kind
  | string _ => .string
  | integer _ => .integer
  | float _ => .float
  | boolean _ => .boolean
  | date _ => .date
  | dateTime _ => .dateTime
  | offsetDateTime _ => .offsetDateTime

/-- A scalar as it is written in a filter. -/
def text : Scalar → List Char
  | string s => s.toList
  | integer i => Number.intText i.toInt
  | float f => Number.Layout.plain.text f
  | boolean b => if b then ['t', 'r', 'u', 'e'] else ['f', 'a', 'l', 's', 'e']
  | date d => d.text
  | dateTime t => t.text
  | offsetDateTime t => t.text

/-- The same value: a NaN is not the same as itself, and instants are the same on any clock. -/
def same : Scalar → Scalar → Bool
  | float a, float b => a.sameNumber b
  | offsetDateTime a, offsetDateTime b => a.utc == b.utc
  | a, b => a == b

end Scalar

end Sift
