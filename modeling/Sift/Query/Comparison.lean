import Sift.Query.FieldValue
import Sift.Text.Case

/-!
# Comparing values

Integers and floats compare as doubles, instants in time, a date and a date-time by their dates.
Anything else compares with its own kind only, and a NaN with nothing.

* `Scalar.compare?`, `FieldValue.compare?`: the order of two values, if they have one.
-/

namespace Sift

/-- A text as it is compared: in lower case if the case of letters does not matter. -/
def folded (ignoreCase : Bool) (s : String) : String :=
  if ignoreCase then Text.lowerString s else s

/-- The order of two scalars, if they have one. -/
def Scalar.compare? (ignoreCase : Bool) : Scalar → Scalar → Option Ordering
  | string a, string b => some (compare (folded ignoreCase a) (folded ignoreCase b))
  | integer a, integer b => some (compare a.toInt b.toInt)
  | float a, float b => a.compare? b
  | integer a, float b => (Binary64.ofInt a.toInt).compare? b
  | float a, integer b => a.compare? (Binary64.ofInt b.toInt)
  | boolean a, boolean b => some (compare a b)
  | date a, date b => some (compare a b)
  | dateTime a, dateTime b => some (compare a b)
  | offsetDateTime a, offsetDateTime b => some (compare a b)
  | dateTime a, date b => some (compare a.date b)
  | date a, dateTime b => some (compare a b.date)
  | _, _ => none

namespace FieldValue

/-- The order of two values, if they have one. -/
def compare? (ignoreCase : Bool) : FieldValue → FieldValue → Option Ordering
  | scalar a, scalar b => a.compare? ignoreCase b
  | _, _ => none

/-- Whether two values are equal in their order. -/
def equals (ignoreCase : Bool) (a b : FieldValue) : Bool := a.compare? ignoreCase b == some .eq

end FieldValue

end Sift
