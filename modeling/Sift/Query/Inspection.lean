import Sift.Query.FieldValue
import Sift.Text.Inspected

/-!
# Inspecting values

* `FieldValue.inspected`: a value as it is shown to the people who look after a program.
-/

namespace Sift

/-- A value in parentheses behind the name of its variant. -/
def variant (name : String) (inner : List Char) : List Char := name.toList ++ '(' :: inner ++ [')']

/-- A scalar with the name of its kind. -/
def Scalar.inspected : Scalar → List Char
  | string s => variant "Str" (Text.inspected s.toList)
  | integer i => variant "Int" (Number.intText i.toInt)
  | float f => variant "Float" (Number.Layout.inspected.text f)
  | boolean b => variant "Bool" (Scalar.boolean b).text
  | date d => variant "Date" d.text
  | dateTime t => variant "DateTime" t.text
  | offsetDateTime t => variant "DateTimeOffset" (t.clock.text ++ t.offset.text)

mutual

/-- A value with the name of its variant. -/
def FieldValue.inspected : FieldValue → List Char
  | .null => "Null".toList
  | .scalar s => s.inspected
  | .object _ => "Object(..)".toList
  | .list items => variant "List" ('[' :: FieldValue.inspectedItems items ++ [']'])

/-- The values of a list with commas between them. -/
def FieldValue.inspectedItems : List FieldValue → List Char
  | [] => []
  | [item] => item.inspected
  | item :: rest => item.inspected ++ ',' :: ' ' :: FieldValue.inspectedItems rest

end

end Sift
