import Sift.Json.Basic

/-!
# Sorts

* `Direction`: smallest first or last.
* `SortKey`: a field and a direction.
* `Sorting`: a single key, or several by precedence.
* `Sorting.reverse_reverse`: reversing every direction twice gives the sort back.
-/

namespace Sift

/-- Which end comes first. -/
inductive Direction where
  | ascending
  | descending
  deriving DecidableEq, Repr

namespace Direction

/-- The other direction. -/
def reverse : Direction → Direction
  | ascending => descending
  | descending => ascending

/-- The sign of a direction in sort texts. -/
def sign : Direction → String
  | ascending => ""
  | descending => "-"

/-- The word for a direction in JSON. -/
def token : Direction → String
  | ascending => "ascending"
  | descending => "descending"

/-- The word for a direction in queries. -/
def keyword : Direction → String
  | ascending => "ASC"
  | descending => "DESC"

theorem reverse_reverse (d : Direction) : d.reverse.reverse = d := by cases d <;> rfl

end Direction

/-- A field and the direction in which it is sorted. -/
structure SortKey where
  field : String
  direction : Direction
  deriving DecidableEq, Repr

namespace SortKey

/-- The same field in the other direction. -/
def reverse (k : SortKey) : SortKey := { k with direction := k.direction.reverse }

/-- A key in a sort text. -/
def text (k : SortKey) : String := k.direction.sign ++ k.field

/-- A key for a query. -/
def queryText (k : SortKey) : String := k.field ++ " " ++ k.direction.keyword

/-- The stored form of a key. -/
def json (k : SortKey) : Json :=
  .object [("field", .string k.field), ("direction", .string k.direction.token)]

theorem reverse_reverse (k : SortKey) : k.reverse.reverse = k := by
  simp [reverse, Direction.reverse_reverse]

end SortKey

/-- A single key, or several of which the earlier ones take precedence. -/
inductive Sorting where
  | single (key : SortKey)
  | several (keys : List SortKey)
  deriving DecidableEq, Repr

namespace Sorting

/-- The keys by precedence. -/
def keys : Sorting → List SortKey
  | single key => [key]
  | several keys => keys

/-- The sort with these keys. -/
def ofKeys : List SortKey → Sorting
  | [key] => .single key
  | keys => .several keys

/-- The sort with every direction reversed. -/
def reverse : Sorting → Sorting
  | single key => .single key.reverse
  | several keys => .several (keys.map SortKey.reverse)

/-- The text of a sort. -/
def text (s : Sorting) : String := ",".intercalate (s.keys.map SortKey.text)

/-- The stored form of a sort. -/
def json : Sorting → Json
  | single key => key.json
  | several keys => .array (keys.map SortKey.json)

theorem reverse_reverse (s : Sorting) : s.reverse.reverse = s := by
  cases s <;> simp [reverse, Function.comp_def, SortKey.reverse_reverse]

end Sorting

end Sift
