import Sift.Query.Comparison
import Sift.Query.Path
import Sift.Sorting.Basic

/-!
# Matching sorts with types

* `Schema.compileSort`: the order that a sort stands for.
* `RecordOrder.compare`: the order of two records: the first key on which they differ decides.
* `RecordOrder.sort`: items in the order of their records; those equal in it keep their places.
-/

namespace Sift

/-- A single value by which records are ordered. -/
structure OrderKey where
  names : List String
  direction : Direction
  deriving DecidableEq, Repr

/-- A sort matched with a type. -/
structure RecordOrder where
  keys : List OrderKey
  ignoreCase : Bool
  deriving DecidableEq, Repr

namespace Schema

variable {n : Nat}

/-- Whether a path ends at a single scalar and goes through no list. -/
def isSortable (segments : List (PathSegment n)) : Bool :=
  !hasProjection segments && (segments.getLast?.bind (·.type.kind?)).isSome

/-- The key that a sort key stands for. Only single scalars can be sorted by. -/
def compileKey (s : Schema n) (k : SortKey) : Except QueryError OrderKey := do
  let segments ← s.resolve k.field
  if isSortable segments then return ⟨segments.map (·.name), k.direction⟩
  let typeName := segments.getLast?.elim "" fun leaf => s.typeName leaf.type
  throw ((QueryError.mismatch k.field (.unsortable typeName)).withType s.rootShape.name)

/-- The order that a sort stands for. -/
def compileSort (s : Schema n) (ignoreCase : Bool) (sorting : Sorting) :
    Except QueryError RecordOrder := do
  return ⟨← sorting.keys.mapM s.compileKey, ignoreCase⟩

end Schema

/-- A value as it is sorted by: a NaN counts as null. -/
def FieldValue.sortValue : FieldValue → FieldValue
  | .scalar (.float .nan) => .null
  | v => v

/-- The order of two values on an ascending key: null first, and values without an order are
equal. -/
def FieldValue.sortCompare (ignoreCase : Bool) (a b : FieldValue) : Ordering :=
  match a.isNull, b.isNull with
  | true, true => .eq
  | true, false => .lt
  | false, true => .gt
  | false, false => (a.compare? ignoreCase b).getD .eq

/-- An order in a direction. -/
def Direction.apply : Direction → Ordering → Ordering
  | ascending, o => o
  | descending, o => o.swap

/-- The order of two records on one key. -/
def OrderKey.compare (ignoreCase : Bool) (k : OrderKey) (a b : Record) : Ordering :=
  k.direction.apply <| FieldValue.sortCompare ignoreCase
    (Record.singleValue k.names a).sortValue (Record.singleValue k.names b).sortValue

namespace RecordOrder

/-- The order of two records. -/
def compare (o : RecordOrder) (a b : Record) : Ordering :=
  o.keys.foldr (fun k later => (k.compare o.ignoreCase a b).then later) .eq

/-- Items in the order of their records. -/
def sort {α : Type} (o : RecordOrder) (record : α → Record) (items : List α) : List α :=
  items.mergeSort fun a b => o.compare (record a) (record b) != .gt

end RecordOrder

end Sift
