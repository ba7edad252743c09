import Sift.Scalar

/-!
# Shapes of types

Filters and sorts are matched with types whose members are known by name. Types may refer to each
other and to themselves, so a family of them is described at once.

* `FieldType`: what a member holds.
* `Shape`: a type by its members.
* `Schema`: a family of types with one at the root.
-/

namespace Sift

/-- What a member of one of `n` types holds. -/
inductive FieldType (n : Nat) where
  | scalar (kind : Kind)
  | object (type : Fin n)
  | list (element : FieldType n)
  deriving DecidableEq, Repr

namespace FieldType

variable {n : Nat}

/-- Whether a member holds a list. -/
def isList : FieldType n → Bool
  | list _ => true
  | _ => false

/-- What the innermost lists hold. -/
def innermost : FieldType n → FieldType n
  | list element => element.innermost
  | type => type

/-- The kind of the innermost values, if they are scalars. -/
def kind? (t : FieldType n) : Option Kind :=
  match t.innermost with
  | scalar kind => some kind
  | _ => none

/-- The type of the innermost values, if they are objects. -/
def object? (t : FieldType n) : Option (Fin n) :=
  match t.innermost with
  | object type => some type
  | _ => none

end FieldType

/-- A type by its name and its members. Of two members with one name the first counts. -/
structure Shape (n : Nat) where
  name : String
  members : List (String × FieldType n)

/-- What the member with a name holds. -/
def Shape.member? {n : Nat} (s : Shape n) (name : String) : Option (FieldType n) :=
  s.members.lookup name

/-- A family of types with one at the root. -/
structure Schema (n : Nat) where
  shape : Fin n → Shape n
  root : Fin n

namespace Schema

variable {n : Nat}

/-- The type at the root. -/
def rootShape (s : Schema n) : Shape n := s.shape s.root

/-- The name of a type in messages; lists have a pair of brackets behind it. -/
def typeName (s : Schema n) : FieldType n → String
  | .scalar kind => kind.name
  | .object type => (s.shape type).name
  | .list element => s.typeName element ++ "[]"

end Schema

end Sift
