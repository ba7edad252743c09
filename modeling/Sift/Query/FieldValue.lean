import Sift.Scalar

/-!
# Values of members

* `FieldValue`: what a member holds at run time, whatever its type says.
* `Record`: an object by its members; a member that it does not have is null.
-/

namespace Sift

/-- What a member holds. -/
inductive FieldValue where
  | null
  | scalar (s : Scalar)
  | object (members : List (String × FieldValue))
  | list (items : List FieldValue)

/-- An object by its members. -/
abbrev Record := List (String × FieldValue)

/-- The value of a member, null where the object has none of the name. -/
def Record.get (r : Record) (name : String) : FieldValue := (List.lookup name r).getD .null

namespace FieldValue

/-- Whether there is no value. -/
def isNull : FieldValue → Bool
  | null => true
  | _ => false

mutual

/-- Whether a test holds of the value, or of some value in the list. Lists in lists are gone
through as well. -/
def anyElement (test : FieldValue → Bool) : FieldValue → Bool
  | list items => anyElementOf test items
  | v => test v

/-- `anyElement` over several values. -/
def anyElementOf (test : FieldValue → Bool) : List FieldValue → Bool
  | [] => false
  | v :: rest => v.anyElement test || anyElementOf test rest

end

/-- Whether a test holds of the object, or of some object in the list; a value that is no object
has `otherwise` for an answer. -/
def anyObject (test : Record → Bool) (otherwise : Bool) (v : FieldValue) : Bool :=
  v.anyElement fun
    | object members => test members
    | _ => otherwise

end FieldValue

/-- Whether a test holds of a value at the end of a path. Of the lists before the end any element
will do; where an object is missing on the way, the end is null. -/
def Record.anyValue (test : FieldValue → Bool) : List String → Record → Bool
  | [], _ => false
  | [name], r => test (r.get name)
  | name :: next :: rest, r =>
    (r.get name).anyObject (Record.anyValue test (next :: rest)) (test .null)

/-- The value at the end of a path without lists; null where an object is missing on the way. -/
def Record.singleValue : List String → Record → FieldValue
  | [], _ => .null
  | [name], r => r.get name
  | name :: next :: rest, r =>
    match r.get name with
    | .object members => Record.singleValue (next :: rest) members
    | _ => .null

end Sift
