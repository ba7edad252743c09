import Sift.Query.FieldValue

/-!
# The values that a path reaches

* `FieldValue.elements`: a value without the lists around it.
* `Record.reached`: every value at the end of a path, of all elements of the lists before the end.
* `anyElement_eq_any`, `anyValue_eq_any`: a test holds of some element, or of some value at the end
  of a path, if it holds of one that is listed here.
-/

namespace Sift

namespace FieldValue

mutual

/-- The value itself, or the values in the list. Lists in lists are gone through as well. -/
def elements : FieldValue → List FieldValue
  | list items => elementsOf items
  | v => [v]

/-- The elements of several values. -/
def elementsOf : List FieldValue → List FieldValue
  | [] => []
  | v :: rest => v.elements ++ elementsOf rest

end

mutual

theorem anyElement_eq_any (test : FieldValue → Bool) :
    ∀ v : FieldValue, v.anyElement test = v.elements.any test
  | list items => by rw [anyElement, elements, anyElementOf_eq_any test items]
  | null | scalar _ | object _ => by simp [anyElement, elements]

theorem anyElementOf_eq_any (test : FieldValue → Bool) :
    ∀ items : List FieldValue, anyElementOf test items = (elementsOf items).any test
  | [] => rfl
  | v :: rest => by
    rw [anyElementOf, elementsOf, List.any_append, anyElement_eq_any test v,
      anyElementOf_eq_any test rest]

end

end FieldValue

namespace Record

/-- **Every value at the end of a path.** Of a list before the end all elements are gone through;
where one of them is no object, the end is null. -/
def reached : List String → Record → List FieldValue
  | [], _ => []
  | [name], r => [r.get name]
  | name :: next :: rest, r =>
    (r.get name).elements.flatMap fun
      | .object members => reached (next :: rest) members
      | _ => [.null]

/-- **A test holds of a value at the end of a path** if it holds of one that the path reaches. -/
theorem anyValue_eq_any (test : FieldValue → Bool) (names : List String) (r : Record) :
    r.anyValue test names = (r.reached names).any test := by
  fun_induction reached names r with
  | case1 => rfl
  | case2 name r => simp [anyValue]
  | case3 name next rest r ih =>
    rw [anyValue, FieldValue.anyObject, FieldValue.anyElement_eq_any, List.any_flatMap]
    congr 1
    funext v
    cases v with
    | object members => exact ih members
    | null | scalar _ | list _ => simp

end Record

end Sift
