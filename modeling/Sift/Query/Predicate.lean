import Sift.Query.Test

/-!
# Predicates

What is left of a filter once it is matched with a type: it cannot fail any more.

* `Predicate.accepts`: whether a record is accepted.
-/

namespace Sift

/-- A filter matched with a type. -/
inductive Predicate where
  | always
  /-- A test of the values at the end of a path. Where `lifted` is set, lists at the end are tested
  by their elements; where `negated` is set, no value may pass. -/
  | field (names : List String) (test : Test) (lifted negated : Bool)
  | all (members : List Predicate)
  | any (members : List Predicate)

namespace Predicate

/-- The test of a value at the end of a path. -/
def leafTest (ignoreCase lifted : Bool) (test : Test) (v : FieldValue) : Bool :=
  if lifted then v.anyElement (test.holds ignoreCase) else test.holds ignoreCase v

mutual

/-- Whether a record is accepted. -/
def accepts (ignoreCase : Bool) : Predicate → Record → Bool
  | always, _ => true
  | field names test lifted negated, r =>
    Record.anyValue (leafTest ignoreCase lifted test) names r != negated
  | all members, r => allAccept ignoreCase members r
  | any members, r => anyAccepts ignoreCase members r

/-- Whether all of several predicates accept a record. -/
def allAccept (ignoreCase : Bool) : List Predicate → Record → Bool
  | [], _ => true
  | p :: rest, r => p.accepts ignoreCase r && allAccept ignoreCase rest r

/-- Whether one of several predicates accepts a record. -/
def anyAccepts (ignoreCase : Bool) : List Predicate → Record → Bool
  | [], _ => false
  | p :: rest, r => p.accepts ignoreCase r || anyAccepts ignoreCase rest r

end

/-- The items whose records are accepted. -/
def filter {α : Type} (ignoreCase : Bool) (p : Predicate) (record : α → Record)
    (items : List α) : List α :=
  items.filter fun a => p.accepts ignoreCase (record a)

end Predicate

end Sift
