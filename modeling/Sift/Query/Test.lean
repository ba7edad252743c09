import Sift.Query.Comparison

/-!
# Tests of values

A test says what is asked of a single value. All values that it compares with are of the kind that
the value is declared to have.

* `Test.holds`: whether a value passes.
-/

namespace Sift

/-- Where a piece of text has to stand. -/
inductive Placement where
  | anywhere
  | atStart
  | atEnd
  deriving DecidableEq, Repr

/-- Whether a text stands somewhere in another. -/
def occursIn (piece : List Char) : List Char → Bool
  | [] => piece.isEmpty
  | c :: rest => piece.isPrefixOf (c :: rest) || occursIn piece rest

/-- Whether a text stands at a place of another. -/
def Placement.holds (p : Placement) (piece whole : List Char) : Bool :=
  match p with
  | anywhere => occursIn piece whole
  | atStart => piece.isPrefixOf whole
  | atEnd => piece.isSuffixOf whole

/-- What is asked of a value. -/
inductive Test where
  | isNull
  | isPresent
  | isEmptyText
  | isEmptyList
  | equals (s : Scalar)
  | equalsSome (choices : List Scalar)
  | above (s : Scalar) (orEqual : Bool)
  | within (min max : Option Scalar)
  | text (place : Placement) (piece : String)
  | not (t : Test)
  | either (left right : Test)
  | any (tests : List Test)

namespace Test

/-- Whether an order, if there is one, is among some. -/
def ordered (accepted : Ordering → Bool) (o : Option Ordering) : Bool := o.elim false accepted

mutual

/-- Whether a value passes a test. -/
def holds (ignoreCase : Bool) : Test → FieldValue → Bool
  | isNull, v => v.isNull
  | isPresent, v => !v.isNull
  | isEmptyText, v =>
    match v with
    | .scalar (.string s) => s.isEmpty
    | _ => false
  | isEmptyList, v =>
    match v with
    | .list items => items.isEmpty
    | _ => false
  | equals s, v => v.equals ignoreCase (.scalar s)
  | equalsSome choices, v => choices.any fun s => v.equals ignoreCase (.scalar s)
  | above s orEqual, v =>
    ordered (fun o => o == .gt || (orEqual && o == .eq)) (v.compare? ignoreCase (.scalar s))
  | within min max, v =>
    !v.isNull && min.all (fun s => ordered (· != .lt) (v.compare? ignoreCase (.scalar s))) &&
      max.all (fun s => ordered (· != .gt) (v.compare? ignoreCase (.scalar s)))
  | text place piece, v =>
    match v with
    | .scalar (.string s) =>
      place.holds (folded ignoreCase piece).toList (folded ignoreCase s).toList
    | _ => false
  | not t, v => !t.holds ignoreCase v
  | either left right, v => left.holds ignoreCase v || right.holds ignoreCase v
  | any tests, v => anyHolds ignoreCase tests v

/-- Whether a value passes one of several tests. -/
def anyHolds (ignoreCase : Bool) : List Test → FieldValue → Bool
  | [], _ => false
  | t :: rest, v => t.holds ignoreCase v || anyHolds ignoreCase rest v

end

end Test

end Sift
