import Sift.Query.Coercion
import Sift.Query.Path
import Sift.Query.Predicate

/-!
# Matching filters with types

Every path is resolved and every operand read as the kind of its field before the first record is
looked at.

* `expressionTest`: the test that an expression stands for.
* `operatorTest`: the test that an operator and an operand stand for.
* `Schema.compile`: the predicate that a filter tree stands for.
-/

namespace Sift

/-- A piece of text to look for, which must not be empty. -/
def textTest (field : String) (place : Placement) (piece : List Char) : Except QueryError Test :=
  match Fragment.of (String.ofList piece) with
  | .ok f => .ok (.text place f.text)
  | .error e => .error ((QueryError.ofSyntaxError e).withField field)

/-- The refusal of a field or an operand that an operator does not go with. -/
def refuse {α : Type} (field : String) (m : Mismatch) : Except QueryError α :=
  .error (.mismatch field m)

/-- A literal as a value of the field's kind. -/
def literalValue (field : String) (kind : Kind) (l : Literal) : Except QueryError Scalar :=
  match l.as? kind with
  | some s => .ok s
  | none => refuse field (.unreadable (String.ofList l.written) kind.name)

/-- An operand as a value of the field's kind. -/
def operandValue (field : String) (kind : Kind) (operand : Operand) : Except QueryError Scalar :=
  match operand.as kind with
  | .ok s => .ok s
  | .error m => refuse field m

/-- The text of a literal, where its parts are looked for. -/
def Literal.plainText : Literal → List Char
  | text s => s.toList
  | l => l.written

/-- A pattern, which only texts can follow. -/
def patternTest (field : String) (kind : Kind) (pattern : Expression) (place : Placement)
    (f : Fragment) : Except QueryError Test :=
  if kind = .string then textTest field place f.text.toList
  else refuse field (.patternOnText (String.ofList pattern.text) kind.name)

/-- A range of values of the field's kind. -/
def rangeTest (field : String) (kind : Kind) (i : Interval) : Except QueryError Test := do
  if !kind.isOrderable then refuse field (.unordered kind.name)
  let min ← i.min?.mapM (literalValue field kind)
  let max ← i.max?.mapM (literalValue field kind)
  return .within min max

mutual

/-- The test that an expression stands for. Where a text operator stands before it, its literals
are pieces of text; elsewhere they are values. -/
def expressionTest (field : String) (kind : Kind) (place : Option Placement) :
    Expression → Except QueryError Test
  | .anything => return .isPresent
  | .literal l =>
    match place with
    | some p => textTest field p l.plainText
    | none => .equals <$> literalValue field kind l
  | .contains f => patternTest field kind (.contains f) .anywhere f
  | .startsWith f => patternTest field kind (.startsWith f) .atStart f
  | .endsWith f => patternTest field kind (.endsWith f) .atEnd f
  | .oneOf choices => .any <$> expressionTests field kind place choices
  | .not e => .not <$> expressionTest field kind place e
  | .or left right => do
    let l ← expressionTest field kind place left
    return .either l (← expressionTest field kind place right)
  | .range i => rangeTest field kind i

/-- The tests that several expressions stand for. -/
def expressionTests (field : String) (kind : Kind) (place : Option Placement) :
    List Expression → Except QueryError (List Test)
  | [] => return []
  | e :: rest => do
    let t ← expressionTest field kind place e
    return t :: (← expressionTests field kind place rest)

end

/-- Equality with an operand. -/
def equalityTest (field : String) (kind : Kind) : Operand → Except QueryError Test
  | .expression e => expressionTest field kind none e
  | .list items => .equalsSome <$> items.mapM (operandValue field kind)
  | operand => .equals <$> operandValue field kind operand

/-- The test that a text operator and an operand stand for. -/
def placedTest (field : String) (place : Placement) : Operand → Except QueryError Test
  | .null => .error ((QueryError.missing "value").withField field)
  | .expression e => expressionTest field .string (some place) e
  | .list items =>
    .any <$> items.mapM fun item => textTest field place (item.text?.getD [])
  | .scalar s => textTest field place s.text

/-- The kind of the values of a field, which must not be objects. -/
def comparedKind {n : Nat} (s : Schema n) (field : String) (type : FieldType n) :
    Except QueryError Kind :=
  match type.kind? with
  | some kind => .ok kind
  | none => refuse field (.notScalar (s.typeName type))

/-- The test that an ordering operator and an operand stand for. -/
def orderTest {n : Nat} (s : Schema n) (field : String) (type : FieldType n) (orEqual : Bool)
    (operand : Operand) : Except QueryError Test := do
  let kind ← comparedKind s field type
  if !kind.isOrderable then refuse field (.unordered kind.name)
  if operand.isNull then throw ((QueryError.missing "value").withField field)
  return .above (← operandValue field kind operand) orEqual

/-- The test that a positive operator and an operand stand for. -/
def operatorTest {n : Nat} (s : Schema n) (field : String) (type : FieldType n) (op : Operator)
    (operand : Operand) : Except QueryError Test :=
  let text (place : Placement) : Except QueryError Test :=
    if type.kind? = some .string then placedTest field place operand
    else refuse field (.notText op.token (s.typeName type))
  match op with
  | .isNull => .ok .isNull
  | .isEmpty =>
    if type.isList then .ok .isEmptyList
    else if type.kind? = some .string then .ok .isEmptyText
    else refuse field (.neverEmpty (s.typeName type))
  | .eq =>
    if operand.isNull then .ok .isNull
    else do equalityTest field (← comparedKind s field type) operand
  | .gt => orderTest s field type false operand
  | .gte => orderTest s field type true operand
  | .contains => text .anywhere
  | .startsWith => text .atStart
  | .endsWith => text .atEnd
  | op => .error { cause := .internal s!"`{op.token}` must be compiled through its positive form" }

/-- Whether an operator looks at the elements of a list, and not at the list itself. -/
def Operator.looksInside : Operator → Bool
  | isNull | isEmpty => false
  | _ => true

namespace Schema

variable {n : Nat}

/-- The predicate that a filter stands for. -/
def compileFilter (s : Schema n) (f : Filter) : Except QueryError Predicate :=
  match f.path? with
  | none => .ok .always
  | some path => do
    let segments ← s.resolve path
    match segments.getLast? with
    | none => throw { cause := .internal s!"`{path}` resolved to an empty path" }
    | some leaf =>
      let (op, negated) := f.operator.positive
      let test ← (operatorTest s path leaf.type op f.operand).mapError
        (·.withType s.rootShape.name)
      return .field (segments.map (·.name)) test (leaf.type.isList && op.looksInside) negated

mutual

/-- The predicate that a filter tree stands for. -/
def compile (s : Schema n) : Node → Except QueryError Predicate
  | .leaf f => s.compileFilter f
  | .group _ .and members => .all <$> s.compileAll members
  | .group _ .or members => .any <$> s.compileAll members

/-- The predicates that several filter trees stand for. -/
def compileAll (s : Schema n) : List Node → Except QueryError (List Predicate)
  | [] => return []
  | node :: rest => do
    let p ← s.compile node
    return p :: (← s.compileAll rest)

end

/-- The predicate of a filter tree that may be missing, which is refused. -/
def compileOptional (s : Schema n) : Option Node → Except QueryError Predicate
  | some node => s.compile node
  | none => .error (.missing "filter")

/-- The predicate that a filter text stands for. -/
def compileText (s : Schema n) (text : String) : Except QueryError Predicate := do
  s.compile (← (Node.ofText defaultDepth text).mapError .ofSyntaxError)

end Schema

end Sift
