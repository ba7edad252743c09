import Sift.Filter.Depth
import Sift.Filter.Grammar
import Sift.Filter.Node

/-!
# Reading filters

What the parts of a filter text mean.

* `Term.expression`, `Value.operand`: the meaning of values.
* `Phrase.node`: the meaning of a filter text.
* `Node.ofText`, `Operand.ofText`, `fieldNames`: the readers of filters, values and field paths.
-/

namespace Sift

/-- The depth to which brackets nest where nothing else is set. -/
def defaultDepth : Nat := 32

/-- The piece of text that a word stands for, if it is not empty. -/
def Word.fragment (w : Word) : Except SyntaxError Fragment := Fragment.of (String.ofList w.text)

/-- What a word stands for by itself. Quotes keep a date from being one. -/
def Word.literal : Word → Literal
  | bare cs => Literal.ofText cs
  | quoted inner => .text (String.ofList (Text.Quoted.unescape inner))

/-- The meaning of a word with asterisks around it. -/
def Pattern.expression (source : String) (span : Span) : Pattern → Except SyntaxError Expression
  | asterisk => .ok .anything
  | twoAsterisks => .error (.malformed source span .doubleAsterisk)
  | word true w true => Expression.contains <$> w.fragment
  | word true w false => Expression.endsWith <$> w.fragment
  | word false w true => Expression.startsWith <$> w.fragment
  | word false w false => .ok (.literal w.literal)

/-- The meaning of a range. One end at least has to be there. -/
def rangeExpression (source : String) (span : Span) (min max : Option Word) :
    Except SyntaxError Expression :=
  match Interval.ofEnds? (min.map Word.literal) (max.map Word.literal) with
  | some i => .ok (.range i)
  | none => .error (.malformed source span .openRange)

/-- Alternatives, combined from the left. -/
def alternative (first : Expression) (rest : List Expression) : Expression :=
  rest.foldl Expression.or first

mutual

/-- The meaning of a term. -/
def Term.expression (source : String) : Term → Except SyntaxError Expression
  | .negated t => Expression.negate <$> t.expression source
  | .group first rest => do
    let e ← first.expression source
    return alternative e (← Term.expressions source rest)
  | .oneOf first rest => do
    let e ← first.expression source
    return .oneOf (e :: (← Term.expressions source rest))
  | .range span min max => rangeExpression source span min max
  | .pattern span p => p.expression source span

/-- The meanings of several terms. -/
def Term.expressions (source : String) : List Term → Except SyntaxError (List Expression)
  | [] => return []
  | t :: rest => do
    let e ← t.expression source
    return e :: (← Term.expressions source rest)

end

/-- The word that a value is, if it is nothing more. -/
def Value.word? : Value → Option Word
  | ⟨.pattern _ (.word false w false), []⟩ => some w
  | _ => none

/-- What a text operator looks for. -/
def Operator.textExpression (op : Operator) (f : Fragment) : Expression :=
  match op.positive.1 with
  | startsWith => .startsWith f
  | endsWith => .endsWith f
  | _ => .contains f

/-- The meaning of a word behind an operator that looks for no text: a text, or null. -/
def Word.operand : Word → Operand
  | bare cs =>
    if Text.sameIgnoringCase cs ['n', 'u', 'l', 'l'] then .null else .string (String.ofList cs)
  | quoted inner => .string (String.ofList (Text.Quoted.unescape inner))

/-- The meaning of a value behind an operator. -/
def Value.operand (source : String) (op : Operator) (v : Value) : Except SyntaxError Operand :=
  match v.word? with
  | some w =>
    if op.isText then (fun f => .expression (op.textExpression f)) <$> w.fragment
    else .ok w.operand
  | none => do
    let e ← v.first.expression source
    return .expression (alternative e (← Term.expressions source v.rest))

/-- The filter that a comparison stands for. -/
def FieldPath.filter (source : String) (path : FieldPath) (op : Operator) (value : Option Value) :
    Except SyntaxError Filter :=
  match value with
  | none => .ok (.on path.written op .null)
  | some v => .on path.written op <$> v.operand source op

mutual

/-- The tree that a phrase stands for. -/
def Phrase.node (source : String) : Phrase → Except SyntaxError Node
  | .clause path op value => .leaf <$> path.filter source op value
  | .negated p => Node.negate <$> p.node source
  | .all first rest => do
    let n ← first.node source
    return .combine .and (n :: (← Phrase.nodes source rest))
  | .any first rest => do
    let n ← first.node source
    return .combine .or (n :: (← Phrase.nodes source rest))

/-- The trees that several phrases stand for. -/
def Phrase.nodes (source : String) : List Phrase → Except SyntaxError (List Node)
  | [] => return []
  | p :: rest => do
    let n ← p.node source
    return n :: (← Phrase.nodes source rest)

end

/-- What a scanner finds in a text. -/
def scanned {α : Type} (source : String) (p : Scan α) : Except SyntaxError (α × Nat) :=
  let outcome := p (Cursor.start source.toList)
  match outcome.found with
  | some (a, there) => .ok (a, there.offset)
  | none => .error (.malformed source ⟨outcome.reach, 0⟩ .grammar)

/-- What a scanner finds in a text, which has to end there. -/
def scannedWhole {α : Type} (source : String) (leftover : Fault) (p : Scan α) :
    Except SyntaxError α := do
  let (a, consumed) ← scanned source p
  if consumed = source.utf8ByteSize then return a
  throw (.malformed source ⟨consumed, source.utf8ByteSize - consumed⟩ leftover)

/-- A text without the blanks at its ends. -/
def trimmed (text : String) : String := String.ofList (Text.trim text.toList)

/-- The filter that a text stands for; a blank text accepts everything. -/
def Node.ofText (limit : Nat) (text : String) : Except SyntaxError Node := do
  checkDepth limit text
  let (phrase, _) ← scanned text (Grammar.input (text.length + 1))
  match phrase with
  | some p => p.node text
  | none => return .always

/-- The operand that a text stands for behind an operator. -/
def Operand.ofText (op : Operator) (text : String) : Except SyntaxError Operand := do
  let source := trimmed text
  checkDepth defaultDepth source
  let v ← scannedWhole source .afterValue (Grammar.value (source.length + 1))
  v.operand source op

/-- The member names that a field path consists of. -/
def fieldNames (path : String) : Except SyntaxError (List String) :=
  FieldPath.names <$> scannedWhole (trimmed path) .afterPath Grammar.field

end Sift
