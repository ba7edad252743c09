import Sift.Filter.Reading

/-!
# Reading filters by the rules of the grammar

The grammar names its rules, and what a rule reads is a node of a tree with the nodes of the rules
inside it as its children. What the children of a node are is not told by its type: whoever builds a
filter from such a tree has to look for the parts that should be there, and has a refusal ready for
each that might be missing.

* `Rule`, `Pair`: the rules of the grammar, and the trees of what they read.
* `RuleGrammar`: the grammar, rule by rule.
* `Pair.term`, `Pair.operand`, `Pair.filter`, `Pair.expression`: what is built from a tree.
* `RuleTree.readNode`, `RuleTree.readOperand`: the readers of filters and values by way of a tree.
-/

namespace Sift

/-- The rules of the grammar that make nodes. -/
inductive Rule where
  | input
  | expression
  | conjunction
  | unary
  | filter
  | kwOr
  | kwAnd
  | kwNot
  | kwTo
  | unaryOp
  | binaryOp
  | identifier
  | field
  | value
  | term
  | bang
  | group
  | oneOf
  | range
  | bound
  | pattern
  | star
  | bare
  | quoted
  | quotedInner
  | ending
  deriving DecidableEq, Repr

/-- What a rule has read: its place, its text and what the rules inside it have read. -/
inductive Pair where
  | node (rule : Rule) (span : Span) (text : List Char) (inner : List Pair)

namespace Pair

/-- The rule of a node. -/
def rule : Pair → Rule
  | node rule _ _ _ => rule

/-- The place of a node. -/
def span : Pair → Span
  | node _ span _ _ => span

/-- The text of a node. -/
def text : Pair → List Char
  | node _ _ text _ => text

/-- The children of a node. -/
def inner : Pair → List Pair
  | node _ _ _ inner => inner

end Pair

/-! ## The grammar -/

namespace RuleGrammar

open Scan

/-- What is read and makes no node. -/
def silent {α : Type} (p : Scan α) : Scan (List Pair) := do
  let _ ← p
  return []

/-- What is read as a node with the nodes inside it as its children. -/
def noded (r : Rule) (p : Scan (List Pair)) : Scan (List Pair) := fun here =>
  let outcome := p here
  { outcome with found := outcome.found.map fun (inner, there) =>
      let text := here.rest.take (here.rest.length - there.rest.length)
      ([.node r ⟨here.offset, there.offset - here.offset⟩ text inner], there) }

/-- What a rule reads as a node. -/
def rule (r : Rule) (p : Scan (List Pair)) : Scan (List Pair) := named (noded r p)

/-- What is read if it is there. -/
def perhaps (p : Scan (List Pair)) : Scan (List Pair) := p <|> pure []

/-- As many as there are. -/
def repeated (p : Scan (List Pair)) : Scan (List Pair) := do
  let pairs ← many p
  return pairs.flatten

/-- As many as there are, with white space between them. -/
def repeatedSpaced (p : Scan (List Pair)) : Scan (List Pair) := do
  let pairs ← manySpaced p
  return pairs.flatten

/-- A character that makes no node, after white space. -/
def mark (c : Char) : Scan (List Pair) := spaced (silent (exactly c))

/-! ### Words -/

/-- A keyword. -/
def keyword (r : Rule) (w : String) : Scan (List Pair) := rule r <| silent do
  word w.toList
  notBefore Text.isWord

/-- The first of some words, where no name goes on behind it. -/
def operator (r : Rule) (words : List String) : Scan (List Pair) := rule r <| silent do
  choose (words.map fun w => word w.toList)
  notBefore Text.isWord

/-- An operator without a value. -/
def unaryOp : Scan (List Pair) :=
  operator .unaryOp ["isnotnull", "isnotempty", "isnull", "isempty"]

/-- An operator with a value. A word stands before those that it begins with. -/
def binaryOp : Scan (List Pair) :=
  operator .binaryOp ["nstartswith", "startswith", "nendswith", "endswith", "ncontains", "contains",
    "neq", "eq", "gte", "gt", "lte", "lt"]

/-- A name. -/
def identifier : Scan (List Pair) := rule .identifier <| silent do
  let _ ← char Text.isWordStart
  many (char Text.isWord)

/-- A word without quotes. -/
def bare : Scan (List Pair) := rule .bare <| silent do
  let _ ← char Grammar.isBareChar
  many (char Grammar.isBareChar)

/-- The text between quotes. -/
def quotedInner : Scan (List Pair) := rule .quotedInner (silent (many Grammar.quotedPiece))

/-- A quoted text. -/
def quoted : Scan (List Pair) := rule .quoted do
  let a ← silent (exactly '"')
  let b ← quotedInner
  let c ← silent (exactly '"')
  return a ++ b ++ c

/-- A word, quoted or not. -/
def literal : Scan (List Pair) := quoted <|> bare

/-! ### Values -/

/-- An asterisk. -/
def star : Scan (List Pair) := rule .star (silent (exactly '*'))

/-- A word with asterisks around it, or an asterisk. -/
def pattern : Scan (List Pair) := rule .pattern <|
  (do
    let a ← star
    let b ← perhaps literal
    let c ← perhaps star
    return a ++ b ++ c) <|>
  (do
    let b ← literal
    let c ← perhaps star
    return b ++ c)

/-- An end of a range. -/
def bound : Scan (List Pair) := rule .bound (star <|> literal)

/-- A range. -/
def range : Scan (List Pair) := rule .range do
  let a ← silent (exactly '[')
  let b ← spaced bound
  let c ← spaced (keyword .kwTo "to")
  let d ← spaced bound
  let e ← mark ']'
  return a ++ b ++ c ++ d ++ e

/-- Terms with marks between them. -/
def separated (isMark : Char → Bool) (term : Scan (List Pair)) : Scan (List Pair) := do
  let a ← term
  blanks
  let b ← repeatedSpaced do
    let c ← silent (char isMark)
    let d ← spaced term
    return c ++ d
  return a ++ b

/-- Alternatives of terms. -/
def value (term : Scan (List Pair)) : Scan (List Pair) := rule .value (separated (· == '|') term)

/-- Alternatives in parentheses. -/
def group (term : Scan (List Pair)) : Scan (List Pair) := rule .group do
  let a ← silent (exactly '(')
  let b ← spaced (value term)
  let c ← mark ')'
  return a ++ b ++ c

/-- A set of terms in braces. -/
def oneOf (term : Scan (List Pair)) : Scan (List Pair) := rule .oneOf do
  let a ← silent (exactly '\x7b')
  let b ← spaced (separated (fun c => c == ',' || c == '|') term)
  let c ← mark '\x7d'
  return a ++ b ++ c

/-- A term with at most `depth` groups and sets around its innermost pieces. -/
def term : (depth : Nat) → Scan (List Pair)
  | 0 => fail
  | depth + 1 => rule .term do
    let a ← repeatedSpaced (rule .bang (silent (exactly '!')))
    let b ← spaced <| group (term depth) <|> oneOf (term depth) <|> range <|> pattern
    return a ++ b

/-! ### Filters -/

/-- A step of a path. -/
def pathStep : Scan (List Pair) :=
  (do
    let a ← silent (exactly '[')
    let b ← quoted
    let c ← silent (exactly ']')
    return a ++ b ++ c) <|>
  (do
    let a ← silent (exactly '.')
    let b ← identifier
    return a ++ b)

/-- The path of a field. -/
def field : Scan (List Pair) := rule .field do
  let a ← identifier
  let b ← repeated pathStep
  return a ++ b

/-- A comparison of a field. -/
def filter (depth : Nat) : Scan (List Pair) := rule .filter do
  let a ← field
  let b ← spaced <| unaryOp <|>
    (do
      let a ← binaryOp
      let b ← spaced (value (term depth))
      return a ++ b)
  return a ++ b

/-- Members with a keyword between them. -/
def joinedBy (r : Rule) (w : String) (member : Scan (List Pair)) : Scan (List Pair) := do
  let a ← member
  blanks
  let b ← repeatedSpaced do
    let c ← keyword r w
    let d ← spaced member
    return c ++ d
  return a ++ b

/-- Members combined by conjunction. -/
def conjunction (member : Scan (List Pair)) : Scan (List Pair) :=
  rule .conjunction (joinedBy .kwAnd "and" member)

/-- Conjunctions combined by disjunction. -/
def expression (member : Scan (List Pair)) : Scan (List Pair) :=
  rule .expression (joinedBy .kwOr "or" (conjunction member))

/-- A member of a conjunction with at most `depth` parentheses around its innermost parts. -/
def unary : (depth : Nat) → Scan (List Pair)
  | 0 => fail
  | depth + 1 => rule .unary do
    let a ← repeatedSpaced (keyword .kwNot "not")
    let b ← spaced <|
      (do
        let a ← silent (exactly '(')
        let b ← spaced (expression (unary depth))
        let c ← mark ')'
        return a ++ b ++ c) <|>
      filter (depth + 1)
    return a ++ b

/-- A whole filter text. -/
def input (depth : Nat) : Scan (List Pair) := rule .input do
  let a ← spaced (perhaps (expression (unary depth)))
  let b ← spaced (rule .ending (silent ending))
  return a ++ b

end RuleGrammar

/-! ## Building -/

/-- The refusal of a text in which something is expected that its tree does not have. -/
def SyntaxError.expected (source what : String) : SyntaxError :=
  .malformed source ⟨source.utf8ByteSize, 0⟩ (.other ("expected " ++ what))

/-- The refusal of the ends of a range. -/
def Fault.ofRange : SyntaxError → Fault
  | .missing "min/max" => .openRange
  | e => .other (e.message?.getD "")

namespace Pair

/-- A node that has to be there. -/
def required (source what : String) : Option Pair → Except SyntaxError Pair
  | some p => .ok p
  | none => .error (.expected source what)

/-- The refusal of a node. -/
def refusal (source : String) (p : Pair) (fault : Fault) : SyntaxError :=
  .malformed source p.span fault

/-! ### Words -/

/-- The text of a quoted text without its quotes. -/
def unquoted (p : Pair) : List Char :=
  match p.inner with
  | inner :: _ => Text.Quoted.unescape inner.text
  | [] => []

/-- The text that a word stands for, and whether it has no quotes. -/
def word? (p : Pair) : Option (List Char × Bool) :=
  match p.rule with
  | .quoted => some (p.unquoted, false)
  | .bare => some (p.text, true)
  | _ => none

/-- What is built from a word with asterisks around it. -/
def patternExpression (source : String) (p : Pair) : Except SyntaxError Expression :=
  let word := p.inner.findSome? word?
  let leading := p.inner.head?.any (·.rule == .star)
  let trailing := 1 < p.inner.length && p.inner.getLast?.any (·.rule == .star)
  match leading, word, trailing with
  | true, none, false => .ok .anything
  | true, none, true => .error (p.refusal source .doubleAsterisk)
  | false, some (cs, true), false => .ok (.literal (Literal.ofText cs))
  | false, some (cs, false), false => .ok (.constant (String.ofList cs))
  | true, some (cs, _), true => Expression.contains <$> Fragment.of (String.ofList cs)
  | false, some (cs, _), true => Expression.startsWith <$> Fragment.of (String.ofList cs)
  | true, some (cs, _), false => Expression.endsWith <$> Fragment.of (String.ofList cs)
  | false, none, _ => .error (p.refusal source (.other "expected a value"))

/-- What is built from an end of a range. -/
def boundExpression (source : String) (p : Pair) : Except SyntaxError (Option Expression) := do
  let inner ← required source "bound" p.inner.head?
  match inner.rule with
  | .star => return none
  | .quoted => return some (.constant (String.ofList inner.unquoted))
  | _ => return some (.literal (Literal.ofText inner.text))

/-- What is built from a range. -/
def rangeExpression (source : String) (p : Pair) : Except SyntaxError Expression := do
  let bounds := p.inner.filter (·.rule == .bound)
  let min ← (← required source "lower bound" bounds[0]?).boundExpression source
  let max ← (← required source "upper bound" bounds[1]?).boundExpression source
  (Expression.rangeOf min max).mapError fun e => p.refusal source (.ofRange e)

/-! ### Values -/

/-- An expression under as many negations as are counted. -/
def negatedTimes : Nat → Expression → Expression
  | 0, e => e
  | n + 1, e => (negatedTimes n e).negate

mutual

/-- What is built from a term: the last of its children that is no negation, under the negations. -/
def term (source : String) : Pair → Except SyntaxError Expression
  | node rule span text inner => do
    let (negations, e?) ← termParts source 0 none inner
    match e? with
    | some e => return negatedTimes negations e
    | none => throw ((node rule span text inner).refusal source (.other "expected a value"))

/-- The negations and the last other child among some children of a term, with what has been found
before them. -/
def termParts (source : String) (negations : Nat) (e? : Option Expression) :
    List Pair → Except SyntaxError (Nat × Option Expression)
  | [] => .ok (negations, e?)
  | p :: rest =>
    match p.rule with
    | .bang => termParts source (negations + 1) e? rest
    | .group => do
      let e ← groupExpression source p
      termParts source negations (some e) rest
    | .oneOf => do
      let e ← setExpression source p
      termParts source negations (some e) rest
    | .range => do
      let e ← p.rangeExpression source
      termParts source negations (some e) rest
    | .pattern => do
      let e ← p.patternExpression source
      termParts source negations (some e) rest
    | _ => termParts source negations e? rest

/-- What is built from alternatives in parentheses. -/
def groupExpression (source : String) : Pair → Except SyntaxError Expression
  | node _ _ _ (v :: _) => valueExpression source v
  | node _ _ _ [] => .error (.expected source "value")

/-- What is built from a set. -/
def setExpression (source : String) : Pair → Except SyntaxError Expression
  | node _ _ _ inner => Expression.oneOf <$> terms source inner

/-- What is built from several terms. -/
def terms (source : String) : List Pair → Except SyntaxError (List Expression)
  | [] => return []
  | p :: rest => do
    let e ← term source p
    return e :: (← terms source rest)

/-- What is built from alternatives. -/
def valueExpression (source : String) : Pair → Except SyntaxError Expression
  | node _ _ _ (first :: rest) => do
    let e ← term source first
    alternatives source e rest
  | node _ _ _ [] => .error (.expected source "value")

/-- Alternatives, combined from the left with what stands before them. -/
def alternatives (source : String) (left : Expression) : List Pair → Except SyntaxError Expression
  | [] => .ok left
  | p :: rest => do
    let e ← term source p
    alternatives source (.or left e) rest

end

/-- The text of a term that is a single word with nothing around it, and whether it has no
quotes. -/
def simpleTerm? (term : Pair) : Option (List Char × Bool) :=
  match term.inner with
  | pattern :: _ =>
    if pattern.rule = .pattern then
      match pattern.inner with
      | [literal] => literal.word?
      | _ => none
    else none
  | [] => none

/-- The text of a value that is a single such term. -/
def simpleLiteral? (value : Pair) : Option (List Char × Bool) :=
  match value.inner with
  | [term] => term.simpleTerm?
  | _ => none

/-- What is built from a value behind an operator. -/
def operand (source : String) (op : Operator) (value : Pair) : Except SyntaxError Operand :=
  match value.simpleLiteral? with
  | some (cs, isBare) =>
    if op.isText then
      (fun f => .expression (op.textExpression f)) <$> Fragment.of (String.ofList cs)
    else if isBare && Text.sameIgnoringCase cs ['n', 'u', 'l', 'l'] then .ok .null
    else .ok (.string (String.ofList cs))
  | none => .expression <$> value.valueExpression source

/-! ### Filters -/

/-- The operator of a node. -/
def operator (source : String) (p : Pair) : Except SyntaxError Operator :=
  match Operator.ofToken? (String.ofList p.text) with
  | some op => .ok op
  | none =>
    .error (p.refusal source (.other ("unknown operator `" ++ String.ofList p.text ++ "`")))

/-- What is built from a comparison. -/
def filter (source : String) (p : Pair) : Except SyntaxError Node := do
  let field ← required source "field" p.inner[0]?
  let word ← required source "operator" p.inner[1]?
  let op ← word.operator source
  let operand ← match p.inner[2]? with
    | some value => value.operand source op
    | none => .ok .null
  return .leaf (.on (String.ofList field.text) op operand)

/-- A tree under as many negations as are counted. -/
def negatedNode : Nat → Node → Node
  | 0, n => n
  | k + 1, n => (negatedNode k n).negate

mutual

/-- What is built from a disjunction. -/
def expression (source : String) : Pair → Except SyntaxError Node
  | node _ _ _ inner => Node.combine .or <$> conjunctions source inner

/-- What is built from the conjunctions among some children. -/
def conjunctions (source : String) : List Pair → Except SyntaxError (List Node)
  | [] => return []
  | p :: rest =>
    if p.rule = .conjunction then do
      let n ← conjunction source p
      return n :: (← conjunctions source rest)
    else conjunctions source rest

/-- What is built from a conjunction. -/
def conjunction (source : String) : Pair → Except SyntaxError Node
  | node _ _ _ inner => Node.combine .and <$> unaries source inner

/-- What is built from the members among some children. -/
def unaries (source : String) : List Pair → Except SyntaxError (List Node)
  | [] => return []
  | p :: rest =>
    if p.rule = .unary then do
      let n ← unary source p
      return n :: (← unaries source rest)
    else unaries source rest

/-- What is built from a member: the last of its children that is no negation, under the
negations. -/
def unary (source : String) : Pair → Except SyntaxError Node
  | node rule span text inner => do
    let (negations, n?) ← unaryParts source 0 none inner
    match n? with
    | some n => return negatedNode negations n
    | none => throw ((node rule span text inner).refusal source (.other "expected a filter"))

/-- The negations and the last other child among some children of a member, with what has been found
before them. -/
def unaryParts (source : String) (negations : Nat) (n? : Option Node) :
    List Pair → Except SyntaxError (Nat × Option Node)
  | [] => .ok (negations, n?)
  | p :: rest =>
    match p.rule with
    | .kwNot => unaryParts source (negations + 1) n? rest
    | .expression => do
      let n ← expression source p
      unaryParts source negations (some n) rest
    | .filter => do
      let n ← p.filter source
      unaryParts source negations (some n) rest
    | _ => unaryParts source negations n? rest

end

/-- What is built from a whole text; a blank one accepts everything. -/
def input (source : String) (p : Pair) : Except SyntaxError Node :=
  match p.inner.find? (·.rule == .expression) with
  | some p => p.expression source
  | none => .ok .always

end Pair

/-! ## Readers -/

namespace RuleTree

/-- The filter that a text stands for, by way of its tree. -/
def readNode (limit : Nat) (text : String) : Except SyntaxError Node := do
  checkDepth limit text
  let (pairs, _) ← scanned text (RuleGrammar.input (text.length + 1))
  let root ← Pair.required text "filter" pairs.head?
  root.input text

/-- The operand that a text stands for behind an operator, by way of its tree. -/
def readOperand (op : Operator) (text : String) : Except SyntaxError Operand := do
  let source := trimmed text
  checkDepth defaultDepth source
  let (pairs, _) ← scanned source (RuleGrammar.value (RuleGrammar.term (source.length + 1)))
  match pairs.head? with
  | none => throw (.malformed source ⟨0, source.utf8ByteSize⟩ (.other "expected a value"))
  | some value =>
    let consumed := (String.ofList value.text).utf8ByteSize
    if consumed ≠ source.utf8ByteSize then
      throw (.malformed source ⟨consumed, source.utf8ByteSize - consumed⟩ .afterValue)
    value.operand source op

end RuleTree

end Sift
