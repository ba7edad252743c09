import Sift.Error
import Sift.Filter.Operator
import Sift.Text.Quoted

/-!
# Filter texts by their parts

The parts of a filter text as they stand in it, before it is decided what they mean.

* `Word`, `Pattern`, `Term`, `Value`: what may stand behind an operator.
* `FieldPath`: the names that lead to a field.
* `Phrase`: a whole filter text.
-/

namespace Sift

/-- A text in a value. -/
inductive Word where
  | bare (cs : List Char)
  | quoted (inner : List Char)
  deriving DecidableEq, Repr

/-- The text that a word stands for. -/
def Word.text : Word → List Char
  | bare cs => cs
  | quoted inner => Text.Quoted.unescape inner

/-- Asterisks alone, or a word with an asterisk before or behind it or at neither end. -/
inductive Pattern where
  | asterisk
  | twoAsterisks
  | word (leading : Bool) (w : Word) (trailing : Bool)
  deriving DecidableEq, Repr

/-- One piece of a value. Values are made of at least one; `Term.group` and `Term.oneOf` hold
their first piece apart. -/
inductive Term where
  | negated (t : Term)
  | group (first : Term) (rest : List Term)
  | oneOf (first : Term) (rest : List Term)
  /-- A range and its place. An end is absent where an asterisk leaves it open. -/
  | range (span : Span) (min max : Option Word)
  | pattern (span : Span) (p : Pattern)
  deriving Repr

/-- What follows an operator: alternatives, at least one. -/
structure Value where
  first : Term
  rest : List Term
  deriving Repr

/-- A step from a member to a member of it. -/
inductive PathStep where
  | dotted (name : List Char)
  | bracketed (inner : List Char)
  deriving DecidableEq, Repr

namespace PathStep

/-- The name of the member. -/
def name : PathStep → List Char
  | dotted name => name
  | bracketed inner => Text.Quoted.unescape inner

/-- The step as it stands in the text. -/
def written : PathStep → List Char
  | dotted name => '.' :: name
  | bracketed inner => '[' :: '"' :: inner ++ ['"', ']']

end PathStep

/-- The names that lead to a field. -/
structure FieldPath where
  first : List Char
  steps : List PathStep
  deriving DecidableEq, Repr

namespace FieldPath

/-- The names from the outside in. -/
def names (p : FieldPath) : List String :=
  String.ofList p.first :: p.steps.map fun s => String.ofList s.name

/-- The path as it stands in the text. -/
def written (p : FieldPath) : String :=
  String.ofList (p.first ++ p.steps.flatMap PathStep.written)

end FieldPath

/-- A filter text. Conjunctions and disjunctions hold their first member apart, and may have no
other. -/
inductive Phrase where
  | clause (field : FieldPath) (operator : Operator) (value : Option Value)
  | negated (p : Phrase)
  | all (first : Phrase) (rest : List Phrase)
  | any (first : Phrase) (rest : List Phrase)
  deriving Repr

end Sift
