import Sift.Filter.Expression
import Sift.Text.Ascii
import Sift.Text.Quoted

/-!
# How expressions are written

* `isPlainWord`: the words that stand for themselves without quotes.
* `wordText`: a text, in quotes where it needs them.
* `Expression.text`: the written form of an expression.
* `Expression.rangeOf`: a range between two expressions, which have to be literals.
-/

namespace Sift

/-- The characters with a meaning of their own in values. -/
def isSpecial (c : Char) : Bool :=
  ['*', '!', '|', '{', '}', '[', ']', '(', ')', ',', '"', '\\'].contains c

/-- The words with a meaning of their own. -/
def keywords : List String := ["and", "or", "not", "null", "to"]

/-- Whether a word is a keyword, the case of letters aside. -/
def isKeyword (cs : List Char) : Bool :=
  keywords.any fun k => Text.sameIgnoringCase k.toList cs

/-- Whether a text stands for itself without quotes. -/
def isPlainWord (cs : List Char) : Bool :=
  !cs.isEmpty && !cs.any (fun c => Text.isBlank c || isSpecial c) && !isKeyword cs &&
    (Literal.temporal? cs).isNone

/-- A text as a literal: bare where it reads back as itself, in quotes elsewhere. -/
def wordText (cs : List Char) : List Char :=
  if isPlainWord cs then cs else Text.Quoted.quote cs

/-- The written form of a literal. -/
def Literal.written : Literal → List Char
  | text s => wordText s.toList
  | date d => d.text
  | dateTime t offset => t.text ++ offset.elim [] UtcOffset.text

/-- An end of a range; an open one is an asterisk. -/
def Interval.endText (bound : Option Literal) : List Char := bound.elim ['*'] Literal.written

/-- The written form of a range. -/
def Interval.text (i : Interval) : List Char :=
  '[' :: endText i.min? ++ [' ', 'T', 'O', ' '] ++ endText i.max? ++ [']']

/-- The written form of text to look for. -/
def Fragment.word (f : Fragment) : List Char := wordText f.text.toList

namespace Expression

/-- An operand in parentheses if it is a disjunction. -/
def guarded : Expression → List Char → List Char
  | or _ _, text => '(' :: text ++ [')']
  | _, text => text

mutual

/-- The written form of an expression. -/
def text : Expression → List Char
  | literal l => l.written
  | anything => ['*']
  | oneOf choices => '{' :: listText choices ++ ['}']
  | contains f => '*' :: f.word ++ ['*']
  | startsWith f => f.word ++ ['*']
  | endsWith f => '*' :: f.word
  | not e => '!' :: guarded e e.text
  | or left right => left.text ++ '|' :: guarded right right.text
  | range i => i.text

/-- The choices of a set with commas between them. -/
def listText : List Expression → List Char
  | [] => []
  | [e] => e.text
  | e :: rest => e.text ++ ',' :: listText rest

end

/-- A literal as an end of a range. Other expressions have no place in an order. -/
def endOfRange : Expression → Except SyntaxError Literal
  | literal l => .ok l
  | e => .error (.outOfRange "bound"
      s!"`{String.ofList e.text}` cannot be used as a range bound")

/-- The range between two expressions, either of which may be absent. -/
def rangeOf (min max : Option Expression) : Except SyntaxError Expression := do
  let low ← min.mapM endOfRange
  let high ← max.mapM endOfRange
  match Interval.ofEnds? low high with
  | some i => return range i
  | none => throw (.missing "min/max")

end Expression

end Sift
