import Sift.Filter.Phrase
import Sift.Filter.Written
import Sift.Scan

/-!
# The grammar of filter texts

    Firstname eq Bruce and (Height gt 180 or Nickname isnull)
    Henchman["Weapons"]["Name"] eq {stick,sword}
    Nickname neq !Bat*|*man

White space may stand between the parts of a rule, but not inside names, words and patterns.
Brackets are followed down to a given depth; a text cannot nest deeper than it is long.

* `Grammar.input`: a whole filter text, which may be blank.
* `Grammar.value`: what follows an operator.
* `Grammar.field`: the path of a field.
-/

namespace Sift.Grammar

open Scan

/-! ## Words -/

/-- A keyword, which ends where no name goes on. -/
def keyword (w : String) : Scan Unit := named do
  word w.toList
  notBefore Text.isWord

/-- The operators of a class. -/
def operator (accepts : Operator → Bool) : Scan Operator :=
  named (choose ((Operator.all.filter accepts).map fun op => do
    word op.token.toList
    notBefore Text.isWord
    return op))

/-- A name. -/
def identifier : Scan (List Char) := named do
  let first ← char Text.isWordStart
  let rest ← many (char Text.isWord)
  return first :: rest

/-- A character of a word without quotes. -/
def isBareChar (c : Char) : Bool := !Scan.isBlank c && !isSpecial c

/-- A word without quotes. -/
def bare : Scan (List Char) := named do
  let first ← char isBareChar
  let rest ← many (char isBareChar)
  return first :: rest

/-- A piece of quoted text: a character, or one kept by a backslash. -/
def quotedPiece : Scan (List Char) :=
  (do
    let c ← char fun c => c != '"' && c != '\\'
    return [c]) <|>
  (do
    exactly '\\'
    let c ← char fun _ => true
    return ['\\', c])

/-- The text between quotes. -/
def quotedInner : Scan (List Char) := named do
  let pieces ← many quotedPiece
  return pieces.flatten

/-- A quoted text. -/
def quoted : Scan (List Char) := named do
  exactly '"'
  let inner ← quotedInner
  exactly '"'
  return inner

/-- A word, quoted or not. -/
def literal : Scan Word := (Word.quoted <$> quoted) <|> (Word.bare <$> bare)

/-! ## Values -/

/-- An asterisk. -/
def star : Scan Unit := named (exactly '*')

/-- A word with an asterisk at either end, or an asterisk alone. -/
def pattern : Scan Pattern := named <|
  (do
    star
    let word ← optional literal
    let trailing ← optional star
    return match word with
      | some w => .word true w trailing.isSome
      | none => if trailing.isSome then .twoAsterisks else .asterisk) <|>
  (do
    let w ← literal
    let trailing ← optional star
    return .word false w trailing.isSome)

/-- An end of a range. -/
def bound : Scan (Option Word) := named <|
  (do
    star
    return none) <|> (some <$> literal)

/-- A range. -/
def range : Scan (Option Word × Option Word) := named do
  exactly '['
  let min ← spaced bound
  spaced (keyword "to")
  let max ← spaced bound
  spaced (exactly ']')
  return (min, max)

/-- A range or a pattern, with its place. -/
def simpleTerm : Scan Term :=
  (do
    let ((min, max), offset, length) ← withSpan range
    return .range ⟨offset, length⟩ min max) <|>
  (do
    let (p, offset, length) ← withSpan pattern
    return .pattern ⟨offset, length⟩ p)

/-- Terms with one of some marks between them. -/
def separated (mark : Char → Bool) (term : Scan Term) : Scan Value := do
  let first ← term
  blanks
  let rest ← manySpaced do
    let _ ← char mark
    spaced term
  return ⟨first, rest⟩

/-- Alternatives of terms. -/
def alternatives (term : Scan Term) : Scan Value := named (separated (· == '|') term)

/-- Alternatives in parentheses. -/
def group (term : Scan Term) : Scan Value := named do
  exactly '('
  let v ← spaced (alternatives term)
  spaced (exactly ')')
  return v

/-- A set of terms in braces. -/
def oneOf (term : Scan Term) : Scan Value := named do
  exactly '\x7b'
  let v ← spaced (separated (fun c => c == ',' || c == '|') term)
  spaced (exactly '\x7d')
  return v

/-- A term under as many negations as are written. -/
def negations : Nat → Term → Term
  | 0, t => t
  | n + 1, t => .negated (negations n t)

/-- A term with at most `depth` groups and sets around its innermost pieces. -/
def term : (depth : Nat) → Scan Term
  | 0 => fail
  | depth + 1 => named do
    let bangs ← manySpaced (named (exactly '!'))
    let t ← spaced <|
      (do
        let v ← group (term depth)
        return .group v.first v.rest) <|>
      (do
        let v ← oneOf (term depth)
        return .oneOf v.first v.rest) <|>
      simpleTerm
    return negations bangs.length t

/-- What follows an operator. -/
def value (depth : Nat) : Scan Value := alternatives (term depth)

/-! ## Filters -/

/-- A step of a path: a quoted name in brackets, or a name after a point. -/
def pathStep : Scan PathStep :=
  (do
    exactly '['
    let inner ← quoted
    exactly ']'
    return .bracketed inner) <|>
  (do
    exactly '.'
    let name ← identifier
    return .dotted name)

/-- The path of a field. -/
def field : Scan FieldPath := named do
  let first ← identifier
  let steps ← many pathStep
  return ⟨first, steps⟩

/-- A comparison of a field. -/
def clause (depth : Nat) : Scan Phrase := named do
  let path ← field
  spaced <|
    (do
      let op ← operator fun op => !op.requiresValue
      return .clause path op none) <|>
    (do
      let op ← operator Operator.requiresValue
      let v ← spaced (value depth)
      return .clause path op (some v))

/-- A phrase under as many negations as are written. -/
def phraseNegations : Nat → Phrase → Phrase
  | 0, p => p
  | n + 1, p => .negated (phraseNegations n p)

/-- Members with a keyword between them. -/
def joinedBy (w : String) (member : Scan Phrase) : Scan (Phrase × List Phrase) := do
  let first ← member
  blanks
  let rest ← manySpaced do
    keyword w
    spaced member
  return (first, rest)

/-- Conjunctions of members, combined by disjunction. -/
def disjunction (member : Scan Phrase) : Scan Phrase := named do
  let (first, rest) ← joinedBy "or" <| named do
    let (first, rest) ← joinedBy "and" member
    return .all first rest
  return .any first rest

/-- A member of a conjunction with at most `depth` parentheses around its innermost parts. -/
def member : (depth : Nat) → Scan Phrase
  | 0 => fail
  | depth + 1 => named do
    let nots ← manySpaced (keyword "not")
    let p ← spaced <|
      (do
        exactly '('
        let p ← spaced (disjunction (member depth))
        spaced (exactly ')')
        return p) <|>
      clause (depth + 1)
    return phraseNegations nots.length p

/-- A whole filter text; a blank one has no phrase. -/
def input (depth : Nat) : Scan (Option Phrase) := named do
  let p ← spaced (optional (disjunction (member depth)))
  spaced (named ending)
  return p

end Sift.Grammar
