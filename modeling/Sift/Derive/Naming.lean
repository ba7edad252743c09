import Sift.Text.Case
import Sift.Text.Letter

/-!
# Names in other cases

A name is divided into words, and the words are put together again in the way of another case.

* `NameCase`: the ways of writing a name of several words.
* `NameCase.words`: the words of a name.
* `NameCase.apply`: a name in another case.
-/

namespace Sift

/-- The ways of writing a name of several words. -/
inductive NameCase where
  | pascal
  | camel
  | snake
  | screamingSnake
  | kebab
  | flat
  | upperFlat
  deriving DecidableEq, Repr

namespace NameCase

/-- All cases. -/
def all : List NameCase := [pascal, camel, snake, screamingSnake, kebab, flat, upperFlat]

/-- The name of a case, which is an example of it. -/
def token : NameCase → String
  | pascal => "PascalCase"
  | camel => "camelCase"
  | snake => "snake_case"
  | screamingSnake => "SCREAMING_SNAKE_CASE"
  | kebab => "kebab-case"
  | flat => "lowercase"
  | upperFlat => "UPPERCASE"

/-- The case with an exact name. -/
def ofToken? (s : String) : Option NameCase := all.find? fun c => c.token == s

end NameCase

namespace Letter

/-- Whether a letter has two forms. -/
def hasCase (l : Letter) : Bool := Text.upper l != Text.lower l

/-- Whether a letter is a capital. -/
def isUpper (l : Letter) : Bool := hasCase l && Text.upper l == l

/-- Whether a letter is a small one. -/
def isLower (l : Letter) : Bool := hasCase l && Text.lower l == l

/-- Whether a letter is a decimal digit. -/
def isDigit (l : Letter) : Bool := l.all Char.isDigit

/-- The letters that stand between words and belong to none. -/
def isSeparator (l : Letter) : Bool := l == ['_'] || l == ['-'] || l == [' ']

/-- Whether a word ends between two letters: where a capital follows a small letter, and at either
end of a number. -/
def dividesPair (l m : Letter) : Bool :=
  (isLower l && isUpper m) || (isUpper l && isDigit m) || (isDigit l && isUpper m) ||
    (isDigit l && isLower m) || (isLower l && isDigit m)

/-- Whether a word ends after the first of three letters: a run of capitals ends before its last
one if a small letter follows. -/
def dividesRun (l m n : Letter) : Bool := isUpper l && isUpper m && isLower n

end Letter

namespace NameCase

open Letter in
/-- The words in letters, `word` being the part of the first one, reversed, before them, and `last`
the letter before them. -/
def wordsFrom (word : List Letter) (last : Option Letter) : List Letter → List (List Letter)
  | [] => [word.reverse]
  | l :: rest =>
    let divided := last.any fun k =>
      dividesPair k l || rest.head?.any fun m => dividesRun k l m
    if isSeparator l then word.reverse :: wordsFrom [] (some l) rest
    else if divided then word.reverse :: wordsFrom [l] (some l) rest
    else wordsFrom (l :: word) (some l) rest

/-- The words of a name. -/
def words (name : List Char) : List (List Char) :=
  ((wordsFrom [] none (Letter.ofText name)).map List.flatten).filter (· ≠ [])

/-- A word with its first character in upper case and the rest in lower case. What is joined to the
first character belongs to the rest. -/
def capitalized : List Char → List Char
  | [] => []
  | c :: rest => Text.upperChar c ++ Text.lower rest

/-- A name in another case. -/
def apply (c : NameCase) (name : List Char) : List Char :=
  let ws := words name
  match c with
  | pascal => ws.flatMap capitalized
  | camel =>
    match ws with
    | [] => []
    | w :: rest => Text.lower w ++ rest.flatMap capitalized
  | snake => List.intercalate ['_'] (ws.map Text.lower)
  | screamingSnake => List.intercalate ['_'] (ws.map Text.upper)
  | kebab => List.intercalate ['-'] (ws.map Text.lower)
  | flat => ws.flatMap Text.lower
  | upperFlat => ws.flatMap Text.upper

end NameCase

end Sift
