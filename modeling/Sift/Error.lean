/-!
# Errors in filter texts, sort texts and settings

* `Span`: a piece of a text, in bytes.
* `Fault`: what is wrong at a place of a text.
* `SyntaxError`: why a text, or a value made for one, is refused; `SyntaxError.message` words it.
-/

namespace Sift

/-- A piece of a text: where it begins and how long it is, in bytes. -/
structure Span where
  offset : Nat
  length : Nat
  deriving DecidableEq, Repr

/-- What is wrong at a place of a text. -/
inductive Fault where
  /-- No rule of the grammar goes on from here. -/
  | grammar
  /-- Brackets are nested deeper than the limit. -/
  | tooDeep (limit : Nat)
  /-- A value ends before its text does. -/
  | afterValue
  /-- A field path ends before its text does. -/
  | afterPath
  /-- Two asterisks with nothing between them. -/
  | doubleAsterisk
  /-- A range that is open at both ends. -/
  | openRange
  /-- A problem told in words. -/
  | other (message : String)
  deriving DecidableEq, Repr

/-- The wording of a missing argument. -/
def missingMessage (argument : String) : String := s!"`{argument}` must not be null"

/-- The wording of a fault. A grammar failure has none: its place is all there is to tell. -/
def Fault.message? : Fault → Option String
  | grammar => none
  | tooDeep limit => some s!"nesting exceeds the maximum depth of {limit}"
  | afterValue => some "unexpected characters after value"
  | afterPath => some "unexpected characters in field path"
  | doubleAsterisk => some "`**` is not a valid pattern"
  | openRange => some (missingMessage "min/max")
  | other message => some message

/-- Why a text, or a value made for one, is refused. -/
inductive SyntaxError where
  /-- A required argument is absent. -/
  | missing (argument : String)
  /-- An argument is present and not acceptable. -/
  | outOfRange (argument problem : String)
  /-- A filter text, value or path is malformed. -/
  | malformed (source : String) (span : Span) (fault : Fault)
  /-- Parts of a sort text are no sort expressions. -/
  | invalidSort (expressions : List String)
  /-- A file cannot be read. -/
  | unreadableFile (path : String)
  /-- A settings text is malformed, or names no known settings. -/
  | invalidSettings
  deriving DecidableEq, Repr

/-- The pattern that sort texts follow, up to the case of letters. -/
def sortPattern : String :=
  "^\\s*(-|\\+)?([a-z_]\\w*(?:\\.[a-z_]\\w*|\\[\"[^\"\\]]*\"\\])*)" ++
  "(\\s*,\\s*(-|\\+)?([a-z_]\\w*(?:\\.[a-z_]\\w*|\\[\"[^\"\\]]*\"\\])*))*\\s*$"

namespace SyntaxError

/-- The refusal of a text operand without characters. -/
def emptyText : SyntaxError := .outOfRange "text" "must not be empty"

/-- The refusal of sort expressions, in singular or plural. -/
def invalidSortMessage (expressions : List String) : String :=
  let quoted := ", ".intercalate (expressions.map fun e => "\"" ++ e ++ "\"")
  if 1 < expressions.length then
    s!"Sort expressions {quoted} do not match \"" ++ sortPattern ++ "\"."
  else s!"Sort expression {quoted} does not match \"" ++ sortPattern ++ "\"."

/-- The wording of an error; none for a grammar failure. -/
def message? : SyntaxError → Option String
  | missing argument => some (missingMessage argument)
  | outOfRange argument problem => some s!"`{argument}` is out of range: {problem}"
  | malformed _ _ fault => fault.message?.map ("invalid filter syntax: " ++ ·)
  | invalidSort expressions => some (invalidSortMessage expressions)
  | unreadableFile path => some s!"failed to read file: {path}"
  | invalidSettings => some "failed to parse TOML"

end SyntaxError

end Sift
