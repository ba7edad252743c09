import Sift.Error

/-!
# Errors in queries

A query error has a cause and a context. Its code and wording follow from the cause.

* `Cause`: what went wrong while a filter or sort was matched with a type.
* `ErrorCode`: the stable code of each kind of cause.
* `QueryError.report?`: the error with all of its context.
-/

namespace Sift

/-- The kinds of query errors. -/
inductive ErrorCode where
  | invalidArgument
  | outOfRange
  | parse
  | memberResolution
  | typeMismatch
  | internal
  deriving DecidableEq, Repr

namespace ErrorCode

/-- The code that programs go by. -/
def code : ErrorCode → String
  | invalidArgument => "S1001"
  | outOfRange => "S1002"
  | parse => "S1003"
  | memberResolution => "S2001"
  | typeMismatch => "S2002"
  | internal => "S9001"

/-- A few words for each kind. -/
def description : ErrorCode → String
  | invalidArgument => "Invalid argument"
  | outOfRange => "Argument out of range"
  | parse => "Invalid syntax"
  | memberResolution => "Unknown member"
  | typeMismatch => "Type mismatch"
  | internal => "Internal error"

end ErrorCode

/-- Why a value or an operator does not fit a member. -/
inductive Mismatch where
  /-- The emptiness check on a member that is never empty. -/
  | neverEmpty (typeName : String)
  /-- A comparison with an object. -/
  | notScalar (typeName : String)
  /-- An ordering of values that have none. -/
  | unordered (kind : String)
  /-- A text operator on a member that holds no text. -/
  | notText (operator typeName : String)
  /-- A wildcard pattern on a member that holds no text. -/
  | patternOnText (pattern kind : String)
  /-- A literal that is no value of the member's kind. -/
  | unreadable (literal kind : String)
  /-- A sort on a member without an order of its own. -/
  | unsortable (typeName : String)
  /-- A problem told in words. -/
  | other (message : String)
  deriving DecidableEq, Repr

/-- The wording of a mismatch. -/
def Mismatch.message : Mismatch → String
  | neverEmpty typeName => s!"`isempty` applies to strings and collections, not {typeName}"
  | notScalar typeName => s!"{typeName} values can only be tested with `isnull` and `isempty`"
  | unordered kind => s!"{kind} values cannot be ordered"
  | notText operator typeName => s!"`{operator}` applies to strings, not {typeName}"
  | patternOnText pattern kind => s!"`{pattern}` applies to strings, not {kind}"
  | unreadable literal kind => s!"`{literal}` cannot be read as {kind}"
  | unsortable typeName => s!"cannot sort on {typeName} values"
  | other message => message

/-- What went wrong while a filter or sort was matched with a type. -/
inductive Cause where
  | missing (argument : String)
  | outOfRange (argument problem : String)
  | unknownMember (typeName member : String)
  | mismatch (field : String) (mismatch : Mismatch)
  | internal (message : String)
  | malformed (error : SyntaxError)
  deriving DecidableEq, Repr

namespace Cause

/-- The kind of a cause. -/
def code : Cause → ErrorCode
  | missing _ | malformed (.missing _) => .invalidArgument
  | outOfRange _ _ | malformed (.outOfRange _ _) => .outOfRange
  | malformed (.malformed _ _ _) | malformed (.invalidSort _) => .parse
  | unknownMember _ _ => .memberResolution
  | mismatch _ _ => .typeMismatch
  | internal _ | malformed (.unreadableFile _) | malformed .invalidSettings => .internal

/-- The wording of a cause; none for a grammar failure. -/
def message? : Cause → Option String
  | missing argument => (SyntaxError.missing argument).message?
  | outOfRange argument problem => (SyntaxError.outOfRange argument problem).message?
  | unknownMember typeName member => some s!"`{typeName}` has no member named `{member}`"
  | mismatch field m => some (s!"`{field}`: " ++ m.message)
  | internal message => some message
  | malformed error => error.message?

end Cause

/-- A cause with what is known about its place and its cure. -/
structure QueryError where
  cause : Cause
  typeName : Option String := none
  field : Option String := none
  suggestions : List String := []
  help : Option String := none
  deriving DecidableEq, Repr

namespace QueryError

/-- A member that a type does not have. -/
def unknownMember (typeName member : String) : QueryError :=
  { cause := .unknownMember typeName member, typeName := some typeName, field := some member }

/-- A value or operator that does not fit a field. -/
def mismatch (field : String) (m : Mismatch) : QueryError :=
  { cause := .mismatch field m, field := some field }

/-- A required argument of a field that is absent. -/
def missing (argument : String) : QueryError := { cause := .missing argument }

/-- A fault in a text. -/
def ofSyntaxError (e : SyntaxError) : QueryError := { cause := .malformed e }

/-- The error at a type. -/
def withType (e : QueryError) (typeName : String) : QueryError :=
  { e with typeName := some typeName }

/-- The error at a field. -/
def withField (e : QueryError) (field : String) : QueryError := { e with field := some field }

/-- The error with a word of help. -/
def withHelp (e : QueryError) (help : String) : QueryError := { e with help := some help }

/-- The error with one more suggestion. -/
def withSuggestion (e : QueryError) (suggestion : String) : QueryError :=
  { e with suggestions := e.suggestions ++ [suggestion] }

/-- The kind of an error. -/
def code (e : QueryError) : ErrorCode := e.cause.code

/-- The code and the wording of the cause. -/
def message? (e : QueryError) : Option String :=
  e.cause.message?.map fun m => "[" ++ e.code.code ++ "] " ++ m

/-- The suggestions, one a line and numbered from one. -/
def numbered (suggestions : List String) : String :=
  String.join (suggestions.mapIdx fun i s => s!"  {i + 1}. {s}\n")

/-- The error with all of its context. -/
def report? (e : QueryError) : Option String :=
  e.cause.message?.map fun m =>
    "Error [" ++ e.code.code ++ "]: " ++ m ++ "\n" ++
    (e.typeName.elim "" fun t => s!"  → Type: {t}\n") ++
    (e.field.elim "" fun f => s!"  → Field: {f}\n") ++
    (if e.suggestions = [] then "" else "\nSuggestions:\n" ++ numbered e.suggestions) ++
    (e.help.elim "" fun h => s!"\nHelp: {h}\n")

end QueryError

end Sift
