/-!
# Variables in settings texts

A text may refer to variables of its environment as `${NAME}`. References to variables that are not
set are left as they are.

* `Environment.references`: the names referred to in a text.
* `Environment.expand`: a text with the values of variables in the place of references to them.
-/

namespace Sift

/-- The variables that are set. -/
abbrev Environment := List (String × String)

namespace Text

/-- A text with a value in every place of a piece, from left to right. The first `skip` characters
belong to the last place found. -/
def replaceFrom (piece value : List Char) (skip : Nat) : List Char → List Char
  | [] => []
  | c :: rest =>
    match skip with
    | skip + 1 => replaceFrom piece value skip rest
    | 0 =>
      if piece.isPrefixOf (c :: rest) then value ++ replaceFrom piece value (piece.length - 1) rest
      else c :: replaceFrom piece value 0 rest

/-- A text with a value in every place of a piece. -/
def replaceAll (piece value text : List Char) : List Char := replaceFrom piece value 0 text

end Text

namespace Environment

/-- The written form of a reference. -/
def reference (name : List Char) : List Char := '$' :: '\x7b' :: name ++ ['\x7d']

/-- The name in a reference at the front of a text. -/
def referenceAt? : List Char → Option (List Char)
  | '$' :: '\x7b' :: rest =>
    let name := rest.takeWhile (· != '\x7d')
    if name = [] ∨ name.length = rest.length then none else some name
  | _ => none

/-- The names referred to in a text, from left to right. The first `skip` characters belong to the
last reference. -/
def referencesFrom (skip : Nat) : List Char → List (List Char)
  | [] => []
  | c :: rest =>
    match skip with
    | skip + 1 => referencesFrom skip rest
    | 0 =>
      match referenceAt? (c :: rest) with
      | some name => name :: referencesFrom (name.length + 2) rest
      | none => referencesFrom 0 rest

/-- The names referred to in a text. -/
def references (text : List Char) : List (List Char) := referencesFrom 0 text

/-- A text with the value of a variable for all references to it, if the variable is set. -/
def expandName (env : Environment) (text name : List Char) : List Char :=
  match env.lookup (String.ofList name) with
  | some value => Text.replaceAll (reference name) value.toList text
  | none => text

/-- A text with the values of variables for the references to them. The names are those in the
text as it was; one after the other is replaced. -/
def expand (env : Environment) (text : String) : String :=
  String.ofList ((references text.toList).foldl (expandName env) text.toList)

end Environment

end Sift
