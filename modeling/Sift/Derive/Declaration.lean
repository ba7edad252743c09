import Sift.Derive.Lexeme

/-!
# Declarations of types

A declaration is known by its parts; the types, bounds and constraints in it are kept as texts.

* `Declaration`, `FieldDeclaration`, `Attribute`: the parts.
* `TypeParameter`: a generic parameter, without its default.
* `mentions`: whether a type refers to a name.
-/

namespace Sift

/-- An attribute with its arguments, each of which may have a value. -/
structure Attribute where
  path : String
  arguments : List (String × Option String)
  deriving DecidableEq, Repr

/-- A field of a declared type. -/
structure FieldDeclaration where
  name : String
  type : String
  attributes : List Attribute
  deriving DecidableEq, Repr

/-- What is declared. -/
inductive DeclarationKind where
  /-- A structure with named fields. -/
  | record
  /-- A structure with fields by position. -/
  | tuple
  /-- A structure without fields. -/
  | unit
  | enumeration
  | union
  deriving DecidableEq, Repr

/-- A declared type. -/
structure Declaration where
  kind : DeclarationKind
  name : String
  parameters : List String
  constraints : List String
  attributes : List Attribute
  fields : List FieldDeclaration
  deriving DecidableEq, Repr

/-- A text without its white space and comments. -/
def compact (s : String) : String := Lexeme.written (Lexeme.ofText s)

/-- A name without the mark of a raw identifier. -/
def plainName : List Char → List Char
  | 'r' :: '#' :: rest => plainName rest
  | cs => cs

/-! ## Generic parameters -/

/-- The kinds of generic parameters. -/
inductive ParameterKind where
  | lifetime
  | type
  | constant
  deriving DecidableEq, Repr

/-- A generic parameter: its name, and its text without a default. -/
structure TypeParameter where
  kind : ParameterKind
  name : String
  text : String
  deriving DecidableEq, Repr

/-- What stands before a default: the lexemes up to the first equals sign outside brackets, `depth`
of which are open before them. -/
def beforeDefault (depth : Nat) : List Lexeme → List Lexeme
  | [] => []
  | .sign '-' :: .sign '>' :: rest => .sign '-' :: .sign '>' :: beforeDefault depth rest
  | .sign c :: rest =>
    if c = '=' ∧ depth = 0 then []
    else if ['<', '(', '['].contains c then .sign c :: beforeDefault (depth + 1) rest
    else if ['>', ')', ']'].contains c then .sign c :: beforeDefault (depth - 1) rest
    else .sign c :: beforeDefault depth rest
  | l :: rest => l :: beforeDefault depth rest

/-- Lexemes without a colon at their end. -/
def withoutColon (ls : List Lexeme) : List Lexeme :=
  if ls.getLast? = some (.sign ':') then ls.dropLast else ls

/-- Lexemes behind the bracket that closes `depth` more than it opens. -/
def behindBracket (depth : Nat) : List Lexeme → List Lexeme
  | [] => []
  | .sign '[' :: rest => behindBracket (depth + 1) rest
  | .sign ']' :: rest => if depth ≤ 1 then rest else behindBracket (depth - 1) rest
  | _ :: rest => behindBracket depth rest

/-- Lexemes behind the attributes in front of them, of which there are at most `count`. -/
def behindAttributes : (count : Nat) → List Lexeme → List Lexeme
  | count + 1, .sign '#' :: rest => behindAttributes count (behindBracket 0 rest)
  | _, ls => ls

namespace TypeParameter

/-- A parameter from its declaration. -/
def ofText (declared : String) : TypeParameter :=
  let ls := Lexeme.ofText declared
  let text := Lexeme.written (withoutColon (beforeDefault 0 ls))
  match behindAttributes ls.length ls with
  | .sign '\'' :: .name cs :: _ => ⟨.lifetime, String.ofList ('\'' :: cs), text⟩
  | .name cs :: rest =>
    match cs, rest with
    | ['c', 'o', 'n', 's', 't'], .name ds :: _ => ⟨.constant, String.ofList ds, text⟩
    | _, _ => ⟨.type, String.ofList cs, text⟩
  | _ => ⟨.type, "", text⟩

/-- The parameters of a declaration, with the lifetimes first. -/
def ofTexts (declared : List String) : List TypeParameter :=
  let parameters := declared.map ofText
  parameters.filter (·.kind = .lifetime) ++ parameters.filter (·.kind ≠ .lifetime)

end TypeParameter

/-! ## Names in types -/

/-- Whether a type refers to a name at any depth. -/
def mentions (type name : String) : Bool :=
  (Lexeme.ofText type).contains (.name name.toList)

end Sift
