import Sift.Derive.Declaration
import Sift.Derive.ModulePath
import Sift.Derive.Naming
import Sift.Text.Inspected

/-!
# Member tables of declared types

A declared type becomes filterable by the table of its members: which field stands behind which
name, and what the type parameters have to provide.

* `MemberEntry`, `MemberTable`: the table.
* `Declaration.memberTable`: the table of a declaration, or why there is none.
-/

namespace Sift

/-- Why a declaration has no member table. -/
inductive DeriveError where
  | notNamedFields
  | notStructure
  | unsupportedAttribute
  | missingValue
  | unwantedValue
  | unknownCase (name : String)
  | notPath (fault : PathFault)
  | emptyName
  | duplicateName (name : String)
  deriving DecidableEq, Repr

/-- The wording of an error. -/
def DeriveError.message : DeriveError → String
  | notNamedFields => "Filterable derive only supports structs with named fields"
  | notStructure => "Filterable derive only supports structs"
  | unsupportedAttribute => "unsupported filterable attribute"
  | missingValue => "expected `=`"
  | unwantedValue => "expected `,`"
  | unknownCase name => s!"unknown case `{name}`"
  | notPath fault => fault.message
  | emptyName => "member name must not be empty"
  | duplicateName name => s!"duplicate member name `{name}`"

/-- The arguments of all attributes that count, in their order. -/
def filterableArguments (attributes : List Attribute) : List (String × Option String) :=
  (attributes.filter (·.path = "filterable")).flatMap (·.arguments)

/-- The value that an argument needs. -/
def argumentValue (v : Option String) : Except DeriveError String :=
  match v with
  | some s => .ok s
  | none => .error .missingValue

/-- The options of a type. -/
structure TypeOptions where
  renameAll : Option NameCase := none
  /-- The path under which the traits are found. -/
  root : String := "::strainer"
  deriving DecidableEq, Repr

/-- What one more argument says about a type. -/
def TypeOptions.add (o : TypeOptions) (argument : String × Option String) :
    Except DeriveError TypeOptions := do
  match argument.1 with
  | "rename_all" =>
    let name ← argumentValue argument.2
    match NameCase.ofToken? name with
    | some c => return { o with renameAll := some c }
    | none => throw (.unknownCase name)
  | "crate" =>
    let ls := Lexeme.ofText (← argumentValue argument.2)
    match pathFault? ls with
    | some fault => throw (.notPath fault)
    | none => return { o with root := Lexeme.written ls }
  | _ => throw .unsupportedAttribute

/-- The options of a field. -/
structure FieldOptions where
  rename : Option String := none
  skip : Bool := false
  deriving DecidableEq, Repr

/-- What one more argument says about a field. -/
def FieldOptions.add (o : FieldOptions) (argument : String × Option String) :
    Except DeriveError FieldOptions := do
  match argument.1 with
  | "rename" =>
    let name ← argumentValue argument.2
    if name = "" then throw .emptyName
    return { o with rename := some name }
  | "skip" => if argument.2.isSome then throw .unwantedValue else return { o with skip := true }
  | _ => throw .unsupportedAttribute

/-- What the attributes of a type say. A later argument takes the place of an earlier one. -/
def typeOptions (attributes : List Attribute) : Except DeriveError TypeOptions :=
  (filterableArguments attributes).foldlM TypeOptions.add {}

/-- What the attributes of a field say. A later argument takes the place of an earlier one. -/
def fieldOptions (attributes : List Attribute) : Except DeriveError FieldOptions :=
  (filterableArguments attributes).foldlM FieldOptions.add {}

/-- A member with the field behind it. -/
structure MemberEntry where
  name : String
  field : String
  type : String
  deriving DecidableEq, Repr

namespace MemberEntry

/-- The inside of a literal. A NUL before an octal digit is written so that the digit cannot be
taken for a part of it. -/
def literalText : List Char → List Char
  | [] => []
  | c :: rest =>
    (if c.toNat = 0 ∧ rest.head?.any (fun d => '0' ≤ d && d ≤ '7') then ['\\', 'x', '0', '0']
    else Text.inspectedChar c) ++ literalText rest

/-- The literal by which the member is recognised. -/
def literal (m : MemberEntry) : String :=
  String.ofList ('"' :: literalText m.name.toList ++ ['"'])

/-- The expression for the field. -/
def access (m : MemberEntry) : String := "&self." ++ m.field

end MemberEntry

/-- The name of the member for a field: the one given to it, or its own in the case that all names
are written in. -/
def memberName (options : TypeOptions) (field : FieldDeclaration) (own : FieldOptions) : String :=
  let raw := plainName field.name.toList
  own.rename.getD (String.ofList (options.renameAll.elim raw (·.apply raw)))

/-- The members with one for a field, unless the field is skipped. -/
def addMember (options : TypeOptions) (found : List MemberEntry) (field : FieldDeclaration) :
    Except DeriveError (List MemberEntry) := do
  let own ← fieldOptions field.attributes
  if own.skip then return found
  let name := memberName options field own
  if found.any (·.name = name) then throw (.duplicateName name)
  return found ++ [⟨name, field.name, field.type⟩]

/-- What is generated for a declared type. -/
structure MemberTable where
  typeName : String
  members : List MemberEntry
  /-- The path under which the traits are found. -/
  root : String
  parameters : List TypeParameter
  constraints : List String
  deriving DecidableEq, Repr

namespace MemberTable

/-- The type with its parameters. -/
def selfType (t : MemberTable) : String :=
  if t.parameters = [] then t.typeName
  else t.typeName ++ "<" ++ ",".intercalate (t.parameters.map (·.name)) ++ ">"

/-- The path of a trait. -/
def traitPath (t : MemberTable) (trait : String) : String := t.root ++ "::" ++ trait

/-- The type parameters that some member refers to. -/
def boundParameters (t : MemberTable) : List TypeParameter :=
  t.parameters.filter fun p =>
    p.kind = .type && t.members.any fun m => mentions m.type p.name

/-- The constraints under which the type is filterable: those declared, and one for each type
parameter that a member refers to. -/
def allConstraints (t : MemberTable) : List String :=
  t.constraints ++ t.boundParameters.map fun p => p.name ++ ":" ++ t.traitPath "Member"

end MemberTable

/-- The member table of a declaration. -/
def Declaration.memberTable (d : Declaration) : Except DeriveError MemberTable := do
  match d.kind with
  | .tuple | .unit => throw .notNamedFields
  | .enumeration | .union => throw .notStructure
  | .record =>
    let options ← typeOptions d.attributes
    let members ← d.fields.foldlM (addMember options) []
    return {
      typeName := d.name
      members
      root := options.root
      parameters := TypeParameter.ofTexts d.parameters
      constraints := d.constraints.map compact }

end Sift
