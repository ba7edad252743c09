import Sift.Filter.Reading
import Sift.Json.Token

/-!
# Stored filters

Filters are stored as JSON. A text among the operands is read like a value in a filter text, so it
is stored in quotes where it would be read as something else.

* `Node.json`: the stored form of a tree.
* `Node.ofJson?`: the tree that a stored form stands for.
* `Filter.ofJson`, `Node.compositeOfJson`: the same where the form is known, with the reason of a
  refusal.
-/

namespace Sift

/-! ## Writing -/

mutual

/-- The stored form of an operand. -/
def Operand.json : Operand → Json
  | .null => .null
  | .scalar (.boolean b) => .boolean b
  | .scalar (.integer i) => .integer i
  | .scalar (.float f) => .float f
  | .scalar s => .string (String.ofList s.text)
  | .list items => .array (Operand.jsons items)
  | .expression e => .string (String.ofList e.text)

/-- The stored forms of several operands. -/
def Operand.jsons : List Operand → List Json
  | [] => []
  | item :: rest => item.json :: Operand.jsons rest

end

/-- Whether a text is read as something other than itself. -/
def readsDifferently (text : String) : Bool :=
  match Operand.ofText .eq text with
  | .ok (.scalar (.string read)) => read != text
  | .ok _ => true
  | .error _ => false

/-- The stored form of an operand by itself in a filter. -/
def Filter.operandJson : Operand → Json
  | .scalar (.string s) =>
    .string (if readsDifferently s then String.ofList (wordText s.toList) else s)
  | operand => operand.json

/-- The stored form of a filter. Null is left out. -/
def Filter.json (f : Filter) : Json :=
  .object ([("field", Json.ofOption f.field), ("operator", .string f.operator.token)] ++
    if f.operand.isNull then [] else [("value", Filter.operandJson f.operand)])

mutual

/-- The stored form of a tree. -/
def Node.json : Node → Json
  | .leaf f => f.json
  | .group _ logic members =>
    .object [("logic", .string logic.token), ("filters", .array (Node.jsons members))]

/-- The stored forms of several trees. -/
def Node.jsons : List Node → List Json
  | [] => []
  | node :: rest => node.json :: Node.jsons rest

end

/-! ## Reading -/

/-- Why JSON is not the wanted value. -/
inductive Refusal where
  /-- It has another shape. -/
  | shape
  /-- It has the shape, but not what goes into it. -/
  | told (message : String)
  deriving DecidableEq, Repr

/-- The refusal of an object among operands. -/
def Refusal.objectOperand : Refusal := .told "a filter value cannot be an object"

/-- The refusal that an error in a part leads to. -/
def Refusal.ofError (e : SyntaxError) : Refusal := e.message?.elim .shape .told

/-- An operator by its exact word. -/
def Operator.ofJson? : Json → Option Operator :=
  Json.token? fun s => Operator.all.find? fun op => op.token == s

/-- A logic by its exact word. -/
def Logic.ofJson? : Json → Option Logic :=
  Json.token? fun s => [Logic.and, Logic.or].find? fun l => l.token == s

/-- A text or null. -/
def Json.optionalString? : Json → Option (Option String)
  | .null => some none
  | .string s => some (some s)
  | _ => none

mutual

/-- The operand that a JSON value is. -/
def Operand.ofJson : Json → Except Refusal Operand
  | .null => return .null
  | .boolean b => return .scalar (.boolean b)
  | .integer i => return .scalar (.integer i)
  | .float f => return .scalar (.float f)
  | .string s => return .string s
  | .array items => .list <$> Operand.ofJsons items
  | .object _ => throw .objectOperand

/-- The operands that several JSON values are. -/
def Operand.ofJsons : List Json → Except Refusal (List Operand)
  | [] => return []
  | item :: rest => do
    let first ← Operand.ofJson item
    return first :: (← Operand.ofJsons rest)

end

/-- The parts of a filter that are known. -/
structure FilterParts where
  field : Option (Option String) := none
  operator : Option Operator := none
  operand : Option Operand := none

namespace FilterParts

/-- A part of the wanted shape. -/
def required {α : Type} (a : Option α) : Except Refusal α :=
  match a with
  | some a => .ok a
  | none => .error .shape

/-- One more part. Parts cannot be repeated, and there are no others. -/
def add (parts : FilterParts) (key : String) (value : Json) : Except Refusal FilterParts := do
  if key = "field" ∧ parts.field.isNone then
    return { parts with field := some (← required value.optionalString?) }
  else if key = "operator" ∧ parts.operator.isNone then
    return { parts with operator := some (← required (Operator.ofJson? value)) }
  else if key = "value" ∧ parts.operand.isNone then
    return { parts with operand := some (← Operand.ofJson value) }
  else throw .shape

/-- The filter of the parts. Only the operator has to be there. A text is read like a value in a
filter text, and kept where it is none. -/
def filter (parts : FilterParts) : Except Refusal Filter := do
  let op ← required parts.operator
  let field := parts.field.getD none
  match parts.operand.getD .null with
  | .scalar (.string text) =>
    match Operand.ofText op text with
    | .ok operand => return ⟨field, op, operand⟩
    | .error (.malformed _ _ _) => return ⟨field, op, .string text⟩
    | .error e => throw (.ofError e)
  | operand => return ⟨field, op, operand⟩

/-- The filter that keyed parts make up. -/
def ofMembers (members : List (String × Json)) : Except Refusal Filter := do
  let parts ← members.foldlM (fun parts m => FilterParts.add parts m.1 m.2) {}
  parts.filter

end FilterParts

/-- The filter that a JSON value stands for: an object of its parts, or an array of them in
order, of which the last may be missing. -/
def Filter.ofJson : Json → Except Refusal Filter
  | .object members => FilterParts.ofMembers members
  | .array items =>
    if 3 < items.length then .error .shape
    else FilterParts.ofMembers (["field", "operator", "value"].zip items)
  | _ => .error .shape

/-- The parts of a group that are known. -/
structure GroupParts where
  logic : Option Logic := none
  members : Option (List Node) := none

/-- The logic and the members of a group. Without a logic, all members have to accept. -/
def GroupParts.group? (parts : GroupParts) : Option (Logic × List Node) :=
  parts.members.map fun members => (parts.logic.getD .and, members)

/-- The tree that a JSON value stands for when it is this group, if it is one: a group of at least
two, or else a filter. -/
def treeOfJson? (group : Option (Logic × List Node)) (j : Json) : Option Node :=
  (group.bind fun (logic, members) => (Node.composite logic members).toOption).or
    ((Filter.ofJson j).toOption.map .leaf)

mutual

/-- The group that a JSON value stands for: an object of its parts, or an array of the logic and
the members. -/
def groupOfJson? : Json → Option (Logic × List Node)
  | .object members => (groupParts? {} members).bind GroupParts.group?
  | .array [logic, members] => do
    return (← Logic.ofJson? logic, ← membersOfJson? members)
  | _ => none

/-- The parts of a group among the members of an object. They cannot be repeated, and there are no
others. -/
def groupParts? (parts : GroupParts) : List (String × Json) → Option GroupParts
  | [] => some parts
  | (key, value) :: rest =>
    if key = "logic" ∧ parts.logic.isNone then do
      groupParts? { parts with logic := some (← Logic.ofJson? value) } rest
    else if key = "filters" ∧ parts.members.isNone then do
      groupParts? { parts with members := some (← membersOfJson? value) } rest
    else none

/-- The trees in an array. -/
def membersOfJson? : Json → Option (List Node)
  | .array items => nodesOfJson? items
  | _ => none

/-- The trees that several JSON values stand for. -/
def nodesOfJson? : List Json → Option (List Node)
  | [] => some []
  | item :: rest => do
    let first ← treeOfJson? (groupOfJson? item) item
    return first :: (← nodesOfJson? rest)

end

/-- The tree that a JSON value stands for: a group of at least two, or else a filter. -/
def Node.ofJson? (j : Json) : Option Node := treeOfJson? (groupOfJson? j) j

/-- The group that a JSON value stands for, with at least two members. -/
def Node.compositeOfJson (j : Json) : Except Refusal Node :=
  match groupOfJson? j with
  | none => .error .shape
  | some (logic, members) => (Node.composite logic members).mapError .ofError

/-- The group that a JSON value stands for, with any number of members. -/
def Node.multiOfJson? (j : Json) : Option Node :=
  (groupOfJson? j).map fun (logic, members) => .group .multi logic members

end Sift
