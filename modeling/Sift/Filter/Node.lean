import Sift.Filter.Operator
import Sift.Filter.Written
import Sift.Scalar

/-!
# Filter trees

* `Operand`: what a field is compared with.
* `Filter`: a comparison on a field.
* `Node`: comparisons combined in groups.
* `Node.negate`: the complement, pushed down to the comparisons.
* `Node.negate_negate`: negating twice gives the tree back.
-/

namespace Sift

/-- What a field is compared with. -/
inductive Operand where
  | null
  | scalar (s : Scalar)
  | list (items : List Operand)
  | expression (e : Expression)

namespace Operand

/-- A text to compare with. -/
def string (s : String) : Operand := .scalar (.string s)

/-- Whether there is nothing to compare with. -/
def isNull : Operand → Bool
  | null => true
  | _ => false

mutual

/-- The same operand; a NaN is not the same as itself. -/
def same : Operand → Operand → Bool
  | null, null => true
  | scalar a, scalar b => a.same b
  | list as, list bs => sameList as bs
  | expression a, expression b => a == b
  | _, _ => false

/-- The same operands in the same order. -/
def sameList : List Operand → List Operand → Bool
  | [], [] => true
  | a :: as, b :: bs => same a b && sameList as bs
  | _, _ => false

end

/-- Texts with commas between them. -/
def joined (texts : List (List Char)) : List Char := List.intercalate [','] texts

mutual

/-- An operand as it is written in a filter; null is not written. -/
def text? : Operand → Option (List Char)
  | null => none
  | scalar s => some s.text
  | list items => some (joined (texts items))
  | expression e => some e.text

/-- The texts of several operands, null among them by name. -/
def texts : List Operand → List (List Char)
  | [] => []
  | item :: rest => (text? item).getD ['n', 'u', 'l', 'l'] :: texts rest

end

end Operand

/-- A comparison of a field with an operand. -/
structure Filter where
  field : Option String
  operator : Operator
  operand : Operand

namespace Filter

/-- The filter on a field. -/
def on (field : String) (operator : Operator) (operand : Operand) : Filter :=
  ⟨some field, operator, operand⟩

/-- The filter that accepts everything. -/
def always : Filter := ⟨none, .eq, .null⟩

/-- The path of the field. Without one, or with an empty one, a filter accepts everything. -/
def path? (f : Filter) : Option String := f.field.filter (· ≠ "")

/-- The same comparison with the operator for the rest. -/
def negate (f : Filter) : Filter := { f with operator := f.operator.invert }

/-- The same filter. -/
def same (a b : Filter) : Bool :=
  a.field == b.field && a.operator == b.operator && a.operand.same b.operand

/-- The written form of an operand after an operator. -/
def operandText (op : Operator) : Operand → List Char
  | .null => if op.requiresValue then [' ', 'n', 'u', 'l', 'l'] else []
  | .expression e => ' ' :: e.text
  | .list items =>
    ' ' :: (Expression.oneOf (items.map fun item =>
      .constant (String.ofList (item.text?.getD [])))).text
  | .scalar (.string s) => ' ' :: wordText s.toList
  | .scalar (.boolean b) => ' ' :: (Scalar.boolean b).text
  | .scalar (.integer i) => ' ' :: (Scalar.integer i).text
  | .scalar (.float f) => ' ' :: (Scalar.float f).text
  | .scalar s => ' ' :: wordText s.text

/-- The written form of a filter. -/
def text (f : Filter) : List Char :=
  match f.path? with
  | none => ['*']
  | some path => path.toList ++ ' ' :: f.operator.token.toList ++ operandText f.operator f.operand

theorem negate_negate (f : Filter) : f.negate.negate = f := by
  simp [negate, Operator.invert_invert]

end Filter

/-- The two ways in which a group comes about. Stored groups have at least two members. -/
inductive GroupForm where
  | multi
  | composite
  deriving DecidableEq, Repr

/-- A tree of filters. -/
inductive Node where
  | leaf (f : Filter)
  | group (form : GroupForm) (logic : Logic) (members : List Node)

namespace Node

/-- The tree that accepts everything. -/
def always : Node := .leaf .always

/-- A stored group, which has at least two members. -/
def composite (logic : Logic) (members : List Node) : Except SyntaxError Node :=
  if members.length < 2 then
    .error (.outOfRange "filters"
      s!"a composite filter needs at least 2 filters, got {members.length}")
  else .ok (.group .composite logic members)

/-- Several trees as a group, a single one as itself. -/
def combine (logic : Logic) : List Node → Node
  | [node] => node
  | nodes => .group .multi logic nodes

mutual

/-- The complement: groups flip their logic, comparisons their operator. -/
def negate : Node → Node
  | leaf f => .leaf f.negate
  | group form logic members => .group form logic.flip (negateAll members)

/-- The complements of several trees. -/
def negateAll : List Node → List Node
  | [] => []
  | node :: rest => negate node :: negateAll rest

end

mutual

/-- The same tree. Groups of different forms differ. -/
def same : Node → Node → Bool
  | leaf a, leaf b => a.same b
  | group f l ms, group f' l' ms' => f == f' && l == l' && sameList ms ms'
  | _, _ => false

/-- The same trees in the same order. -/
def sameList : List Node → List Node → Bool
  | [], [] => true
  | a :: as, b :: bs => same a b && sameList as bs
  | _, _ => false

end

/-- A member of a group as written; groups are put in parentheses. -/
def memberText : Node → List Char → List Char
  | leaf _, text => text
  | group _ _ _, text => '(' :: text ++ [')']

/-- The word between the members of a group. -/
def separator (l : Logic) : List Char := ' ' :: l.token.toList ++ [' ']

mutual

/-- The written form of a tree. -/
def text : Node → List Char
  | leaf f => f.text
  | group _ _ [] => ['*']
  | group _ logic (node :: rest) => memberText node (text node) ++ tailText logic rest

/-- The written form of the members after the first. -/
def tailText (logic : Logic) : List Node → List Char
  | [] => []
  | node :: rest => separator logic ++ memberText node (text node) ++ tailText logic rest

end

mutual

/-- **Negating twice gives the tree back.** -/
theorem negate_negate : ∀ node : Node, node.negate.negate = node
  | leaf f => by simp [negate, Filter.negate_negate]
  | group form logic members => by
    simp [negate, Logic.flip_flip, negateAll_negateAll members]

theorem negateAll_negateAll : ∀ nodes : List Node, negateAll (negateAll nodes) = nodes
  | [] => rfl
  | node :: rest => by simp [negateAll, negate_negate node, negateAll_negateAll rest]

end

end Node

end Sift
