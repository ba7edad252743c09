import Sift.Derive.Table
import Sift.Derive.TextLiteral
import Sift.Query.Shape

/-!
# What a member table generates

* `MemberTable.shape`: the type as filters and sorts see it.
* `MemberTable.arms`: the literals by which members are recognised, each with the expression for the
  field.
* `MemberTable.access?`: the expression that a name leads to.
-/

namespace Sift.MemberTable

variable {n : Nat}

/-- The type by its members, `fieldType` telling what the types of fields hold. -/
def shape (t : MemberTable) (fieldType : String → FieldType n) : Shape n :=
  ⟨t.typeName, t.members.map fun m => (m.name, fieldType m.type)⟩

/-- The literals of the members, each with the expression for the field. -/
def arms (t : MemberTable) : List (String × String) :=
  t.members.map fun m => (m.literal, m.access)

/-- The expression that a name leads to: that of the first literal that stands for it. -/
def access? (t : MemberTable) (name : String) : Option String :=
  (t.arms.find? fun arm => TextLiteral.value? arm.1 == some name).map (·.2)

end Sift.MemberTable
