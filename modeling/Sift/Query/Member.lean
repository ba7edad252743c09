import Sift.Query.FieldValue
import Sift.Query.Shape

/-!
# Native values as members

* `Member`: the types whose values can be members, by what such a member holds and by its value.
* `Binary32`, `UtcDateTime`: native types that are narrower than the scalars they become.
-/

namespace Sift

/-- A type whose values can be members. -/
class Member (α : Type) where
  /-- What a member of the type holds. -/
  type : {n : Nat} → FieldType n
  /-- The value of a member. -/
  value : α → FieldValue

/-- A number of 32-bit binary format; it widens without loss. -/
structure Binary32 where
  wide : Binary64
  deriving DecidableEq

/-- An instant on the clock of UTC. -/
structure UtcDateTime where
  clock : LocalDateTime
  deriving DecidableEq

namespace Member

/-- The value of an integer of any width; one beyond 64 bits with a sign is the nearest double. -/
def ofInt (i : Int) : FieldValue :=
  match Number.toInt64? i with
  | some n => .scalar (.integer n)
  | none => .scalar (.float (Binary64.ofInt i))

instance : Member Bool := ⟨.scalar .boolean, fun b => .scalar (.boolean b)⟩
instance : Member Int8 := ⟨.scalar .integer, fun i => ofInt i.toInt⟩
instance : Member Int16 := ⟨.scalar .integer, fun i => ofInt i.toInt⟩
instance : Member Int32 := ⟨.scalar .integer, fun i => ofInt i.toInt⟩
instance : Member Int64 := ⟨.scalar .integer, fun i => ofInt i.toInt⟩
instance : Member UInt8 := ⟨.scalar .integer, fun n => ofInt n.toNat⟩
instance : Member UInt16 := ⟨.scalar .integer, fun n => ofInt n.toNat⟩
instance : Member UInt32 := ⟨.scalar .integer, fun n => ofInt n.toNat⟩
instance : Member UInt64 := ⟨.scalar .integer, fun n => ofInt n.toNat⟩
instance : Member Binary32 := ⟨.scalar .float, fun f => .scalar (.float f.wide)⟩
instance : Member Binary64 := ⟨.scalar .float, fun f => .scalar (.float f)⟩
instance : Member String := ⟨.scalar .string, fun s => .scalar (.string s)⟩
instance : Member Date := ⟨.scalar .date, fun d => .scalar (.date d)⟩
instance : Member LocalDateTime := ⟨.scalar .dateTime, fun t => .scalar (.dateTime t)⟩
instance : Member OffsetDateTime :=
  ⟨.scalar .offsetDateTime, fun t => .scalar (.offsetDateTime t)⟩
instance : Member UtcDateTime :=
  ⟨.scalar .offsetDateTime, fun t => .scalar (.offsetDateTime (.ofUtc t.clock))⟩

/-- A value that may be missing holds what the value holds. -/
instance {α : Type} [Member α] : Member (Option α) :=
  ⟨Member.type α, fun a => a.elim .null Member.value⟩

instance {α : Type} [Member α] : Member (List α) :=
  ⟨.list (Member.type α), fun items => .list (items.map Member.value)⟩

end Member

end Sift
