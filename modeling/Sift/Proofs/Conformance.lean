import Sift.Proofs.Reached
import Sift.Proofs.Terms
import Sift.Query.Member
import Sift.Query.Path

/-!
# Records that conform to their types

* `FieldValue.Conforms`: what a member of a type may hold.
* `Record.Conforms`: a record of one of the types of a schema.
* `LawfulMember`: the native types whose values conform to what they are said to hold; all of
  `Member` are such, with the integers beyond 64 bits with a sign as floats.
* `conforms_elements`: without the lists around it, a value conforms to the innermost type.
* `conforms_reached`: **what a resolved path reaches in a record conforms to its last member.**
-/

namespace Sift

variable {n : Nat} {s : Schema n}

/-- The scalars that a member of a kind may hold: those of the kind, and as integers also the
floats that stand for native integers without a sign. -/
def Scalar.HeldAs (kind : Kind) (x : Scalar) : Prop :=
  x.kind = kind ∨ kind = .integer ∧ ∃ i : UInt64, Member.value i = FieldValue.scalar x

/-- **What a member of a type may hold.** Every member may be null, and so may every element of a
list. -/
inductive FieldValue.Conforms (s : Schema n) : FieldType n → FieldValue → Prop
  | null (t : FieldType n) : Conforms s t .null
  | scalar {kind : Kind} {x : Scalar} (h : x.HeldAs kind) : Conforms s (.scalar kind) (.scalar x)
  | list {t : FieldType n} {items : List FieldValue} (h : ∀ v ∈ items, Conforms s t v) :
      Conforms s (.list t) (.list items)
  | object {i : Fin n} {r : Record}
      (h : ∀ name t, (s.shape i).member? name = some t → Conforms s t (r.get name)) :
      Conforms s (.object i) (.object r)

/-- A record whose members may all be held by those of a type. -/
def Record.Conforms (s : Schema n) (type : Fin n) (r : Record) : Prop :=
  ∀ name t, (s.shape type).member? name = some t → (r.get name).Conforms s t

/-- A record conforms to a type where each member of the type does. -/
theorem Record.conforms_of_members {type : Fin n} {r : Record}
    (h : ∀ m ∈ (s.shape type).members, (r.get m.1).Conforms s m.2) : r.Conforms s type := by
  intro name t ht
  obtain ⟨before, after, hmembers, -⟩ := List.lookup_eq_some_iff.1 ht
  exact h (name, t) (hmembers ▸ List.mem_append_right before List.mem_cons_self)

/-! ## Native values -/

/-- A native type whose values conform to what it is said to hold. -/
class LawfulMember (α : Type) [Member α] : Prop where
  conforms {n : Nat} (s : Schema n) (a : α) : (Member.value a).Conforms s (Member.type α)

namespace LawfulMember

/-- Integers of 64 bits, with or without a sign, conform to integers. -/
theorem conforms_ofInt (s : Schema n) {i : Int} (hmin : -9223372036854775808 ≤ i)
    (hmax : i < 18446744073709551616) : (Member.ofInt i).Conforms s (.scalar .integer) := by
  have hvalue : ∃ x, Member.ofInt i = .scalar x := by
    rw [Member.ofInt]
    split <;> exact ⟨_, rfl⟩
  obtain ⟨x, hx⟩ := hvalue
  rw [hx]
  refine .scalar ?_
  by_cases hsigned : i < 2 ^ 63
  · have hint : Number.toInt64? i = some (Int64.ofInt i) := by
      rw [Number.toInt64?, Int64.toInt_minValue, Int64.toInt_maxValue, if_pos ⟨hmin, by omega⟩]
    rw [Member.ofInt, hint] at hx
    cases hx
    exact .inl rfl
  · -- too great for a sign, so it is a native integer without one
    have hnative : ((UInt64.ofNat i.toNat).toNat : Int) = i := by
      rw [UInt64.toNat_ofNat_of_lt' (show i.toNat < 2 ^ 64 by omega)]
      omega
    exact .inr ⟨rfl, UInt64.ofNat i.toNat, (congrArg Member.ofInt hnative).trans hx⟩

instance : LawfulMember Bool := ⟨fun _ _ => .scalar (.inl rfl)⟩
instance : LawfulMember Int8 :=
  ⟨fun s i => conforms_ofInt s (by have := i.le_toInt; omega) (by have := i.toInt_lt; omega)⟩
instance : LawfulMember Int16 :=
  ⟨fun s i => conforms_ofInt s (by have := i.le_toInt; omega) (by have := i.toInt_lt; omega)⟩
instance : LawfulMember Int32 :=
  ⟨fun s i => conforms_ofInt s (by have := i.le_toInt; omega) (by have := i.toInt_lt; omega)⟩
instance : LawfulMember Int64 :=
  ⟨fun s i => conforms_ofInt s i.le_toInt (by have := i.toInt_lt; omega)⟩
instance : LawfulMember UInt8 :=
  ⟨fun s i => conforms_ofInt s (by omega) (by have := i.toNat_lt; omega)⟩
instance : LawfulMember UInt16 :=
  ⟨fun s i => conforms_ofInt s (by omega) (by have := i.toNat_lt; omega)⟩
instance : LawfulMember UInt32 :=
  ⟨fun s i => conforms_ofInt s (by omega) (by have := i.toNat_lt; omega)⟩
instance : LawfulMember UInt64 :=
  ⟨fun s i => conforms_ofInt s (by omega) (by have := i.toNat_lt; omega)⟩
instance : LawfulMember Binary32 := ⟨fun _ _ => .scalar (.inl rfl)⟩
instance : LawfulMember Binary64 := ⟨fun _ _ => .scalar (.inl rfl)⟩
instance : LawfulMember String := ⟨fun _ _ => .scalar (.inl rfl)⟩
instance : LawfulMember Date := ⟨fun _ _ => .scalar (.inl rfl)⟩
instance : LawfulMember LocalDateTime := ⟨fun _ _ => .scalar (.inl rfl)⟩
instance : LawfulMember OffsetDateTime := ⟨fun _ _ => .scalar (.inl rfl)⟩
instance : LawfulMember UtcDateTime := ⟨fun _ _ => .scalar (.inl rfl)⟩

instance {α : Type} [Member α] [LawfulMember α] : LawfulMember (Option α) where
  conforms s a := by
    cases a with
    | none => exact .null _
    | some a => exact conforms s a

instance {α : Type} [Member α] [LawfulMember α] : LawfulMember (List α) where
  conforms s items := by
    refine .list fun v hv => ?_
    obtain ⟨a, -, rfl⟩ := List.mem_map.1 hv
    exact conforms s a

end LawfulMember

/-! ## What paths reach -/

namespace FieldValue

/-- The elements of several values are the elements of each. -/
theorem mem_elementsOf {e : FieldValue} {items : List FieldValue} :
    e ∈ elementsOf items ↔ ∃ v ∈ items, e ∈ v.elements := by
  induction items with
  | nil => simp [elementsOf]
  | cons v rest ih => simp [elementsOf, ih]

/-- **Without the lists around it**, a value conforms to the innermost type. -/
theorem conforms_elements {t : FieldType n} {v e : FieldValue} (h : v.Conforms s t)
    (he : e ∈ v.elements) : e.Conforms s t.innermost := by
  induction h with
  | null t =>
    simp only [elements, List.mem_singleton] at he
    exact he ▸ .null _
  | scalar h =>
    simp only [elements, List.mem_singleton] at he
    exact he ▸ .scalar h
  | list h ih =>
    rw [elements] at he
    obtain ⟨v, hv, he⟩ := mem_elementsOf.1 he
    exact ih v hv he
  | object h ih =>
    simp only [elements, List.mem_singleton] at he
    exact he ▸ .object h

end FieldValue

namespace FieldType

variable {t : FieldType n}

theorem innermost_of_object? {type : Fin n} (h : t.object? = some type) :
    t.innermost = .object type := by
  unfold object? at h
  split at h
  · cases h
    assumption
  · cases h

theorem innermost_of_kind? {kind : Kind} (h : t.kind? = some kind) :
    t.innermost = .scalar kind := by
  unfold kind? at h
  split at h
  · cases h
    assumption
  · cases h

/-- A type without lists is its innermost type. -/
theorem innermost_of_not_isList (h : t.isList = false) : t.innermost = t := by
  cases t with
  | list element => cases h
  | _ => rfl

end FieldType

/-- A resolved path leads through the members that it names. -/
theorem Schema.names_resolveFrom {type : Fin n} {names : List String}
    {segments : List (PathSegment n)} (h : s.resolveFrom type names = .ok segments) :
    segments.map (·.name) = names := by
  fun_induction resolveFrom s type names generalizing segments with
  | case1 =>
    cases h
    rfl
  | case2 => cases h
  | case3 =>
    cases h
    rfl
  | case4 => cases h
  | case5 type name t ht next rest inner hinner ih =>
    obtain ⟨tail, htail, rfl⟩ := map_eq_ok.1 h
    rw [List.map_cons, ih htail]

namespace Record

theorem get_single (name : String) (v : FieldValue) : Record.get [(name, v)] name = v := by
  simp [Record.get]

/-- A record with one member conforms where this member does. -/
theorem conforms_single {type : Fin n} {name : String} {t : FieldType n} {v : FieldValue}
    (ht : (s.shape type).member? name = some t) (h : v.Conforms s t) :
    Record.Conforms s type [(name, v)] := by
  intro other u hu
  by_cases hname : other = name
  · subst hname
    rw [ht] at hu
    cases hu
    rw [get_single]
    exact h
  · have hmissing : Record.get [(name, v)] other = .null := by
      rw [Record.get, List.lookup_cons, beq_eq_false_iff_ne.2 hname]
      rfl
    rw [hmissing]
    exact .null u

/-- **What a resolved path reaches in a record** conforms to the last member of the path. -/
theorem conforms_reached {type : Fin n} {names : List String} {segments : List (PathSegment n)}
    {leaf : PathSegment n} {r : Record} (h : s.resolveFrom type names = .ok segments)
    (hleaf : segments.getLast? = some leaf) (hr : r.Conforms s type) {v : FieldValue}
    (hv : v ∈ r.reached names) : v.Conforms s leaf.type := by
  fun_induction Schema.resolveFrom s type names generalizing segments r v with
  | case1 => cases hv
  | case2 => cases h
  | case3 type name t ht =>
    cases h
    cases hleaf
    rw [reached, List.mem_singleton] at hv
    exact hv ▸ hr name t ht
  | case4 => cases h
  | case5 type name t ht next rest inner hinner ih =>
    obtain ⟨tail, htail, rfl⟩ := map_eq_ok.1 h
    have hnext : tail.getLast? = some leaf := by
      cases tail with
      | nil => cases s.names_resolveFrom htail
      | cons => rwa [List.getLast?_cons_cons] at hleaf
    rw [reached, List.mem_flatMap] at hv
    obtain ⟨e, he, hv⟩ := hv
    have hconforms := FieldValue.conforms_elements (hr name t ht) he
    rw [FieldType.innermost_of_object? hinner] at hconforms
    cases hconforms with
    | null => exact List.mem_singleton.1 hv ▸ .null _
    | object h => exact ih htail hnext h hv

end Record

end Sift
