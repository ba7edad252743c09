import Sift.Derive.Generated
import Sift.Proofs.Literals
import Sift.Proofs.Options
import Sift.Proofs.References

/-!
# Member tables and the fields behind them

* `Declaration.exposed`, `Declaration.nameOf`: the fields with a member, and the names of these.
* `Declaration.memberTable_eq_ok`: **which declarations have a member table**, and which.
* `MemberTable.Reflects`: a table that does what its declaration says.
* `Declaration.memberTable_reflects`: **a declaration has a member table if the names are distinct,
  and then its shape and its accessor lead from every name to the same field.**
-/

namespace Sift

/-! ## Fields and their names -/

namespace FieldDeclaration

/-- Whether an attribute says that there is no member for the field. -/
def isSkipped (f : FieldDeclaration) : Bool :=
  (filterableArguments f.attributes).any (·.1 = "skip")

/-- The name that an attribute gives to the member. -/
def rename? (f : FieldDeclaration) : Option String :=
  lastGiven nameGiven (filterableArguments f.attributes)

/-- The name of the field without the mark of a raw identifier. -/
def ownName (f : FieldDeclaration) : List Char := plainName f.name.toList

/-- Whether every argument of its attributes is understood. -/
def IsUnderstood (f : FieldDeclaration) : Prop :=
  ∀ a ∈ filterableArguments f.attributes, IsFieldArgument a

end FieldDeclaration

namespace Declaration

/-- The case that an attribute gives to the names of all members. -/
def renameAll? (d : Declaration) : Option NameCase :=
  lastGiven caseGiven (filterableArguments d.attributes)

/-- **The fields with a member.** -/
def exposed (d : Declaration) : List FieldDeclaration := d.fields.filter (!·.isSkipped)

/-- **The name of the member for a field**: the one given to it, or else its own, in the case given
to all. -/
def nameOf (d : Declaration) (f : FieldDeclaration) : String :=
  match f.rename?, d.renameAll? with
  | some name, _ => name
  | none, some c => String.ofList (c.apply f.ownName)
  | none, none => String.ofList f.ownName

/-- The member for a field. -/
def entry (d : Declaration) (f : FieldDeclaration) : MemberEntry := ⟨d.nameOf f, f.name, f.type⟩

/-- Whether every argument of the attributes is understood. -/
structure IsUnderstood (d : Declaration) : Prop where
  type : ∀ a ∈ filterableArguments d.attributes, IsTypeArgument a
  fields : ∀ f ∈ d.fields, f.IsUnderstood

/-- The table with a member for every field that is not skipped. -/
def table (d : Declaration) : MemberTable where
  typeName := d.name
  members := d.exposed.map d.entry
  root := (lastGiven rootGiven (filterableArguments d.attributes)).getD "::strainer"
  parameters := TypeParameter.ofTexts d.parameters
  constraints := d.constraints.map compact

end Declaration

/-! ## One field after another -/

section Members

variable {d : Declaration} {options : TypeOptions} {f : FieldDeclaration}
  {fields : List FieldDeclaration} {found members : List MemberEntry}

theorem memberName_eq (h : options.renameAll = d.renameAll?) :
    memberName options f ⟨f.rename?, f.isSkipped⟩ = d.nameOf f := by
  rw [memberName, Declaration.nameOf, h]
  cases f.rename? with
  | some name => rfl
  | none => cases d.renameAll? <;> rfl

/-- A field whose attributes are understood adds nothing if it is skipped, and otherwise its member,
unless the name is there already. -/
theorem addMember_of_understood (h : options.renameAll = d.renameAll?) (hf : f.IsUnderstood) :
    addMember options found f =
      if f.isSkipped then .ok found
      else if d.nameOf f ∈ found.map (·.name) then .error (.duplicateName (d.nameOf f))
      else .ok (found ++ [d.entry f]) := by
  have hoptions : fieldOptions f.attributes = .ok ⟨f.rename?, f.isSkipped⟩ :=
    fieldOptions_eq_ok.2 ⟨hf, rfl⟩
  have hthere : found.any (·.name = d.nameOf f) = true ↔ d.nameOf f ∈ found.map (·.name) := by
    simp
  have hname := memberName_eq (f := f) h
  rw [addMember, hoptions]
  show (if f.isSkipped = true then _ else _) = _
  rw [hname]
  by_cases hskip : f.isSkipped = true
  · rw [if_pos hskip, if_pos hskip]
    rfl
  · rw [if_neg hskip, if_neg hskip]
    by_cases hmem : d.nameOf f ∈ found.map (·.name)
    · rw [if_pos hmem]
      exact if_pos (hthere.2 hmem)
    · rw [if_neg hmem]
      exact if_neg (mt hthere.1 hmem)

/-- **What one field adds**: nothing if it is skipped, and otherwise its member, whose name must not
be there already. -/
theorem addMember_eq_ok (h : options.renameAll = d.renameAll?)
    (hfound : (found.map (·.name)).Nodup) :
    addMember options found f = .ok members ↔ f.IsUnderstood ∧
      members = found ++ ([f].filter (!·.isSkipped)).map d.entry ∧
      (members.map (·.name)).Nodup := by
  by_cases hf : f.IsUnderstood
  · rw [addMember_of_understood h hf]
    have hnew : ((found ++ [d.entry f]).map (·.name)).Nodup ↔
        d.nameOf f ∉ found.map (·.name) := by
      rw [List.map_append, List.perm_append_comm.nodup_iff]
      exact List.nodup_cons.trans (and_iff_left hfound)
    split
    · next hskip =>
      have hadded : [f].filter (!·.isSkipped) = [] := List.filter_cons_of_neg (by simp [hskip])
      rw [hadded, List.map_nil, List.append_nil, Except.ok.injEq, eq_comm]
      exact ⟨fun heq => ⟨hf, heq, heq ▸ hfound⟩, fun hadd => hadd.2.1⟩
    · next hskip =>
      have hadded : [f].filter (!·.isSkipped) = [f] := List.filter_cons_of_pos (by simp [hskip])
      rw [hadded, List.map_singleton]
      split
      · next hmem =>
        refine ⟨fun hadd => (by cases hadd), ?_⟩
        rintro ⟨-, rfl, hnodup⟩
        exact absurd hmem (hnew.1 hnodup)
      · next hmem =>
        rw [Except.ok.injEq, eq_comm]
        exact ⟨fun heq => ⟨hf, heq, heq ▸ hnew.2 hmem⟩, fun hadd => hadd.2.1⟩
  · constructor
    · intro hadd
      obtain ⟨o, ho, -⟩ := bind_eq_ok.1 hadd
      exact absurd (fieldOptions_eq_ok.1 ho).1 hf
    · exact fun hadd => absurd hadd.1 hf

/-- **What several fields add**: the members for those that are not skipped, in the order of the
fields, whose names must be distinct from those before and from each other. -/
theorem foldlM_addMember_eq_ok (h : options.renameAll = d.renameAll?)
    (hfound : (found.map (·.name)).Nodup) :
    fields.foldlM (addMember options) found = .ok members ↔ (∀ f ∈ fields, f.IsUnderstood) ∧
      members = found ++ (fields.filter (!·.isSkipped)).map d.entry ∧
      (members.map (·.name)).Nodup := by
  induction fields generalizing found with
  | nil =>
    simp only [List.foldlM_nil, List.filter_nil, List.map_nil, List.append_nil]
    constructor
    · rintro ⟨⟩
      exact ⟨by simp, rfl, hfound⟩
    · rintro ⟨-, rfl, -⟩
      rfl
  | cons f fields ih =>
    have hsplit : found ++ ((f :: fields).filter (!·.isSkipped)).map d.entry =
        found ++ ([f].filter (!·.isSkipped)).map d.entry ++
          (fields.filter (!·.isSkipped)).map d.entry := by
      rw [← List.singleton_append, List.filter_append, List.map_append, List.append_assoc]
    rw [List.foldlM_cons, bind_eq_ok, List.forall_mem_cons, hsplit]
    constructor
    · rintro ⟨next, hadd, hrest⟩
      obtain ⟨hf, rfl, hnew⟩ := (addMember_eq_ok h hfound).1 hadd
      obtain ⟨hfields, hmembers⟩ := (ih hnew).1 hrest
      exact ⟨⟨hf, hfields⟩, hmembers⟩
    · rintro ⟨⟨hf, hfields⟩, rfl, hdistinct⟩
      have hnew : ((found ++ ([f].filter (!·.isSkipped)).map d.entry).map (·.name)).Nodup := by
        rw [List.map_append] at hdistinct
        exact (List.nodup_append.1 hdistinct).1
      exact ⟨_, (addMember_eq_ok h hfound).2 ⟨hf, rfl, hnew⟩,
        (ih hnew).2 ⟨hfields, rfl, hdistinct⟩⟩

end Members

namespace Declaration

variable {d : Declaration} {t : MemberTable}

theorem map_name_entry (fields : List FieldDeclaration) :
    (fields.map d.entry).map (·.name) = fields.map d.nameOf := by
  rw [List.map_map]
  rfl

/-- **Which declarations have a member table**: those of records whose attributes are understood and
whose members have distinct names. -/
theorem memberTable_eq_ok : d.memberTable = .ok t ↔
    d.kind = .record ∧ d.IsUnderstood ∧ (d.exposed.map d.nameOf).Nodup ∧ t = d.table := by
  have hrecord (hkind : d.kind = .record) : d.memberTable = (do
      let options ← typeOptions d.attributes
      let members ← d.fields.foldlM (addMember options) []
      return ⟨d.name, members, options.root, TypeParameter.ofTexts d.parameters,
        d.constraints.map compact⟩) := by
    rw [memberTable, hkind]
  have hnone : ((([] : List MemberEntry)).map (·.name)).Nodup := List.nodup_nil
  constructor
  · intro h
    have hkind : d.kind = .record := by
      rw [memberTable] at h
      cases hkind : d.kind <;> rw [hkind] at h <;> first | rfl | cases h
    rw [hrecord hkind] at h
    obtain ⟨options, hoptions, h⟩ := bind_eq_ok.1 h
    obtain ⟨members, hmembers, h⟩ := bind_eq_ok.1 h
    obtain ⟨htype, rfl⟩ := typeOptions_eq_ok.1 hoptions
    obtain ⟨hfields, rfl, hdistinct⟩ := (foldlM_addMember_eq_ok rfl hnone).1 hmembers
    cases h
    rw [List.nil_append, map_name_entry] at hdistinct
    exact ⟨hkind, ⟨htype, hfields⟩, hdistinct, rfl⟩
  · rintro ⟨hkind, hunderstood, hdistinct, rfl⟩
    have hmembers : d.fields.foldlM (addMember ⟨d.renameAll?, d.table.root⟩) [] =
        .ok (d.exposed.map d.entry) :=
      (foldlM_addMember_eq_ok rfl hnone).2
        ⟨hunderstood.fields, rfl, by rwa [map_name_entry]⟩
    rw [hrecord hkind]
    exact bind_eq_ok.2 ⟨_, typeOptions_eq_ok.2 ⟨hunderstood.type, rfl⟩,
      bind_eq_ok.2 ⟨_, hmembers, rfl⟩⟩

/-! ## What a table does -/

/-- **The field that a name stands for**: the first one with a member of the name. -/
def fieldNamed? (d : Declaration) (name : String) : Option FieldDeclaration :=
  d.exposed.find? (d.nameOf · == name)

/-- **Whether a type parameter has to have values of its own**: its name occurs, between any number
of brackets, in the type of a field with a member. -/
def Binds (d : Declaration) (p : TypeParameter) : Prop :=
  p.kind = .type ∧ ∃ f ∈ d.exposed, ∃ depth,
    LexemeTree.OccursAt p.name.toList depth (LexemeTree.ofText f.type)

end Declaration

open Classical in
/-- **A table that does what its declaration says.** -/
structure MemberTable.Reflects (t : MemberTable) (d : Declaration) : Prop where
  /-- The members are those of the fields that are not skipped, in their order. -/
  members : t.members = d.exposed.map d.entry
  /-- A name stands for at most one field with a member. -/
  named (f : FieldDeclaration) (name : String) :
    d.fieldNamed? name = some f ↔ f ∈ d.exposed ∧ d.nameOf f = name
  /-- The shape leads from a name to what the field holds that it stands for. -/
  shape {n : Nat} (fieldType : String → FieldType n) (name : String) :
    (t.shape fieldType).member? name = (d.fieldNamed? name).map fun f => fieldType f.type
  /-- The accessor leads from a name to the field that it stands for. -/
  access (name : String) : t.access? name = (d.fieldNamed? name).map fun f => "&self." ++ f.name
  /-- Behind the constraints declared there is one for every type parameter that has to have values,
  in the order in which the parameters are declared. -/
  constraints : t.allConstraints = d.constraints.map compact ++
    ((d.parameters.map TypeParameter.ofText).filter fun p => d.Binds p).map fun p =>
      p.name ++ ":" ++ t.traitPath "Member"

/-! ### Names -/

section Names

variable {α β : Type}

theorem lookup_map (key : α → String) (value : α → β) (xs : List α) (k : String) :
    (xs.map fun x => (key x, value x)).lookup k = (xs.find? (key · == k)).map value := by
  induction xs with
  | nil => rfl
  | cons x xs ih =>
    rw [List.map_cons, List.lookup_cons, List.find?_cons, ih, Bool.beq_comm]
    cases key x == k <;> rfl

theorem find?_eq_some_of_nodup {key : α → String} {xs : List α} (h : (xs.map key).Nodup) {x : α}
    {k : String} : xs.find? (key · == k) = some x ↔ x ∈ xs ∧ key x = k := by
  constructor
  · intro hx
    have hkey : (key x == k) = true := List.find?_some (p := (key · == k)) hx
    exact ⟨List.mem_of_find?_eq_some hx, beq_iff_eq.1 hkey⟩
  · rintro ⟨hx, rfl⟩
    induction xs with
    | nil => cases hx
    | cons y xs ih =>
      rw [List.map_cons, List.nodup_cons] at h
      rcases List.mem_cons.1 hx with rfl | hx
      · exact List.find?_cons_of_pos (beq_self_eq_true _)
      · have hne : key y ≠ key x := fun heq => h.1 (heq ▸ List.mem_map_of_mem hx)
        rw [List.find?_cons_of_neg (by simpa using hne)]
        exact ih h.2 hx

end Names

namespace Declaration

variable {d : Declaration} {t : MemberTable}

theorem member?_shape {n : Nat} (fieldType : String → FieldType n) (name : String) :
    (d.table.shape fieldType).member? name =
      (d.fieldNamed? name).map fun f => fieldType f.type := by
  rw [MemberTable.shape, Shape.member?, lookup_map, table, List.find?_map, Option.map_map]
  rfl

theorem access?_table (name : String) :
    d.table.access? name = (d.fieldNamed? name).map fun f => "&self." ++ f.name := by
  have hliteral (f : FieldDeclaration) :
      (TextLiteral.value? (d.entry f).literal == some name) = (d.nameOf f == name) := by
    rw [MemberEntry.value_literal]
    rfl
  rw [MemberTable.access?, MemberTable.arms, table, List.map_map, List.find?_map, Option.map_map]
  simp only [Function.comp_def, hliteral]
  rfl

/-! ### Type parameters -/

theorem filter_ofTexts (declared : List String) (Q : TypeParameter → Bool) :
    (TypeParameter.ofTexts declared).filter (fun p => p.kind = .type && Q p) =
      (declared.map TypeParameter.ofText).filter fun p => p.kind = .type && Q p := by
  have hlifetimes : ((declared.map TypeParameter.ofText).filter (·.kind = .lifetime)).filter
      (fun p => p.kind = .type && Q p) = [] := by
    refine List.filter_eq_nil_iff.2 fun p hp => ?_
    have hkind : p.kind = .lifetime := of_decide_eq_true (List.mem_filter.1 hp).2
    simp [hkind]
  rw [TypeParameter.ofTexts, List.filter_append, hlifetimes, List.nil_append, List.filter_filter]
  refine List.filter_congr fun p _ => ?_
  cases p.kind <;> simp

open Classical in
theorem boundParameters_table :
    d.table.boundParameters =
      (d.parameters.map TypeParameter.ofText).filter fun p => d.Binds p := by
  rw [MemberTable.boundParameters]
  refine (filter_ofTexts d.parameters _).trans (List.filter_congr fun p _ => ?_)
  rw [Bool.eq_iff_iff, decide_eq_true_iff]
  simp [Binds, table, entry, mentions_iff_occurs]

/-- **A declaration has a member table** exactly if the names of its members are distinct, provided
that it declares a record and its attributes are understood. In the shape and in the accessor every
name then stands for the same field, and the table asks for the type parameters that occur in the
types of fields with a member. Fields that are skipped have no part in any of this. -/
theorem memberTable_reflects (hkind : d.kind = .record) (hunderstood : d.IsUnderstood) :
    ((∃ t, d.memberTable = .ok t) ↔ (d.exposed.map d.nameOf).Nodup) ∧
      ∀ t, d.memberTable = .ok t → t.Reflects d := by
  constructor
  · constructor
    · rintro ⟨t, h⟩
      exact (memberTable_eq_ok.1 h).2.2.1
    · intro hdistinct
      exact ⟨d.table, memberTable_eq_ok.2 ⟨hkind, hunderstood, hdistinct, rfl⟩⟩
  · intro t h
    obtain ⟨-, -, hdistinct, rfl⟩ := memberTable_eq_ok.1 h
    exact {
      members := rfl
      named := fun f name => find?_eq_some_of_nodup hdistinct
      shape := member?_shape
      access := access?_table
      constraints := by rw [MemberTable.allConstraints, boundParameters_table]; rfl }

/-- A skipped field that asks for the name of another one and for a type parameter, next to a raw
identifier in another case, a type parameter within brackets and a name with quotes. -/
theorem memberTable_reflects_cached : ∃ (d : Declaration) (t : MemberTable),
    d.kind = .record ∧ d.IsUnderstood ∧ (d.exposed.map d.nameOf).Nodup ∧
      d.exposed.map d.nameOf = ["FirstType", "a \"b\""] ∧ d.memberTable = .ok t ∧ t.Reflects d ∧
      t.access? "a \"b\"" = some "&self.alias" ∧
      t.allConstraints = ["C:Ord", "T:::strainer::Member"] := by
  let skipped : Attribute := ⟨"filterable", [("rename", some "FirstType"), ("skip", none)]⟩
  let d : Declaration := {
    kind := .record
    name := "Cached"
    parameters := ["T: Clone", "'a", "C = u8"]
    constraints := ["C: Ord"]
    attributes := [⟨"filterable", [("rename_all", some "PascalCase")]⟩]
    fields := [⟨"r#first_type", "Vec<[(&'a str, T); 2]>", [⟨"doc", []⟩]⟩, ⟨"cache", "C", [skipped]⟩,
      ⟨"alias", "String", [⟨"filterable", [("rename", some "a \"b\"")]⟩]⟩] }
  have hunderstood : d.IsUnderstood := by
    refine ⟨List.forall_mem_singleton.2 (.renameAll .pascal), ?_⟩
    refine List.forall_mem_cons.2 ⟨List.forall_mem_nil _, List.forall_mem_cons.2 ⟨?_, ?_⟩⟩
    · exact List.forall_mem_cons.2 ⟨.rename (by decide), List.forall_mem_singleton.2 .skip⟩
    · exact List.forall_mem_singleton.2 (List.forall_mem_singleton.2 (.rename (by decide)))
  have hnames : d.exposed.map d.nameOf = ["FirstType", "a \"b\""] := by decide +kernel
  have hdistinct : (d.exposed.map d.nameOf).Nodup := hnames ▸ by decide
  have htable := memberTable_reflects rfl hunderstood
  obtain ⟨t, ht⟩ := htable.1.2 hdistinct
  have hreflects := htable.2 t ht
  have hresults : (d.memberTable.toOption.map fun t =>
      (t.access? "a \"b\"", t.allConstraints)) =
        some (some "&self.alias", ["C:Ord", "T:::strainer::Member"]) := by decide +kernel
  rw [ht] at hresults
  obtain ⟨haccess, hconstraints⟩ := Prod.mk.inj (Option.some.inj hresults)
  exact ⟨d, t, rfl, hunderstood, hdistinct, hnames, ht, hreflects, haccess, hconstraints⟩

end Declaration

end Sift
