import Mathlib.Data.List.Forall2
import Sift.Proofs.Reached
import Sift.Proofs.Terms
import Sift.Query.Compile
import Sift.Query.Order

/-!
# Without regard to case only the lower-case forms of texts count

* `FieldValue.CaseVariant`, `Record.CaseVariant`: values of one structure whose texts have the same
  lower-case forms, and which are equal in everything else.
* `Scalar.CaseVariant.compare?_eq`, `Test.holds_caseVariant`: neither a comparison nor a test tells
  such values apart.
* `Record.CaseVariant.reached`: a path reaches case variants in case variants.
* `Schema.results_of_caseVariant`: **neither a compiled filter nor a compiled sort that ignores case
  tells case variants apart.**
-/

namespace Sift

/-! ## Case variants -/

/-- **Two scalars that differ in case alone**: texts with one lower-case form, floats of one rank,
clock readings of one instant, and otherwise the same scalar. -/
inductive Scalar.CaseVariant : Scalar → Scalar → Prop
  | string {a b : String} (h : Text.lowerString a = Text.lowerString b) :
      CaseVariant (.string a) (.string b)
  | float {f g : Binary64} (h : f.rank = g.rank) : CaseVariant (.float f) (.float g)
  | offsetDateTime {t u : OffsetDateTime} (h : t.utc = u.utc) :
      CaseVariant (.offsetDateTime t) (.offsetDateTime u)
  | refl (x : Scalar) : CaseVariant x x

/-- **Two values that differ in the case of their texts alone**, member by member and element by
element. -/
inductive FieldValue.CaseVariant : FieldValue → FieldValue → Prop
  | null : CaseVariant .null .null
  | scalar {x y : Scalar} (h : x.CaseVariant y) : CaseVariant (.scalar x) (.scalar y)
  | object {r r' : Record} (h : ∀ name, CaseVariant (r.get name) (r'.get name)) :
      CaseVariant (.object r) (.object r')
  | list {items items' : List FieldValue} (hlength : items.length = items'.length)
      (h : ∀ v w, (v, w) ∈ items.zip items' → CaseVariant v w) :
      CaseVariant (.list items) (.list items')

/-- Two records whose members differ in the case of their texts alone. -/
def Record.CaseVariant (r r' : Record) : Prop :=
  ∀ name, (r.get name).CaseVariant (r'.get name)

/-- Records with the same members, case variants one by one, are case variants. -/
theorem Record.caseVariant_of_forall₂ {r r' : Record}
    (h : List.Forall₂ (fun m m' => m.1 = m'.1 ∧ m.2.CaseVariant m'.2) r r') :
    r.CaseVariant r' := by
  intro name
  induction h with
  | nil => exact .null
  | @cons m m' rest rest' hm _ ih =>
    obtain ⟨key, v⟩ := m
    obtain ⟨key', v'⟩ := m'
    obtain ⟨rfl, hv⟩ := hm
    unfold Record.get at ih ⊢
    rw [List.lookup_cons, List.lookup_cons]
    cases name == key with
    | true => exact hv
    | false => exact ih

/-- The same number, and the same instant on another clock, are case variants. -/
theorem Scalar.CaseVariant.of_same {x y : Scalar} (h : x.same y = true) : x.CaseVariant y := by
  unfold Scalar.same at h
  split at h
  · next f g =>
    refine .float ?_
    rw [Binary64.sameNumber, Binary64.compare?, beq_iff_eq] at h
    obtain ⟨i, hi, h⟩ := Option.bind_eq_some_iff.1 h
    obtain ⟨j, hj, h⟩ := Option.bind_eq_some_iff.1 h
    have hij : i = j := Std.LawfulEqCmp.eq_of_compare (Option.some.inj h)
    rw [hi, hj, hij]
  · exact .offsetDateTime (eq_of_beq h)
  · exact eq_of_beq h ▸ .refl _

/-! ## Comparisons -/

namespace Scalar.CaseVariant

variable {x x' y y' : Scalar}

theorem compare?_left (h : x.CaseVariant x') (y : Scalar) :
    x.compare? true y = x'.compare? true y := by
  cases h with
  | refl => rfl
  | string h =>
    cases y with
    | string c =>
      have hfolded : folded true _ = folded true _ := h
      rw [Scalar.compare?, Scalar.compare?, hfolded]
    | _ => rfl
  | float h => cases y <;> simp only [Scalar.compare?, Binary64.compare?, h]
  | offsetDateTime h =>
    cases y with
    | offsetDateTime u => exact congrArg (fun t => some (compare t u.utc)) h
    | _ => rfl

theorem compare?_right (x : Scalar) (h : y.CaseVariant y') :
    x.compare? true y = x.compare? true y' := by
  cases h with
  | refl => rfl
  | string h =>
    cases x with
    | string c =>
      have hfolded : folded true _ = folded true _ := h
      rw [Scalar.compare?, Scalar.compare?, hfolded]
    | _ => rfl
  | float h => cases x <;> simp only [Scalar.compare?, Binary64.compare?, h]
  | offsetDateTime h =>
    cases x with
    | offsetDateTime t => exact congrArg (fun u => some (compare t.utc u)) h
    | _ => rfl

/-- **A comparison without regard to case** does not tell case variants apart. -/
theorem compare?_eq (hx : x.CaseVariant x') (hy : y.CaseVariant y') :
    x.compare? true y = x'.compare? true y' :=
  (hx.compare?_left y).trans (compare?_right x' hy)

end Scalar.CaseVariant

namespace FieldValue.CaseVariant

variable {v v' w w' : FieldValue}

theorem isNull_eq (h : v.CaseVariant v') : v.isNull = v'.isNull := by
  cases h <;> rfl

theorem compare?_eq (hv : v.CaseVariant v') (hw : w.CaseVariant w') :
    v.compare? true w = v'.compare? true w' := by
  cases hv with
  | scalar hx =>
    cases hw with
    | scalar hy => exact hx.compare?_eq hy
    | _ => rfl
  | _ => rfl

theorem compare?_scalar (hv : v.CaseVariant v') (s : Scalar) :
    v.compare? true (.scalar s) = v'.compare? true (.scalar s) :=
  hv.compare?_eq (.scalar (.refl s))

theorem equals_scalar (hv : v.CaseVariant v') (s : Scalar) :
    v.equals true (.scalar s) = v'.equals true (.scalar s) :=
  congrArg (· == some Ordering.eq) (hv.compare?_scalar s)

end FieldValue.CaseVariant

/-! ## Tests -/

/-- Texts with one lower-case form are empty together. -/
theorem Text.isEmpty_eq_of_lowerString {a b : String} (h : lowerString a = lowerString b) :
    a.isEmpty = b.isEmpty := by
  have hlower : lower a.toList = lower b.toList := String.ofList_injective h
  have hempty : a = "" ↔ b = "" := by
    rw [← String.toList_eq_nil_iff, ← String.toList_eq_nil_iff, ← lower_eq_nil_iff, hlower,
      lower_eq_nil_iff]
  rw [Bool.eq_iff_iff, String.isEmpty_iff, String.isEmpty_iff, hempty]

namespace Test

mutual

/-- **A test without regard to case** does not tell case variants apart. -/
theorem holds_caseVariant {v w : FieldValue} (h : v.CaseVariant w) :
    ∀ t : Test, t.holds true v = t.holds true w
  | isNull => h.isNull_eq
  | isPresent => congrArg (!·) h.isNull_eq
  | isEmptyText => by
    cases h with
    | scalar h =>
      cases h with
      | string h => exact Text.isEmpty_eq_of_lowerString h
      | _ => rfl
    | _ => rfl
  | isEmptyList => by
    cases h with
    | list hlength h =>
      have hempty : ∀ items items' : List FieldValue, items.length = items'.length →
          items.isEmpty = items'.isEmpty := by
        rintro (_ | _) (_ | _) hlength <;> first | rfl | cases hlength
      exact hempty _ _ hlength
    | _ => rfl
  | equals s => h.equals_scalar s
  | equalsSome choices => by simp only [holds, h.equals_scalar]
  | above s orEqual => congrArg (ordered _) (h.compare?_scalar s)
  | within min max => by simp only [holds, h.isNull_eq, h.compare?_scalar]
  | text place piece => by
    cases h with
    | scalar h =>
      cases h with
      | string h => exact congrArg (fun c => place.holds (folded true piece).toList c.toList) h
      | _ => rfl
    | _ => rfl
  | not t => congrArg (!·) (holds_caseVariant h t)
  | either left right =>
    congrArg₂ (· || ·) (holds_caseVariant h left) (holds_caseVariant h right)
  | any tests => anyHolds_caseVariant h tests

theorem anyHolds_caseVariant {v w : FieldValue} (h : v.CaseVariant w) :
    ∀ tests : List Test, anyHolds true tests v = anyHolds true tests w
  | [] => rfl
  | t :: rest => congrArg₂ (· || ·) (holds_caseVariant h t) (anyHolds_caseVariant h rest)

end

end Test

/-! ## Paths -/

/-- A test that does not tell related values apart does not tell related lists apart. -/
theorem any_eq_of_forall₂ {α β : Type} {R : α → β → Prop} {f : α → Bool} {g : β → Bool}
    {as : List α} {bs : List β} (h : List.Forall₂ R as bs) (hfg : ∀ a b, R a b → f a = g b) :
    as.any f = bs.any g := by
  induction h with
  | nil => rfl
  | cons hab _ ih => rw [List.any_cons, List.any_cons, hfg _ _ hab, ih]

namespace FieldValue.CaseVariant

variable {v v' : FieldValue}

theorem forall₂_elements (h : v.CaseVariant v') :
    List.Forall₂ CaseVariant v.elements v'.elements := by
  induction h with
  | null => exact .cons .null .nil
  | scalar h => exact .cons (.scalar h) .nil
  | object h => exact .cons (.object h) .nil
  | @list items items' hlength _ ih =>
    have hitems : List.Forall₂ (fun v w => List.Forall₂ CaseVariant v.elements w.elements)
        items items' := List.forall₂_iff_zip.2 ⟨hlength, fun h => ih _ _ h⟩
    have hof : ∀ {vs ws : List FieldValue},
        List.Forall₂ (fun v w => List.Forall₂ CaseVariant v.elements w.elements) vs ws →
          List.Forall₂ CaseVariant (elementsOf vs) (elementsOf ws) := by
      intro vs ws h
      induction h with
      | nil => exact .nil
      | cons hfirst _ ih => exact List.rel_append hfirst ih
    exact hof hitems

theorem anyElement_eq {test : FieldValue → Bool}
    (htest : ∀ v w, v.CaseVariant w → test v = test w) (h : v.CaseVariant v') :
    v.anyElement test = v'.anyElement test := by
  rw [anyElement_eq_any, anyElement_eq_any]
  exact any_eq_of_forall₂ h.forall₂_elements htest

/-- NaN counts as null for case variants together. -/
theorem sortValue (h : v.CaseVariant v') : v.sortValue.CaseVariant v'.sortValue := by
  cases h with
  | @scalar x y h =>
    cases h with
    | @float f g h =>
      cases f <;> cases g <;> first | exact .null | exact .scalar (.float h) | cases h
    | refl =>
      cases x with
      | float f => cases f <;> first | exact .null | exact .scalar (.refl _)
      | _ => exact .scalar (.refl _)
    | string h => exact .scalar (.string h)
    | offsetDateTime h => exact .scalar (.offsetDateTime h)
  | null => exact .null
  | object h => exact .object h
  | list hlength h => exact .list hlength h

end FieldValue.CaseVariant

namespace Record.CaseVariant

variable {r r' : Record}

/-- **A path reaches case variants in case variants**, one by one. -/
theorem reached (h : r.CaseVariant r') (names : List String) :
    List.Forall₂ FieldValue.CaseVariant (r.reached names) (r'.reached names) := by
  fun_induction Record.reached names r generalizing r' with
  | case1 => exact .nil
  | case2 name r => exact .cons (h name) .nil
  | case3 name next rest r ih =>
    rw [Record.reached]
    refine List.rel_flatMap (h name).forall₂_elements ?_
    intro v w hvw
    cases hvw with
    | object h => exact ih _ h
    | _ => exact .cons .null .nil

theorem singleValue (h : r.CaseVariant r') (names : List String) :
    (Record.singleValue names r).CaseVariant (Record.singleValue names r') := by
  fun_induction Record.singleValue names r generalizing r' with
  | case1 => exact .null
  | case2 name r => exact h name
  | case3 name next rest r members hmembers ih =>
    have hname := h name
    rw [hmembers] at hname
    rw [Record.singleValue]
    cases hmembers' : r'.get name with
    | object members' =>
      rw [hmembers'] at hname
      cases hname with
      | object h => exact ih h
    | _ => rw [hmembers'] at hname; cases hname
  | case4 name next rest r hno =>
    have hname := h name
    rw [Record.singleValue]
    cases hvalue : r'.get name with
    | object members' =>
      rw [hvalue] at hname
      generalize r.get name = v at hname hno
      cases hname with
      | object h => exact absurd rfl (hno _)
    | _ => exact .null

end Record.CaseVariant

/-! ## Predicates and orders -/

namespace Predicate

theorem leafTest_caseVariant (lifted : Bool) (test : Test) {v w : FieldValue}
    (h : v.CaseVariant w) : leafTest true lifted test v = leafTest true lifted test w := by
  have htest : ∀ v w, v.CaseVariant w → test.holds true v = test.holds true w :=
    fun _ _ h => Test.holds_caseVariant h test
  cases lifted with
  | true => exact h.anyElement_eq htest
  | false => exact htest v w h

variable {r r' : Record}

mutual

/-- **A predicate without regard to case** does not tell case variants apart. -/
theorem accepts_caseVariant (h : r.CaseVariant r') :
    ∀ p : Predicate, p.accepts true r = p.accepts true r'
  | always => rfl
  | field names test lifted negated => by
    rw [accepts, accepts, Record.anyValue_eq_any, Record.anyValue_eq_any]
    have hreached := h.reached names
    rw [any_eq_of_forall₂ hreached fun _ _ => leafTest_caseVariant lifted test]
  | all members => allAccept_caseVariant h members
  | any members => anyAccepts_caseVariant h members

theorem allAccept_caseVariant (h : r.CaseVariant r') :
    ∀ ps : List Predicate, allAccept true ps r = allAccept true ps r'
  | [] => rfl
  | p :: rest => congrArg₂ (· && ·) (accepts_caseVariant h p) (allAccept_caseVariant h rest)

theorem anyAccepts_caseVariant (h : r.CaseVariant r') :
    ∀ ps : List Predicate, anyAccepts true ps r = anyAccepts true ps r'
  | [] => rfl
  | p :: rest => congrArg₂ (· || ·) (accepts_caseVariant h p) (anyAccepts_caseVariant h rest)

end

end Predicate

section Orders

variable {a a' b b' : Record}

theorem OrderKey.compare_caseVariant (k : OrderKey) (ha : a.CaseVariant a')
    (hb : b.CaseVariant b') : k.compare true a b = k.compare true a' b' := by
  have hleft := (ha.singleValue k.names).sortValue
  have hright := (hb.singleValue k.names).sortValue
  simp only [compare, FieldValue.sortCompare, hleft.isNull_eq, hright.isNull_eq,
    hleft.compare?_eq hright]

/-- **An order without regard to case** does not tell case variants apart. -/
theorem RecordOrder.compare_caseVariant (keys : List OrderKey) (ha : a.CaseVariant a')
    (hb : b.CaseVariant b') :
    (RecordOrder.mk keys true).compare a b = (RecordOrder.mk keys true).compare a' b' := by
  induction keys with
  | nil => rfl
  | cons k keys ih =>
    have hfirst := k.compare_caseVariant ha hb
    exact congrArg₂ Ordering.then hfirst ih

end Orders

namespace Schema

variable {n : Nat} (s : Schema n)

/-- **Where case is ignored only lower-case forms count.** A compiled filter accepts a record
exactly when it accepts its case variants, and a compiled sort that ignores case puts case variants
of two records in the order of the two. -/
theorem results_of_caseVariant :
    (∀ node p, s.compile node = .ok p → ∀ r r' : Record, r.CaseVariant r' →
      p.accepts true r = p.accepts true r') ∧
    ∀ sorting o, s.compileSort true sorting = .ok o →
      ∀ a a' b b' : Record, a.CaseVariant a' → b.CaseVariant b' →
        o.compare a b = o.compare a' b' := by
  refine ⟨fun node p _ r r' h => p.accepts_caseVariant h, ?_⟩
  intro sorting o ho a a' b b' ha hb
  obtain ⟨keys, -, ho⟩ := bind_eq_ok.1 ho
  cases ho
  exact RecordOrder.compare_caseVariant keys ha hb

/-- A list of names where one is `ΟΔΥΣΣΕΎΣ`, whose last sigma has a lower-case form of its own, and
another holds the sign of the kelvin, on a record that is found and one that is sorted. -/
theorem results_of_caseVariant_names :
    ∃ (s : Schema 1) (node : Node) (sorting : Sorting) (p : Predicate) (o : RecordOrder)
      (r r' other : Record), s.compile node = .ok p ∧ s.compileSort true sorting = .ok o ∧
        r.CaseVariant r' ∧ p.accepts false r = true ∧ p.accepts false r' = false ∧
          p.accepts true r' = true ∧ o.compare r other = .lt ∧ o.compare r' other = .lt := by
  let s : Schema 1 :=
    ⟨fun _ => ⟨"Hero", [("Name", .scalar .string), ("Titles", .list (.scalar .string))]⟩, 0⟩
  let node : Node := .group .multi .or
    [.leaf (.on "Titles" .eq (.string "ΟΔΥΣΣΕΎΣ")), .leaf (.on "Name" .isEmpty .null)]
  let sorting : Sorting := .several [⟨"Name", .ascending⟩]
  let text (x : String) : FieldValue := .scalar (.string x)
  let r : Record := [("Name", text "300 \u212A"), ("Titles", .list [text "ΟΔΥΣΣΕΎΣ", .null])]
  let r' : Record := [("Name", text "300 k"), ("Titles", .list [text "οδυσσεύς", .null])]
  let other : Record := [("Name", text "300 L")]
  have hname : (text "300 \u212A").CaseVariant (text "300 k") :=
    .scalar (.string (by decide +kernel))
  have htitle : (text "ΟΔΥΣΣΕΎΣ").CaseVariant (text "οδυσσεύς") :=
    .scalar (.string (by decide +kernel))
  have htitles : FieldValue.CaseVariant (.list [text "ΟΔΥΣΣΕΎΣ", .null])
      (.list [text "οδυσσεύς", .null]) := by
    refine .list rfl fun v w hvw => ?_
    simp only [List.zip_cons_cons, List.zip_nil_right, List.mem_cons, Prod.mk.injEq,
      List.not_mem_nil, or_false] at hvw
    obtain ⟨rfl, rfl⟩ | ⟨rfl, rfl⟩ := hvw
    · exact htitle
    · exact .null
  have hvariant : r.CaseVariant r' :=
    Record.caseVariant_of_forall₂ (.cons ⟨rfl, hname⟩ (.cons ⟨rfl, htitles⟩ .nil))
  have hother : other.CaseVariant other :=
    Record.caseVariant_of_forall₂ (.cons ⟨rfl, .scalar (.refl _)⟩ .nil)
  let o : RecordOrder := ⟨[⟨["Name"], .ascending⟩], true⟩
  have ho : s.compileSort true sorting = .ok o := toOption_eq_some.1 (by decide +kernel)
  have hanswers : (s.compile node).toOption.map (fun p =>
      (p.accepts false r, p.accepts false r', p.accepts true r)) = some (true, false, true) := by
    decide +kernel
  obtain ⟨p, hp, hanswers⟩ := Option.map_eq_some_iff.1 hanswers
  rw [toOption_eq_some] at hp
  simp only [Prod.mk.injEq] at hanswers
  obtain ⟨hexact, hexact', hr⟩ := hanswers
  obtain ⟨hfilter, hsort⟩ := s.results_of_caseVariant
  have hlt : o.compare r other = .lt := by decide +kernel
  refine ⟨s, node, sorting, p, o, r, r', other, hp, ho, hvariant, hexact, hexact', ?_, hlt, ?_⟩
  · rw [← hfilter node p hp r r' hvariant]
    exact hr
  · rw [← hsort sorting o ho r r' other other hvariant hother]
    exact hlt

end Schema

end Sift
