import Sift.Proofs.Meaning
import Sift.Proofs.PathSearch

/-!
# Orders and ranges

`gt` and `gte` ask for a value above another one, `lt` and `lte` are their complements, and `eq` and
ranges are tests of their own.

* `Test.holds_above_orEqual`, `Test.holds_within_from`, `Test.holds_within_between`: the tests
  against each other, for a single value.
* `Operand.OrderedAs`: an operand that the values of a field can be above;
  `orderTest_eq_ok`, `equalityTest_eq_ok`, `rangeTest_eq_ok`: all tests read their operands alike.
* `Schema.accepts_single`: a path without lists asks about one value.
* `Schema.compile_orders`, `Schema.compile_between`, `Schema.compile_from`: the predicates.
* `Schema.orders_coherent`: **orders and ranges are coherent**, nulls and NaN included.
-/

namespace Sift

/-! ## Tests -/

namespace Test

variable {ignoreCase : Bool} {x y : Scalar} {v : FieldValue}

/-- A value is above another one or equal to it where it is one of both. -/
theorem holds_above_orEqual : (above x true).holds ignoreCase v =
    ((above x false).holds ignoreCase v || (equals x).holds ignoreCase v) := by
  simp only [holds, FieldValue.equals]
  cases v.compare? ignoreCase (.scalar x) with
  | none => rfl
  | some o => cases o <;> rfl

/-- No value is equal to one that it is above. -/
theorem not_equals_of_above (h : (above x false).holds ignoreCase v = true) :
    (equals x).holds ignoreCase v = false := by
  simp only [holds, FieldValue.equals] at h ⊢
  cases hx : v.compare? ignoreCase (.scalar x) with
  | none => rfl
  | some o =>
    rw [hx] at h
    cases o <;> first | rfl | cases h

theorem holds_within_from :
    (within (some x) none).holds ignoreCase v = (above x true).holds ignoreCase v := by
  simp only [holds]
  cases hx : v.compare? ignoreCase (.scalar x) with
  | none => simp [ordered, hx]
  | some o =>
    have hpresent : v.isNull = false := by
      cases v with
      | null => cases hx
      | _ => rfl
    cases o <;> simp [ordered, hx, hpresent]

/-- What is in a range is not below its lower end and not above its upper one. A value without an
order to the upper end would be above neither, so it must have none to the lower end. -/
theorem holds_within_between
    (h : (above x true).holds ignoreCase v = true →
      ∃ o, v.compare? ignoreCase (.scalar y) = some o) :
    (within (some x) (some y)).holds ignoreCase v =
      ((above x true).holds ignoreCase v && !(above y false).holds ignoreCase v) := by
  have hfrom : (within (some x) none).holds ignoreCase v = (above x true).holds ignoreCase v :=
    holds_within_from
  have hsplit : (within (some x) (some y)).holds ignoreCase v =
      ((within (some x) none).holds ignoreCase v &&
        ordered (· != .gt) (v.compare? ignoreCase (.scalar y))) := by
    simp [holds]
  rw [hsplit, hfrom]
  cases hx : (above x true).holds ignoreCase v with
  | false => rfl
  | true =>
    obtain ⟨o, ho⟩ := h hx
    simp only [holds, ho]
    cases o <;> rfl

end Test

/-- A NaN has no order to anything. -/
theorem FieldValue.compare?_nan (ignoreCase : Bool) (x : Scalar) :
    (FieldValue.scalar (.float .nan)).compare? ignoreCase (.scalar x) = none := by
  cases x <;> rfl

/-- What may be above a literal of a kind has an order to every literal of the kind but a NaN. -/
theorem FieldValue.compare?_of_above {n : Nat} {s : Schema n} {ignoreCase orEqual : Bool}
    {v : FieldValue} {x y : Scalar} (hv : v.Conforms s (.scalar y.kind)) (hy : y ≠ .float .nan)
    (h : (Test.above x orEqual).holds ignoreCase v = true) :
    ∃ o, v.compare? ignoreCase (.scalar y) = some o := by
  have hordered : v.compare? ignoreCase (.scalar x) ≠ none := by
    intro hnone
    rw [Test.holds, hnone] at h
    cases h
  refine FieldValue.comparesWith_of_conforms hv (fun hnull => ?_) (fun hnan => ?_) hy
  · exact hordered (hnull ▸ rfl)
  · exact hordered (hnan ▸ FieldValue.compare?_nan ignoreCase x)

/-! ## What operators and operands stand for -/

variable {n : Nat} {s : Schema n} {field path : String} {type : FieldType n} {kind : Kind}

/-- An operand that is read as a value which the values of a field have an order to. -/
def Operand.OrderedAs (type : FieldType n) (x : Operand) (y : Scalar) : Prop :=
  ∃ kind, type.kind? = some kind ∧ kind.isOrderable = true ∧ x.as? kind = some y

/-- An operand is read as one value. -/
theorem Operand.OrderedAs.unique {x : Operand} {y z : Scalar} (hy : x.OrderedAs type y)
    (hz : x.OrderedAs type z) : y = z := by
  obtain ⟨kind, hkind, -, hy⟩ := hy
  obtain ⟨kind', hkind', -, hz⟩ := hz
  obtain rfl := Option.some.inj (hkind.symm.trans hkind')
  exact Option.some.inj (hy.symm.trans hz)

theorem comparedKind_of_kind? (h : type.kind? = some kind) :
    comparedKind s field type = .ok kind := by
  rw [comparedKind, h]

theorem operandValue_eq_ok {x : Operand} {y : Scalar} :
    operandValue field kind x = .ok y ↔ x.as? kind = some y := by
  unfold operandValue Operand.as
  cases x.as? kind with
  | none => exact ⟨nofun, nofun⟩
  | some z => rw [Except.ok.injEq, Option.some.injEq]

theorem literalValue_eq_ok {l : Literal} {y : Scalar} :
    literalValue field kind l = .ok y ↔ l.as? kind = some y := by
  unfold literalValue
  cases l.as? kind with
  | none => exact ⟨nofun, nofun⟩
  | some z => rw [Except.ok.injEq, Option.some.injEq]

/-- **`gt` and `gte`** take what can be read as a value with an order to those of the field. -/
theorem orderTest_eq_ok {orEqual : Bool} {x : Operand} {t : Test} :
    orderTest s field type orEqual x = .ok t ↔ ∃ y, x.OrderedAs type y ∧ t = .above y orEqual := by
  constructor
  · intro h
    unfold orderTest at h
    obtain ⟨kind, hkind, h⟩ := bind_eq_ok.1 h
    cases horderable : kind.isOrderable with
    | false =>
      rw [horderable] at h
      cases h
    | true =>
      rw [horderable] at h
      cases hnull : x.isNull with
      | true =>
        rw [hnull] at h
        cases h
      | false =>
        rw [hnull] at h
        obtain ⟨y, hy, h⟩ := bind_eq_ok.1 h
        cases h
        exact ⟨y, ⟨kind, kind?_of_comparedKind hkind, horderable, operandValue_eq_ok.1 hy⟩, rfl⟩
  · rintro ⟨y, ⟨kind, hkind, horderable, hy⟩, rfl⟩
    have hnull : x.isNull = false := by
      cases x with
      | null => cases hy
      | _ => rfl
    rw [orderTest]
    refine bind_eq_ok.2 ⟨kind, comparedKind_of_kind? hkind, ?_⟩
    rw [horderable, hnull]
    exact bind_eq_ok.2 ⟨y, operandValue_eq_ok.2 hy, rfl⟩

/-- **`eq`** reads an operand that has an order as the same value. -/
theorem equalityTest_of_orderedAs {x : Operand} {y : Scalar} (h : x.OrderedAs type y) :
    operatorTest s field type .eq x = .ok (.equals y) := by
  obtain ⟨kind, hkind, -, hy⟩ := h
  have hvalue : operandValue field kind x = .ok y := operandValue_eq_ok.2 hy
  cases x with
  | null => cases hy
  | list items => cases hy
  | scalar z =>
    simp only [operatorTest, comparedKind_of_kind? hkind]
    exact map_eq_ok.2 ⟨y, hvalue, rfl⟩
  | expression e =>
    cases e with
    | literal l =>
      simp only [operatorTest, comparedKind_of_kind? hkind]
      exact map_eq_ok.2 ⟨y, literalValue_eq_ok.2 hy, rfl⟩
    | _ => cases hy

/-- The range from one constant to another one. -/
def Operand.between (a b : String) : Operand := .expression (.range (.between (.text a) (.text b)))

/-- The range from a constant on. -/
def Operand.startingAt (a : String) : Operand := .expression (.range (.from (.text a)))

theorem rangeTest_eq_ok {i : Interval} {t : Test} : rangeTest field kind i = .ok t ↔
    kind.isOrderable = true ∧ ∃ min max, i.min?.mapM (literalValue field kind) = .ok min ∧
      i.max?.mapM (literalValue field kind) = .ok max ∧ t = .within min max := by
  unfold rangeTest
  cases horderable : kind.isOrderable with
  | false => exact ⟨nofun, nofun⟩
  | true =>
    rw [Bool.not_true, if_neg Bool.false_ne_true]
    constructor
    · intro h
      obtain ⟨min, hmin, h⟩ := bind_eq_ok.1 h
      obtain ⟨max, hmax, h⟩ := bind_eq_ok.1 h
      exact ⟨rfl, min, max, hmin, hmax, (Except.ok.inj h).symm⟩
    · rintro ⟨-, min, max, hmin, hmax, rfl⟩
      exact bind_eq_ok.2 ⟨min, hmin, bind_eq_ok.2 ⟨max, hmax, rfl⟩⟩

theorem operatorTest_range {i : Interval} {t : Test} :
    operatorTest s field type .eq (.expression (.range i)) = .ok t ↔
      ∃ kind, type.kind? = some kind ∧ rangeTest field kind i = .ok t := by
  have hrange : operatorTest s field type .eq (.expression (.range i)) =
      comparedKind s field type >>= fun kind => rangeTest field kind i := by
    simp only [operatorTest, equalityTest, expressionTest]
    rfl
  rw [hrange, bind_eq_ok]
  exact exists_congr fun kind => and_congr_left fun _ =>
    ⟨kind?_of_comparedKind, comparedKind_of_kind?⟩

/-- The end of a range is read as its text by itself. -/
theorem mapM_literalValue_text {a : String} {bound : Option Scalar} :
    (some (Literal.text a)).mapM (literalValue field kind) = .ok bound ↔
      ∃ x, (Operand.string a).as? kind = some x ∧ some x = bound := by
  have htext : (Literal.text a).as? kind = (Operand.string a).as? kind :=
    (Operand.as?_string a kind).symm
  rw [← htext]
  exact map_eq_ok.trans (exists_congr fun x => and_congr_left fun _ => literalValue_eq_ok)

/-- **A range under `eq`** takes for its ends what `gt` and `gte` take. -/
theorem operatorTest_between {a b : String} {t : Test} :
    operatorTest s field type .eq (.between a b) = .ok t ↔ ∃ x y,
      (Operand.string a).OrderedAs type x ∧ (Operand.string b).OrderedAs type y ∧
        t = .within (some x) (some y) := by
  rw [Operand.between, operatorTest_range]
  constructor
  · rintro ⟨kind, hkind, h⟩
    obtain ⟨horderable, min, max, hmin, hmax, rfl⟩ := rangeTest_eq_ok.1 h
    obtain ⟨x, hx, rfl⟩ := mapM_literalValue_text.1 hmin
    obtain ⟨y, hy, rfl⟩ := mapM_literalValue_text.1 hmax
    exact ⟨x, y, ⟨kind, hkind, horderable, hx⟩, ⟨kind, hkind, horderable, hy⟩, rfl⟩
  · rintro ⟨x, y, ⟨kind, hkind, horderable, hx⟩, ⟨kind', hkind', -, hy⟩, rfl⟩
    obtain rfl := Option.some.inj (hkind.symm.trans hkind')
    exact ⟨kind, hkind, rangeTest_eq_ok.2 ⟨horderable, some x, some y,
      mapM_literalValue_text.2 ⟨x, hx, rfl⟩, mapM_literalValue_text.2 ⟨y, hy, rfl⟩, rfl⟩⟩

theorem operatorTest_startingAt {a : String} {t : Test} :
    operatorTest s field type .eq (.startingAt a) = .ok t ↔ ∃ x,
      (Operand.string a).OrderedAs type x ∧ t = .within (some x) none := by
  rw [Operand.startingAt, operatorTest_range]
  constructor
  · rintro ⟨kind, hkind, h⟩
    obtain ⟨horderable, min, max, hmin, hmax, rfl⟩ := rangeTest_eq_ok.1 h
    obtain ⟨x, hx, rfl⟩ := mapM_literalValue_text.1 hmin
    cases hmax
    exact ⟨x, ⟨kind, hkind, horderable, hx⟩, rfl⟩
  · rintro ⟨x, ⟨kind, hkind, horderable, hx⟩, rfl⟩
    exact ⟨kind, hkind, rangeTest_eq_ok.2 ⟨horderable, some x, none,
      mapM_literalValue_text.2 ⟨x, hx, rfl⟩, rfl, rfl⟩⟩

/-! ## Predicates -/

namespace Predicate

variable {names : List String} {lifted negated ignoreCase : Bool} {r : Record}

/-- A comparison with a field by the values that its test is asked about. -/
theorem accepts_field {test : Test} :
    (Predicate.field names test lifted negated).accepts ignoreCase r =
      ((tested names lifted r).any (test.holds ignoreCase) != negated) := by
  rw [accepts, anyValue_leafTest]

/-- Some value is above another one or equal to it where some value is above it, or some value is
equal to it. -/
theorem accepts_above_orEqual {x : Scalar} :
    (Predicate.field names (.above x true) lifted false).accepts ignoreCase r =
      ((Predicate.field names (.above x false) lifted false).accepts ignoreCase r ||
        (Predicate.field names (.equals x) lifted false).accepts ignoreCase r) := by
  rw [Bool.eq_iff_iff]
  simp only [accepts_field, Bool.bne_false, Bool.or_eq_true, List.any_eq_true,
    Test.holds_above_orEqual, and_or_left, exists_or]

end Predicate

namespace Schema

variable {segments : List (PathSegment n)} {leaf : PathSegment n} {op : Operator} {x : Operand}
  {p : Predicate}

/-- The empty text is no path. -/
theorem resolve_ne_empty (h : s.resolve path = .ok segments) : path ≠ "" := by
  rintro rfl
  obtain ⟨names, hnames, -⟩ := bind_eq_ok.1 h
  have hnone : (pathNames "").toOption = none := by decide +kernel
  rw [hnames] at hnone
  cases hnone

/-- What a comparison with the field at the end of a path compiles to. -/
theorem compile_on_eq_ok (hsegments : s.resolve path = .ok segments)
    (hleaf : segments.getLast? = some leaf) :
    s.compile (.leaf (.on path op x)) = .ok p ↔ ∃ test,
      operatorTest s path leaf.type op.positive.1 x = .ok test ∧
        p = .field (segments.map (·.name)) test
          (leaf.type.isList && op.positive.1.looksInside) op.positive.2 := by
  have hpath : (Filter.on path op x).path? = some path := by
    simp [Filter.path?, Filter.on, resolve_ne_empty hsegments]
  rw [compile]
  constructor
  · intro h
    rcases compileFilter_eq_ok h with ⟨hnone, -⟩ | ⟨path', segments', leaf', test, hfield, hresolve,
      hlast, htest, rfl⟩
    · rw [hpath] at hnone
      cases hnone
    cases hpath.symm.trans hfield
    cases hsegments.symm.trans hresolve
    cases hleaf.symm.trans hlast
    exact ⟨test, htest, rfl⟩
  · rintro ⟨test, htest, rfl⟩
    rw [compileFilter, hpath]
    refine bind_eq_ok.2 ⟨segments, hsegments, ?_⟩
    rw [hleaf]
    exact bind_eq_ok.2 ⟨test, mapError_eq_ok.2 htest, rfl⟩

/-- **The four orders** take one kind of operands. Each is one of two tests or its complement. -/
theorem compile_order (op : Operator) (orEqual : Bool)
    (hop : op.positive.1 = if orEqual then .gte else .gt)
    (hsegments : s.resolve path = .ok segments) (hleaf : segments.getLast? = some leaf) :
    s.compile (.leaf (.on path op x)) = .ok p ↔ ∃ y, x.OrderedAs leaf.type y ∧
      p = .field (segments.map (·.name)) (.above y orEqual) leaf.type.isList op.positive.2 := by
  rw [compile_on_eq_ok hsegments hleaf]
  have hinside : op.positive.1.looksInside = true := by
    rw [hop]
    cases orEqual <;> rfl
  have htest : operatorTest s path leaf.type op.positive.1 x =
      orderTest s path leaf.type orEqual x := by
    rw [hop]
    cases orEqual <;> rfl
  rw [hinside, htest, Bool.and_true]
  constructor
  · rintro ⟨test, h, rfl⟩
    obtain ⟨y, hy, rfl⟩ := orderTest_eq_ok.1 h
    exact ⟨y, hy, rfl⟩
  · rintro ⟨y, hy, rfl⟩
    exact ⟨_, orderTest_eq_ok.2 ⟨y, hy, rfl⟩, rfl⟩

theorem compile_eq {y : Scalar} (hsegments : s.resolve path = .ok segments)
    (hleaf : segments.getLast? = some leaf) (hy : x.OrderedAs leaf.type y) :
    s.compile (.leaf (.on path .eq x)) =
      .ok (.field (segments.map (·.name)) (.equals y) leaf.type.isList false) := by
  refine (compile_on_eq_ok hsegments hleaf).2 ⟨_, equalityTest_of_orderedAs hy, ?_⟩
  rw [show Operator.eq.positive = (.eq, false) from rfl]
  simp only [Operator.looksInside, Bool.and_true]

theorem compile_between {a b : String} (hsegments : s.resolve path = .ok segments)
    (hleaf : segments.getLast? = some leaf) :
    s.compile (.leaf (.on path .eq (.between a b))) = .ok p ↔ ∃ x y,
      (Operand.string a).OrderedAs leaf.type x ∧ (Operand.string b).OrderedAs leaf.type y ∧
        p = .field (segments.map (·.name)) (.within (some x) (some y)) leaf.type.isList false := by
  rw [compile_on_eq_ok hsegments hleaf, show Operator.eq.positive = (.eq, false) from rfl]
  simp only [Operator.looksInside, Bool.and_true, operatorTest_between]
  constructor
  · rintro ⟨test, ⟨x, y, hx, hy, rfl⟩, rfl⟩
    exact ⟨x, y, hx, hy, rfl⟩
  · rintro ⟨x, y, hx, hy, rfl⟩
    exact ⟨_, ⟨x, y, hx, hy, rfl⟩, rfl⟩

theorem compile_startingAt {a : String} (hsegments : s.resolve path = .ok segments)
    (hleaf : segments.getLast? = some leaf) :
    s.compile (.leaf (.on path .eq (.startingAt a))) = .ok p ↔ ∃ x,
      (Operand.string a).OrderedAs leaf.type x ∧
        p = .field (segments.map (·.name)) (.within (some x) none) leaf.type.isList false := by
  rw [compile_on_eq_ok hsegments hleaf, show Operator.eq.positive = (.eq, false) from rfl]
  simp only [Operator.looksInside, Bool.and_true, operatorTest_startingAt]
  constructor
  · rintro ⟨test, ⟨x, hx, rfl⟩, rfl⟩
    exact ⟨x, hx, rfl⟩
  · rintro ⟨x, hx, rfl⟩
    exact ⟨_, ⟨x, hx, rfl⟩, rfl⟩

/-- **A path without lists asks about one value** of a record that conforms. -/
theorem accepts_single {r : Record} (hsegments : s.resolve path = .ok segments)
    (hleaf : segments.getLast? = some leaf) (hsingle : hasProjection segments = false)
    (hr : r.Conforms s s.root) : ∃ v : FieldValue, v.Conforms s leaf.type.innermost ∧
      ∀ test negated ignoreCase,
        (Predicate.field (segments.map (·.name)) test leaf.type.isList negated).accepts
          ignoreCase r = (test.holds ignoreCase v != negated) := by
  obtain ⟨names, -, hresolve⟩ := bind_eq_ok.1 hsegments
  have hmem : leaf ∈ segments := List.mem_of_getLast? hleaf
  have hlist : leaf.type.isList = false := by
    rw [hasProjection, List.any_eq_false] at hsingle
    exact Bool.eq_false_iff.2 (hsingle leaf hmem)
  have hnames : names ≠ [] := by
    rw [← names_resolveFrom hresolve, Ne, List.map_eq_nil_iff]
    exact List.ne_nil_of_mem hmem
  have hreached := Record.reached_eq_single hresolve hnames hsingle hr
  refine ⟨r.singleValue names, ?_, ?_⟩
  · rw [FieldType.innermost_of_not_isList hlist]
    exact Record.conforms_reached hresolve hleaf hr (hreached ▸ List.mem_singleton_self _)
  · intro test negated ignoreCase
    rw [names_resolveFrom hresolve, hlist, Predicate.accepts_field, Predicate.tested,
      if_neg Bool.false_ne_true, hreached, List.any_cons, List.any_nil, Bool.or_false]

/-! ## The laws -/

/-- **Orders and equality**, for an operand that `gt` takes. -/
theorem orders_agree {gt : Predicate} (h : s.compile (.leaf (.on path .gt x)) = .ok gt) :
    ∃ gte eq lt lte, s.compile (.leaf (.on path .gte x)) = .ok gte ∧
      s.compile (.leaf (.on path .eq x)) = .ok eq ∧ s.compile (.leaf (.on path .lt x)) = .ok lt ∧
      s.compile (.leaf (.on path .lte x)) = .ok lte ∧
      (∀ ignoreCase r,
        gte.accepts ignoreCase r = (gt.accepts ignoreCase r || eq.accepts ignoreCase r)) ∧
      ∀ segments, s.resolve path = .ok segments → hasProjection segments = false →
        ∀ ignoreCase (r : Record), r.Conforms s s.root →
          lte.accepts ignoreCase r = (lt.accepts ignoreCase r || eq.accepts ignoreCase r) ∧
            (gt.accepts ignoreCase r && lt.accepts ignoreCase r) = false := by
  have hfilter : s.compileFilter (.on path .gt x) = .ok gt := by rwa [compile] at h
  rcases compileFilter_eq_ok hfilter with
    ⟨hnone, rfl⟩ | ⟨path', segments, leaf, -, hpath, hsegments, hleaf, -, -⟩
  · -- the empty text is no path, and nothing is asked of a record
    have hall : ∀ op, s.compile (.leaf (.on path op x)) = .ok .always := by
      intro op
      rw [compile, compileFilter, show (Filter.on path op x).path? = none from hnone]
    refine ⟨_, _, _, _, hall _, hall _, hall _, hall _, fun _ _ => rfl, ?_⟩
    intro segments hsegments
    have hpath : (Filter.on path .gt x).path? = some path := by
      simp [Filter.path?, Filter.on, resolve_ne_empty hsegments]
    rw [hpath] at hnone
    cases hnone
  obtain rfl : path = path' := by
    rw [Filter.path?, Option.filter_eq_some_iff] at hpath
    exact Option.some.inj hpath.1
  obtain ⟨y, hy, rfl⟩ := (compile_order .gt false rfl hsegments hleaf).1 h
  have hgte := (compile_order .gte true rfl hsegments hleaf).2 ⟨y, hy, rfl⟩
  have heq := compile_eq hsegments hleaf hy
  have hlt := (compile_order .lt true rfl hsegments hleaf).2 ⟨y, hy, rfl⟩
  have hlte := (compile_order .lte false rfl hsegments hleaf).2 ⟨y, hy, rfl⟩
  refine ⟨_, _, _, _, hgte, heq, hlt, hlte, fun _ _ => Predicate.accepts_above_orEqual, ?_⟩
  intro segments' hsegments' hsingle ignoreCase r hr
  cases hsegments.symm.trans hsegments'
  obtain ⟨v, -, haccepts⟩ := accepts_single hsegments hleaf hsingle hr
  simp only [haccepts]
  have hneither : (Test.above y false).holds ignoreCase v = true →
      (Test.equals y).holds ignoreCase v = false := Test.not_equals_of_above
  rw [Test.holds_above_orEqual]
  cases habove : (Test.above y false).holds ignoreCase v with
  | true =>
    rw [hneither habove]
    exact ⟨rfl, rfl⟩
  | false => cases (Test.equals y).holds ignoreCase v <;> exact ⟨rfl, rfl⟩

/-- **A range from a constant on** and `gte` with the constant are read alike and accept the same
records, whatever these hold. -/
theorem startingAt_agrees {a : String} (hsegments : s.resolve path = .ok segments)
    (hleaf : segments.getLast? = some leaf) :
    ((∃ range, s.compile (.leaf (.on path .eq (.startingAt a))) = .ok range) ↔
        ∃ gte, s.compile (.leaf (.on path .gte (.string a))) = .ok gte) ∧
      ∀ range gte, s.compile (.leaf (.on path .eq (.startingAt a))) = .ok range →
        s.compile (.leaf (.on path .gte (.string a))) = .ok gte →
          ∀ ignoreCase r, range.accepts ignoreCase r = gte.accepts ignoreCase r := by
  simp only [compile_startingAt hsegments hleaf,
    compile_order .gte true rfl hsegments hleaf]
  refine ⟨⟨?_, ?_⟩, ?_⟩
  · rintro ⟨_, y, hy, rfl⟩
    exact ⟨_, y, hy, rfl⟩
  · rintro ⟨_, y, hy, rfl⟩
    exact ⟨_, y, hy, rfl⟩
  · rintro range gte ⟨y, hy, rfl⟩ ⟨z, hz, rfl⟩ ignoreCase r
    obtain rfl := hy.unique hz
    have htests : (Test.within (some y) none).Same (.above y true) :=
      fun _ _ => Test.holds_within_from
    exact Predicate.same_field htests _ _ _ ignoreCase r

/-- **A range from one constant to another** is read where `gte` takes the first constant and `lte`
the second one. Where the second one does not stand for a NaN, the range accepts the records that
conform and that both accept. -/
theorem between_agrees {a b : String} (hsegments : s.resolve path = .ok segments)
    (hleaf : segments.getLast? = some leaf) (hsingle : hasProjection segments = false)
    (hb : leaf.type.kind? = some .float → readScalar? b .float ≠ some (.float .nan)) :
    ((∃ range, s.compile (.leaf (.on path .eq (.between a b))) = .ok range) ↔
        (∃ gte, s.compile (.leaf (.on path .gte (.string a))) = .ok gte) ∧
          ∃ lte, s.compile (.leaf (.on path .lte (.string b))) = .ok lte) ∧
      ∀ range gte lte, s.compile (.leaf (.on path .eq (.between a b))) = .ok range →
        s.compile (.leaf (.on path .gte (.string a))) = .ok gte →
          s.compile (.leaf (.on path .lte (.string b))) = .ok lte →
            ∀ ignoreCase (r : Record), r.Conforms s s.root →
              range.accepts ignoreCase r =
                (gte.accepts ignoreCase r && lte.accepts ignoreCase r) := by
  simp only [compile_between hsegments hleaf,
    compile_order .gte true rfl hsegments hleaf,
    compile_order .lte false rfl hsegments hleaf]
  refine ⟨⟨?_, ?_⟩, ?_⟩
  · rintro ⟨_, y, z, hy, hz, rfl⟩
    exact ⟨⟨_, y, hy, rfl⟩, _, z, hz, rfl⟩
  · rintro ⟨⟨_, y, hy, rfl⟩, _, z, hz, rfl⟩
    exact ⟨_, y, z, hy, hz, rfl⟩
  · rintro range gte lte ⟨y, z, hy, hz, rfl⟩ ⟨y', hy', rfl⟩ ⟨z', hz', rfl⟩ ignoreCase r hr
    obtain rfl := hy.unique hy'
    obtain rfl := hz.unique hz'
    obtain ⟨v, hv, haccepts⟩ := accepts_single hsegments hleaf hsingle hr
    simp only [haccepts]
    rw [Test.holds_within_between]
    · have hgte : Operator.gte.positive.2 = false := rfl
      have hlte : Operator.lte.positive.2 = true := rfl
      rw [hgte, hlte, Bool.bne_false, Bool.bne_false, Bool.bne_true]
    · intro habove
      obtain ⟨kind, hkind, -, hz⟩ := hz
      have hzkind : z.kind = kind := Operand.kind_of_as? hz
      rw [FieldType.innermost_of_kind? hkind, ← hzkind] at hv
      refine FieldValue.compare?_of_above hv (fun hnan => ?_) habove
      subst hnan
      obtain rfl : kind = .float := hzkind.symm
      exact hb hkind (by rw [← Operand.as?_string, hz])

/-- **Orders and ranges are coherent.** Wherever `gt` compiles for a path and an operand, `gte`
accepts what `gt` or `eq` accepts. On a path without lists, of every record that conforms, `lte`
accepts what `lt` or `eq` accepts, and what `gt` accepts `lt` does not. A range from a constant on
is `gte` with the constant. On a path without lists, a range from one constant to another that
stands for no NaN is `gte` with the first and `lte` with the second one, of every record that
conforms: a null or a NaN is in no range, and at or above no lower end. -/
theorem orders_coherent (s : Schema n) (path : String) :
    (∀ x gt, s.compile (.leaf (.on path .gt x)) = .ok gt →
      ∃ gte eq lt lte, s.compile (.leaf (.on path .gte x)) = .ok gte ∧
        s.compile (.leaf (.on path .eq x)) = .ok eq ∧
        s.compile (.leaf (.on path .lt x)) = .ok lt ∧
        s.compile (.leaf (.on path .lte x)) = .ok lte ∧
        (∀ ignoreCase r,
          gte.accepts ignoreCase r = (gt.accepts ignoreCase r || eq.accepts ignoreCase r)) ∧
        ∀ segments, s.resolve path = .ok segments → hasProjection segments = false →
          ∀ ignoreCase (r : Record), r.Conforms s s.root →
            lte.accepts ignoreCase r = (lt.accepts ignoreCase r || eq.accepts ignoreCase r) ∧
              (gt.accepts ignoreCase r && lt.accepts ignoreCase r) = false) ∧
    ∀ segments leaf, s.resolve path = .ok segments → segments.getLast? = some leaf →
      (∀ a, ((∃ range, s.compile (.leaf (.on path .eq (.startingAt a))) = .ok range) ↔
          ∃ gte, s.compile (.leaf (.on path .gte (.string a))) = .ok gte) ∧
        ∀ range gte, s.compile (.leaf (.on path .eq (.startingAt a))) = .ok range →
          s.compile (.leaf (.on path .gte (.string a))) = .ok gte →
            ∀ ignoreCase r, range.accepts ignoreCase r = gte.accepts ignoreCase r) ∧
      ∀ a b, hasProjection segments = false →
        (leaf.type.kind? = some .float → readScalar? b .float ≠ some (.float .nan)) →
        ((∃ range, s.compile (.leaf (.on path .eq (.between a b))) = .ok range) ↔
          (∃ gte, s.compile (.leaf (.on path .gte (.string a))) = .ok gte) ∧
            ∃ lte, s.compile (.leaf (.on path .lte (.string b))) = .ok lte) ∧
        ∀ range gte lte, s.compile (.leaf (.on path .eq (.between a b))) = .ok range →
          s.compile (.leaf (.on path .gte (.string a))) = .ok gte →
            s.compile (.leaf (.on path .lte (.string b))) = .ok lte →
              ∀ ignoreCase (r : Record), r.Conforms s s.root →
                range.accepts ignoreCase r =
                  (gte.accepts ignoreCase r && lte.accepts ignoreCase r) :=
  ⟨fun _ _ h => orders_agree h, fun _ _ hsegments hleaf =>
    ⟨fun _ => startingAt_agrees hsegments hleaf,
      fun _ _ hsingle hb => between_agrees hsegments hleaf hsingle hb⟩⟩

/-- The weight of somebody's owner. Where it is a NaN, only the complements accept it, and no range
does. -/
theorem orders_coherent_weights :
    ∃ (s : Schema 1) (r : Record) (gt range : Predicate), r.Conforms s s.root ∧
      s.compile (.leaf (.on "Owner.Weight" .gt (.string "1.5"))) = .ok gt ∧
      s.compile (.leaf (.on "Owner.Weight" .eq (.between "1" "2.5"))) = .ok range ∧
      (∃ gte eq, s.compile (.leaf (.on "Owner.Weight" .gte (.string "1.5"))) = .ok gte ∧
        s.compile (.leaf (.on "Owner.Weight" .eq (.string "1.5"))) = .ok eq ∧
        gte.accepts false r = (gt.accepts false r || eq.accepts false r)) ∧
      ∃ gte lte, s.compile (.leaf (.on "Owner.Weight" .gte (.string "1"))) = .ok gte ∧
        s.compile (.leaf (.on "Owner.Weight" .lte (.string "2.5"))) = .ok lte ∧
        range.accepts false r = (gte.accepts false r && lte.accepts false r) ∧
        lte.accepts false r = true ∧ range.accepts false r = false := by
  let s : Schema 1 :=
    ⟨fun _ => ⟨"Pet", [("Weight", .scalar .float), ("Owner", .object 0)]⟩, 0⟩
  let owner : FieldValue := .object [("Weight", .scalar (.float .nan))]
  let r : Record := [("Owner", owner)]
  let segments : List (PathSegment 1) := [⟨"Owner", .object 0⟩, ⟨"Weight", .scalar .float⟩]
  have hr : r.Conforms s s.root := by
    refine Record.conforms_single (t := .object 0) rfl (.object ?_)
    exact Record.conforms_single (t := .scalar .float) rfl (.scalar (.inl rfl))
  have hnames : (pathNames "Owner.Weight").toOption = some ["Owner", "Weight"] := by
    decide +kernel
  have hsegments : s.resolve "Owner.Weight" = .ok segments :=
    bind_eq_ok.2 ⟨_, toOption_eq_some.1 hnames, rfl⟩
  have hb : readScalar? "2.5" .float ≠ some (.float .nan) := by decide +kernel
  have hgt : (s.compile (.leaf (.on "Owner.Weight" .gt (.string "1.5")))).toOption.isSome := by
    decide +kernel
  have hinside : (s.compile (.leaf (.on "Owner.Weight" .eq (.between "1" "2.5")))).toOption.map
      (·.accepts false r) = some false := by decide +kernel
  have hbelow : (s.compile (.leaf (.on "Owner.Weight" .lte (.string "2.5")))).toOption.map
      (·.accepts false r) = some true := by decide +kernel
  obtain ⟨gt, hgt⟩ := Option.isSome_iff_exists.1 hgt
  obtain ⟨range, hrange, hinside⟩ := Option.map_eq_some_iff.1 hinside
  obtain ⟨horders, hranges⟩ := orders_coherent s "Owner.Weight"
  obtain ⟨gte, eq, -, -, hgte, heq, -, -, hor, -⟩ := horders _ gt (toOption_eq_some.1 hgt)
  obtain ⟨-, hbetween⟩ := hranges segments _ hsegments rfl
  obtain ⟨hread, hagree⟩ := hbetween "1" "2.5" rfl fun _ => hb
  obtain ⟨⟨low, hlow⟩, high, hhigh⟩ := hread.1 ⟨range, toOption_eq_some.1 hrange⟩
  rw [hhigh] at hbelow
  exact ⟨s, r, gt, range, hr, toOption_eq_some.1 hgt, toOption_eq_some.1 hrange,
    ⟨gte, eq, hgte, heq, hor false r⟩, low, high, hlow, hhigh,
    hagree range low high (toOption_eq_some.1 hrange) hlow hhigh false r hr,
    Option.some.inj hbelow, hinside⟩

end Schema

end Sift
