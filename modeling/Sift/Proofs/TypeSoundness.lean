import Sift.Proofs.Conformance
import Sift.Proofs.Traced
import Sift.Query.Compile

/-!
# Compiled filters are type-sound

* `Literal.kind_of_as?`, `Operand.kind_of_as?`: what is read as a kind is of the kind.
* `Test.OfKind`: a test whose literals are of one kind; `ofKind_operatorTest`: compiled tests are
  of the kind of the field.
* `Scalar.compare?_of_heldAs`: what a member of a kind may hold has an order with every literal of
  the kind, NaN aside.
* `Schema.comparisons_defined`: **on a record that conforms to the root type, every comparison that
  a compiled filter makes has an answer**, null and NaN aside.
-/

namespace Sift

/-! ## Literals are of the kind they are read as -/

section Kinds

variable {kind : Kind} {x : Scalar}

theorem LocalDateTime.kind_of_as? {t : LocalDateTime} (h : t.as? kind = some x) :
    x.kind = kind := by
  cases kind <;> cases h <;> rfl

theorem Scalar.kind_of_temporalAs? {s : Scalar} (h : s.temporalAs? kind = some x) :
    x.kind = kind := by
  unfold temporalAs? at h
  split at h
  · exact LocalDateTime.kind_of_as? h
  · exact LocalDateTime.kind_of_as? h
  · split at h
    · next t hkind =>
      cases h
      exact hkind.symm
    · exact LocalDateTime.kind_of_as? h
  · cases h

theorem Literal.kind_of_temporalAs? {l : Literal} (h : l.temporalAs? kind = some x) :
    x.kind = kind := by
  unfold temporalAs? at h
  split at h
  · next hkind =>
    cases h
    exact hkind.symm
  · obtain ⟨s, -, hs⟩ := Option.bind_eq_some_iff.1 h
    exact Scalar.kind_of_temporalAs? hs

theorem kind_of_readScalar? {s : String} (h : readScalar? s kind = some x) : x.kind = kind := by
  unfold readScalar? at h
  split at h
  · cases h
    rfl
  · obtain ⟨_, -, rfl⟩ := Option.map_eq_some_iff.1 h
    rfl
  · obtain ⟨_, -, rfl⟩ := Option.map_eq_some_iff.1 h
    rfl
  · obtain ⟨_, -, rfl⟩ := Option.map_eq_some_iff.1 h
    rfl
  · obtain ⟨l, -, hl⟩ := Option.bind_eq_some_iff.1 h
    exact Literal.kind_of_temporalAs? hl

/-- **A literal of an expression** is of the kind it is read as. -/
theorem Literal.kind_of_as? {l : Literal} (h : l.as? kind = some x) : x.kind = kind := by
  cases l with
  | text s => exact kind_of_readScalar? h
  | date d => exact Literal.kind_of_temporalAs? h
  | dateTime t offset => exact Literal.kind_of_temporalAs? h

theorem Scalar.kind_of_as? {s : Scalar} (h : s.as? kind = some x) : x.kind = kind := by
  unfold as? at h
  split at h
  · exact kind_of_readScalar? h
  · cases h
    rfl
  · cases h
    rfl
  · cases h
    rfl
  · obtain ⟨_, -, rfl⟩ := Option.map_eq_some_iff.1 h
    rfl
  · cases h
    rfl
  · cases h
    rfl
  · exact Scalar.kind_of_temporalAs? h

/-- **An operand** is of the kind it is read as. -/
theorem Operand.kind_of_as? {o : Operand} (h : o.as? kind = some x) : x.kind = kind := by
  unfold as? at h
  split at h
  · exact Scalar.kind_of_as? h
  · exact Literal.kind_of_as? h
  · cases h

end Kinds

/-! ## Compiled tests are of the kind of the field -/

/-- What comes out of several results comes out of one of them. -/
theorem exists_of_mem_mapM {ε α β : Type} {f : α → Except ε β} {as : List α} {bs : List β}
    (h : as.mapM f = .ok bs) {b : β} (hb : b ∈ bs) : ∃ a ∈ as, f a = .ok b := by
  induction as generalizing bs with
  | nil =>
    cases h
    cases hb
  | cons a rest ih =>
    rw [List.mapM_cons] at h
    obtain ⟨c, hc, h⟩ := bind_eq_ok.1 h
    obtain ⟨cs, hcs, h⟩ := bind_eq_ok.1 h
    cases h
    rcases List.mem_cons.1 hb with rfl | hb
    · exact ⟨a, List.mem_cons_self, hc⟩
    · obtain ⟨d, hd, hfd⟩ := ih hcs hb
      exact ⟨d, List.mem_cons_of_mem a hd, hfd⟩

/-- A test whose literals are of one kind. -/
def Test.OfKind (kind : Kind) (t : Test) : Prop := ∀ x ∈ t.literals, x.kind = kind

section Compiled

variable {field : String} {kind : Kind} {place : Option Placement} {t : Test}

theorem kind_of_literalValue {l : Literal} {x : Scalar}
    (h : literalValue field kind l = .ok x) : x.kind = kind := by
  unfold literalValue at h
  split at h
  · next y hy =>
    cases h
    exact Literal.kind_of_as? hy
  · cases h

theorem kind_of_operandValue {o : Operand} {x : Scalar}
    (h : operandValue field kind o = .ok x) : x.kind = kind := by
  unfold operandValue Operand.as at h
  cases has : o.as? kind with
  | some y =>
    rw [has] at h
    cases h
    exact Operand.kind_of_as? has
  | none =>
    rw [has] at h
    cases h

theorem ofKind_equals {x : Scalar} (h : x.kind = kind) : (Test.equals x).OfKind kind :=
  fun _ hy => List.mem_singleton.1 hy ▸ h

/-- A search for a piece of text has no literals. -/
theorem ofKind_textTest {p : Placement} {piece : List Char}
    (h : textTest field p piece = .ok t) : t.OfKind kind := by
  unfold textTest at h
  split at h
  · cases h
    exact fun _ hx => nomatch hx
  · cases h

theorem ofKind_patternTest {pattern : Expression} {p : Placement} {f : Fragment}
    (h : patternTest field kind pattern p f = .ok t) : t.OfKind kind := by
  unfold patternTest at h
  split at h
  · exact ofKind_textTest h
  · cases h

/-- The end of a range, if it is not open, is of the kind it is read as. -/
theorem kind_of_bound {bound : Option Literal} {end? : Option Scalar} {x : Scalar}
    (h : bound.mapM (literalValue field kind) = .ok end?) (hx : x ∈ end?.toList) :
    x.kind = kind := by
  cases bound with
  | none =>
    cases h
    cases hx
  | some l =>
    obtain ⟨y, hy, rfl⟩ := map_eq_ok.1 h
    exact List.mem_singleton.1 hx ▸ kind_of_literalValue hy

theorem ofKind_rangeTest {i : Interval} (h : rangeTest field kind i = .ok t) :
    t.OfKind kind := by
  unfold rangeTest at h
  split at h
  · cases h
  · obtain ⟨min, hmin, h⟩ := bind_eq_ok.1 h
    obtain ⟨max, hmax, h⟩ := bind_eq_ok.1 h
    cases h
    intro x hx
    rw [Test.literals, List.mem_append] at hx
    exact hx.elim (kind_of_bound hmin) (kind_of_bound hmax)

theorem ofKind_any {ts : List Test} (h : ∀ t ∈ ts, t.OfKind kind) : (Test.any ts).OfKind kind := by
  have hof : ∀ x ∈ Test.literalsOf ts, x.kind = kind := by
    induction ts with
    | nil => exact fun _ hx => nomatch hx
    | cons t rest ih =>
      intro x hx
      rw [Test.literalsOf, List.mem_append] at hx
      rw [List.forall_mem_cons] at h
      exact hx.elim (h.1 x) (ih h.2 x)
  intro x hx
  rw [Test.literals] at hx
  exact hof x hx

mutual

/-- **The test of an expression** is of the kind its literals are read as. -/
theorem ofKind_expressionTest : ∀ {e : Expression} {t : Test},
    expressionTest field kind place e = .ok t → t.OfKind kind
  | .anything, t, h => by
    cases h
    exact fun _ hx => nomatch hx
  | .literal l, t, h => by
    cases place with
    | some p =>
      rw [expressionTest] at h
      exact ofKind_textTest h
    | none =>
      rw [expressionTest] at h
      obtain ⟨x, hx, rfl⟩ := map_eq_ok.1 h
      exact ofKind_equals (kind_of_literalValue hx)
  | .contains f, t, h | .startsWith f, t, h | .endsWith f, t, h => ofKind_patternTest h
  | .oneOf choices, t, h => by
    rw [expressionTest] at h
    obtain ⟨ts, hts, rfl⟩ := map_eq_ok.1 h
    exact ofKind_any (ofKind_expressionTests hts)
  | .not e, t, h => by
    rw [expressionTest] at h
    obtain ⟨inner, hinner, rfl⟩ := map_eq_ok.1 h
    intro x hx
    rw [Test.literals] at hx
    exact ofKind_expressionTest hinner x hx
  | .or left right, t, h => by
    rw [expressionTest] at h
    obtain ⟨l, hl, h⟩ := bind_eq_ok.1 h
    obtain ⟨r, hr, h⟩ := bind_eq_ok.1 h
    cases h
    intro x hx
    rw [Test.literals, List.mem_append] at hx
    exact hx.elim (ofKind_expressionTest hl x) (ofKind_expressionTest hr x)
  | .range i, t, h => ofKind_rangeTest h

theorem ofKind_expressionTests : ∀ {es : List Expression} {ts : List Test},
    expressionTests field kind place es = .ok ts → ∀ t ∈ ts, t.OfKind kind
  | [], ts, h => by
    cases h
    exact fun _ ht => nomatch ht
  | e :: rest, ts, h => by
    rw [expressionTests] at h
    obtain ⟨t, ht, h⟩ := bind_eq_ok.1 h
    obtain ⟨ts, hts, h⟩ := bind_eq_ok.1 h
    cases h
    rw [List.forall_mem_cons]
    exact ⟨ofKind_expressionTest ht, ofKind_expressionTests hts⟩

end

theorem ofKind_equalityTest {o : Operand} (h : equalityTest field kind o = .ok t) :
    t.OfKind kind := by
  unfold equalityTest at h
  split at h
  · exact ofKind_expressionTest h
  · obtain ⟨choices, hchoices, rfl⟩ := map_eq_ok.1 h
    intro x hx
    obtain ⟨item, -, hitem⟩ := exists_of_mem_mapM hchoices hx
    exact kind_of_operandValue hitem
  · obtain ⟨x, hx, rfl⟩ := map_eq_ok.1 h
    exact ofKind_equals (kind_of_operandValue hx)

theorem ofKind_placedTest {p : Placement} {o : Operand} (h : placedTest field p o = .ok t) :
    t.OfKind .string := by
  unfold placedTest at h
  split at h
  · cases h
  · exact ofKind_expressionTest h
  · obtain ⟨ts, hts, rfl⟩ := map_eq_ok.1 h
    refine ofKind_any fun t ht => ?_
    obtain ⟨item, -, hitem⟩ := exists_of_mem_mapM hts ht
    exact ofKind_textTest hitem
  · exact ofKind_textTest h

variable {n : Nat} {s : Schema n} {type : FieldType n}

theorem kind?_of_comparedKind (h : comparedKind s field type = .ok kind) :
    type.kind? = some kind := by
  unfold comparedKind at h
  split at h
  · next k hk =>
    cases h
    exact hk
  · cases h

/-- A test that fits an operator and a field: what it compares with is of the kind of the field,
and nothing where lists are not looked into. -/
def Test.FitsField (op : Operator) (type : FieldType n) (t : Test) : Prop :=
  ∀ x ∈ t.literals, type.kind? = some x.kind ∧ op.looksInside = true

theorem Test.OfKind.fitsField {op : Operator} (h : t.OfKind kind)
    (hkind : type.kind? = some kind) (hop : op.looksInside = true) : t.FitsField op type :=
  fun x hx => ⟨(h x hx).symm ▸ hkind, hop⟩

theorem fitsField_orderTest {orEqual : Bool} {o : Operand} {op : Operator}
    (h : orderTest s field type orEqual o = .ok t) (hop : op.looksInside = true) :
    t.FitsField op type := by
  unfold orderTest at h
  obtain ⟨kind, hkind, h⟩ := bind_eq_ok.1 h
  cases horderable : kind.isOrderable with
  | false =>
    rw [horderable] at h
    cases h
  | true =>
    rw [horderable] at h
    cases hnull : o.isNull with
    | true =>
      rw [hnull] at h
      cases h
    | false =>
      rw [hnull] at h
      obtain ⟨x, hx, h⟩ := bind_eq_ok.1 h
      cases h
      refine Test.OfKind.fitsField (fun y hy => ?_) (kind?_of_comparedKind hkind) hop
      exact List.mem_singleton.1 hy ▸ kind_of_operandValue hx

/-- **The test of an operator** fits the operator and the field. -/
theorem fitsField_operatorTest {op : Operator} {o : Operand}
    (h : operatorTest s field type op o = .ok t) : t.FitsField op type := by
  -- the operators that look for text check the kind of the field first
  have hplaced : ∀ place, op.looksInside = true →
      (if type.kind? = some .string then placedTest field place o
        else refuse field (.notText op.token (s.typeName type))) = .ok t →
          t.FitsField op type := by
    intro place hop h
    split at h
    · next hkind => exact (ofKind_placedTest h).fitsField hkind hop
    · cases h
  cases op with
  | isNull =>
    cases h
    exact fun _ hx => nomatch hx
  | isEmpty =>
    simp only [operatorTest] at h
    split at h
    · cases h
      exact fun _ hx => nomatch hx
    split at h
    · cases h
      exact fun _ hx => nomatch hx
    · cases h
  | eq =>
    simp only [operatorTest] at h
    split at h
    · cases h
      exact fun _ hx => nomatch hx
    · obtain ⟨kind, hkind, h⟩ := bind_eq_ok.1 h
      exact (ofKind_equalityTest h).fitsField (kind?_of_comparedKind hkind) rfl
  | gt => exact fitsField_orderTest h rfl
  | gte => exact fitsField_orderTest h rfl
  | contains => exact hplaced _ rfl h
  | startsWith => exact hplaced _ rfl h
  | endsWith => exact hplaced _ rfl h
  | _ => cases h

end Compiled

/-! ## Values of a kind have an order -/

namespace Binary64

theorem exists_rank {a : Binary64} (ha : a ≠ .nan) : ∃ i, a.rank = some i := by
  cases a with
  | nan => exact absurd rfl ha
  | infinity negative => exact ⟨_, rfl⟩
  | finite negative steps fits => exact ⟨_, rfl⟩

/-- Doubles that are no NaN have an order. -/
theorem exists_compare? {a b : Binary64} (ha : a ≠ .nan) (hb : b ≠ .nan) :
    ∃ o, a.compare? b = some o := by
  obtain ⟨i, hi⟩ := exists_rank ha
  obtain ⟨j, hj⟩ := exists_rank hb
  exact ⟨compare i j, by rw [compare?, hi, hj]; rfl⟩

/-- No integer is near to a NaN. -/
theorem ofInt_ne_nan (i : Int) : ofInt i ≠ .nan := by
  unfold ofInt ofRatio ofSteps
  dsimp only
  split
  · split <;> simp
  · simp

end Binary64

namespace Scalar

variable {x y : Scalar}

/-- What may be held as an integer is an integer or a float. -/
theorem HeldAs.cases_integer (h : x.HeldAs .integer) :
    (∃ i, x = .integer i) ∨ ∃ f, x = .float f := by
  rcases h with h | ⟨-, i, hi⟩
  · cases x <;> cases h
    exact .inl ⟨_, rfl⟩
  · change Member.ofInt i.toNat = _ at hi
    unfold Member.ofInt at hi
    split at hi <;> cases hi
    · exact .inl ⟨_, rfl⟩
    · exact .inr ⟨_, rfl⟩

/-- **What a member of a kind may hold has an order with every value of the kind**, NaN aside. -/
theorem compare?_of_heldAs (ignoreCase : Bool) (h : x.HeldAs y.kind) (hx : x ≠ .float .nan)
    (hy : y ≠ .float .nan) : ∃ o, x.compare? ignoreCase y = some o := by
  cases y with
  | integer j =>
    rcases h.cases_integer with ⟨i, rfl⟩ | ⟨f, rfl⟩
    · exact ⟨_, rfl⟩
    · exact Binary64.exists_compare? (fun hf => hx (hf ▸ rfl)) (Binary64.ofInt_ne_nan _)
  | float g =>
    have hkind := h.resolve_right fun h => nomatch h.1
    cases x <;> cases hkind
    exact Binary64.exists_compare? (fun hf => hx (hf ▸ rfl)) (fun hg => hy (hg ▸ rfl))
  | _ =>
    have hkind := h.resolve_right fun h => nomatch h.1
    cases x <;> cases hkind
    exact ⟨_, rfl⟩

end Scalar

/-! ## Whole filters -/

/-- A comparison of a value with a literal that has an answer, unless one of them is a NaN or the
value is null. -/
def FieldValue.ComparesWith (ignoreCase : Bool) (v : FieldValue) (x : Scalar) : Prop :=
  v ≠ .null → v ≠ .scalar (.float .nan) → x ≠ .float .nan →
    ∃ o, v.compare? ignoreCase (.scalar x) = some o

variable {n : Nat} {s : Schema n} {ignoreCase : Bool} {r : Record} {v : FieldValue} {x : Scalar}

theorem FieldValue.comparesWith_of_conforms (h : v.Conforms s (.scalar x.kind)) :
    v.ComparesWith ignoreCase x := by
  intro hnull hnan hx
  cases h with
  | null => exact absurd rfl hnull
  | scalar h => exact Scalar.compare?_of_heldAs ignoreCase h (fun hf => hnan (hf ▸ rfl)) hx

/-- What a test is asked about at the end of a path conforms to the innermost type there, if the
test looks into lists. -/
theorem Predicate.conforms_tested {type : Fin n} {names : List String}
    {segments : List (PathSegment n)} {leaf : PathSegment n}
    (h : s.resolveFrom type names = .ok segments) (hleaf : segments.getLast? = some leaf)
    (hr : r.Conforms s type) (hv : v ∈ tested names leaf.type.isList r) :
    v.Conforms s leaf.type.innermost := by
  rw [tested] at hv
  cases hlist : leaf.type.isList with
  | true =>
    rw [hlist, if_pos rfl, List.mem_flatMap] at hv
    obtain ⟨w, hw, hv⟩ := hv
    exact FieldValue.conforms_elements (Record.conforms_reached h hleaf hr hw) hv
  | false =>
    rw [hlist, if_neg Bool.false_ne_true] at hv
    rw [FieldType.innermost_of_not_isList hlist]
    exact Record.conforms_reached h hleaf hr hv

theorem mapError_eq_ok {ε ε' α : Type} {g : ε → ε'} {y : Except ε α} {a : α} :
    y.mapError g = .ok a ↔ y = .ok a := by
  cases y with
  | error e => exact ⟨nofun, nofun⟩
  | ok b => constructor <;> (rintro ⟨⟩; rfl)

namespace Schema

/-- **What a comparison compiles to**: nothing to ask without a field, else the test of its positive
operator at the end of its path. -/
theorem compileFilter_eq_ok {f : Filter} {p : Predicate} (h : s.compileFilter f = .ok p) :
    (f.path? = none ∧ p = .always) ∨ ∃ path segments leaf test, f.path? = some path ∧
      s.resolve path = .ok segments ∧ segments.getLast? = some leaf ∧
      operatorTest s path leaf.type f.operator.positive.1 f.operand = .ok test ∧
      p = .field (segments.map (·.name)) test
        (leaf.type.isList && f.operator.positive.1.looksInside) f.operator.positive.2 := by
  unfold compileFilter at h
  split at h
  · next hnone =>
    cases h
    exact .inl ⟨hnone, rfl⟩
  next path hpath =>
  obtain ⟨segments, hsegments, h⟩ := bind_eq_ok.1 h
  cases hleaf : segments.getLast? with
  | none =>
    rw [hleaf] at h
    cases h
  | some leaf =>
    rw [hleaf] at h
    obtain ⟨test, htest, h⟩ := bind_eq_ok.1 h
    exact .inr ⟨path, segments, leaf, test, hpath, hsegments, hleaf, mapError_eq_ok.1 htest,
      (Except.ok.inj h).symm⟩

theorem comparesWith_of_compileFilter {f : Filter} {p : Predicate}
    (h : s.compileFilter f = .ok p) (hr : r.Conforms s s.root)
    (hmade : (v, x) ∈ (p.traced ignoreCase r).made) : v.ComparesWith ignoreCase x := by
  rcases compileFilter_eq_ok h with
    ⟨-, rfl⟩ | ⟨path, segments, leaf, test, -, hsegments, hleaf, htest, rfl⟩
  · cases hmade
  obtain ⟨names, -, hresolve⟩ := bind_eq_ok.1 hsegments
  obtain ⟨hv, hliteral⟩ := Predicate.made_field hmade
  obtain ⟨hkind, hop⟩ := fitsField_operatorTest htest x hliteral
  rw [hop, Bool.and_true, names_resolveFrom hresolve] at hv
  have hconforms := Predicate.conforms_tested hresolve hleaf hr hv
  rw [FieldType.innermost_of_kind? hkind] at hconforms
  exact FieldValue.comparesWith_of_conforms hconforms

mutual

/-- Every comparison that a compiled tree makes is made by one of its comparisons with a field. -/
theorem comparesWith_of_compile (hr : r.Conforms s s.root) : ∀ {node : Node} {p : Predicate},
    s.compile node = .ok p → (v, x) ∈ (p.traced ignoreCase r).made → v.ComparesWith ignoreCase x
  | .leaf f, p, h, hmade => by
    rw [compile] at h
    exact comparesWith_of_compileFilter h hr hmade
  | .group _ .and members, p, h, hmade => by
    rw [compile] at h
    obtain ⟨ps, hps, rfl⟩ := map_eq_ok.1 h
    rw [Predicate.traced] at hmade
    obtain ⟨q, hq, hmade⟩ := Predicate.mem_made_tracedAll hmade
    exact comparesWith_of_compileAll hr hps hq hmade
  | .group _ .or members, p, h, hmade => by
    rw [compile] at h
    obtain ⟨ps, hps, rfl⟩ := map_eq_ok.1 h
    rw [Predicate.traced] at hmade
    obtain ⟨q, hq, hmade⟩ := Predicate.mem_made_tracedAny hmade
    exact comparesWith_of_compileAll hr hps hq hmade

theorem comparesWith_of_compileAll (hr : r.Conforms s s.root) :
    ∀ {nodes : List Node} {ps : List Predicate}, s.compileAll nodes = .ok ps → ∀ {p : Predicate},
      p ∈ ps → (v, x) ∈ (p.traced ignoreCase r).made → v.ComparesWith ignoreCase x
  | [], ps, h, p, hp, _ => by
    cases h
    cases hp
  | node :: rest, ps, h, p, hp, hmade => by
    rw [compileAll] at h
    obtain ⟨q, hq, h⟩ := bind_eq_ok.1 h
    obtain ⟨qs, hqs, h⟩ := bind_eq_ok.1 h
    cases h
    rcases List.mem_cons.1 hp with rfl | hp
    · exact comparesWith_of_compile hr hq hmade
    · exact comparesWith_of_compileAll hr hqs hp hmade

end

/-- **Compiled filters are type-sound.** Where a filter tree compiles and a record conforms to the
root type, its evaluation can be written down comparison by comparison. It gives the answer of the
predicate, and no comparison of a value with a literal in it is without an order, unless the value
is null or one of the two is a NaN. -/
theorem comparisons_defined {node : Node} {p : Predicate} (h : s.compile node = .ok p)
    (hr : r.Conforms s s.root) (ignoreCase : Bool) :
    (p.traced ignoreCase r).answer = p.accepts ignoreCase r ∧
      ∀ v x, (v, x) ∈ (p.traced ignoreCase r).made → v ≠ .null → v ≠ .scalar (.float .nan) →
        x ≠ .float .nan → ∃ o, v.compare? ignoreCase (.scalar x) = some o :=
  ⟨Predicate.answer_traced ignoreCase r p, fun _ _ hmade => comparesWith_of_compile hr h hmade⟩

/-- A date is compared with a clock reading, and then the integers in a list of lists with gaps with
a set that holds a range. One of the integers has no place among those with a sign. -/
theorem comparisons_defined_lists :
    ∃ (s : Schema 1) (node : Node) (p : Predicate) (r : Record),
      s.compile node = .ok p ∧ r.Conforms s s.root ∧ (p.traced false r).made.length = 12 ∧
        ∀ v x, (v, x) ∈ (p.traced false r).made → v ≠ .null → v ≠ .scalar (.float .nan) →
          x ≠ .float .nan → ∃ o, v.compare? false (.scalar x) = some o := by
  let s : Schema 1 :=
    ⟨fun _ => ⟨"Run", [("Day", .scalar .date), ("Scores", .list (.list (.scalar .integer)))]⟩, 0⟩
  let day : Date := ⟨2024, 2, 29, by decide, by decide, by decide, by decide, by decide, by decide⟩
  let scores : List (Option (List (Option UInt64))) :=
    [some [some 18446744073709551615, none], none, some [some 3]]
  let r : Record := [("Day", Member.value day), ("Scores", Member.value scores)]
  let choices : List Expression :=
    [.range (.between (.text "1") (.text "5")), .literal (.text "7")]
  let node : Node := .group .multi .and
    [.leaf (.on "Day" .gte (.string "2024-01-01T12:00:00")),
      .leaf (.on "Scores" .neq (.expression (.oneOf choices)))]
  have hr : r.Conforms s s.root := by
    refine Record.conforms_of_members ?_
    rw [List.forall_mem_cons, List.forall_mem_singleton]
    exact ⟨LawfulMember.conforms s day, LawfulMember.conforms s scores⟩
  have hmade : (s.compile node).toOption.map (fun p => (p.traced false r).made.length) =
      some 12 := by decide +kernel
  obtain ⟨p, hp, hlength⟩ := Option.map_eq_some_iff.1 hmade
  have hcompile := toOption_eq_some.1 hp
  exact ⟨s, node, p, r, hcompile, hr, hlength, (comparisons_defined hcompile hr false).2⟩

end Schema

end Sift
