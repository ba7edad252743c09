import Sift.Proofs.TypeSoundness
import Sift.Proofs.WellFormed

/-!
# The errors of compiled filters

A filter whose paths can be read is refused for its members, its types and its arguments. Reading
its paths once more is no reason, and no internal error is in reach.

* `FailsWith`: steps that fail only with errors of some kinds, and how they go together.
* `Schema.failsWith_resolveFrom`, `failsWith_expressionTest`, `failsWith_operatorTest`: one lemma
  for each step.
* `Schema.failsWith_compile`: the errors of a tree whose paths can be read.
* `Node.compile_of_ofText`: **the errors of a filter that was read from a text.**
-/

namespace Sift

/-! ## Kinds of errors -/

/-- The kinds of errors that members, types and arguments are the reason for. -/
def ErrorCode.OfMeaning : ErrorCode → Prop
  | memberResolution | typeMismatch | invalidArgument | outOfRange => True
  | parse | internal => False

/-- **Steps that fail only with errors of some kinds.** -/
def FailsWith {α : Type} (kinds : ErrorCode → Prop) (x : Except QueryError α) : Prop :=
  ∀ e, x = .error e → kinds e.code

namespace FailsWith

variable {α β : Type} {kinds kinds' : ErrorCode → Prop} {x : Except QueryError α}
  {f : α → Except QueryError β}

theorem ok (a : α) : FailsWith kinds (.ok a : Except QueryError α) := by
  intro e h
  cases h

theorem error {e : QueryError} (h : kinds e.code) :
    FailsWith kinds (.error e : Except QueryError α) := by
  rintro _ ⟨⟩
  exact h

theorem mono (h : FailsWith kinds x) (hkinds : ∀ c, kinds c → kinds' c) : FailsWith kinds' x :=
  fun e he => hkinds _ (h e he)

theorem bind (hx : FailsWith kinds x) (hf : ∀ a, x = .ok a → FailsWith kinds (f a)) :
    FailsWith kinds (x >>= f) := by
  intro e h
  rcases bind_eq_error.1 h with h | ⟨a, ha, h⟩
  · exact hx e h
  · exact hf a ha e h

theorem map (hx : FailsWith kinds x) (g : α → β) : FailsWith kinds (g <$> x) :=
  fun e h => hx e (map_eq_error.1 h)

theorem mapM {as : List α} (hf : ∀ a ∈ as, FailsWith kinds (f a)) :
    FailsWith kinds (as.mapM f) := by
  induction as with
  | nil => exact ok []
  | cons a as ih =>
    rw [List.forall_mem_cons] at hf
    rw [List.mapM_cons]
    exact hf.1.bind fun b _ => (ih hf.2).bind fun bs _ => ok (b :: bs)

theorem optionMapM {a? : Option α} (hf : ∀ a ∈ a?, FailsWith kinds (f a)) :
    FailsWith kinds (a?.mapM f) := by
  cases a? with
  | none => exact ok none
  | some a => exact (hf a rfl).map some

theorem mapError {g : QueryError → QueryError} (hx : FailsWith kinds x)
    (hg : ∀ e, (g e).code = e.code) : FailsWith kinds (x.mapError g) := by
  intro e h
  cases x with
  | error e' =>
    cases h
    rw [hg]
    exact hx e' rfl
  | ok a => cases h

/-- A step ends well, or with an error of one of the kinds. -/
theorem ok_or_error (hx : FailsWith kinds x) :
    (∃ a, x = .ok a) ∨ ∃ e, x = .error e ∧ kinds e.code := by
  cases x with
  | ok a => exact Or.inl ⟨a, rfl⟩
  | error e => exact Or.inr ⟨e, rfl, hx e rfl⟩

end FailsWith

/-! ## Tests -/

section Tests

variable {n : Nat} {field : String} {kind : Kind}

theorem failsWith_refuse {α : Type} (m : Mismatch) :
    FailsWith ErrorCode.OfMeaning (refuse field m : Except QueryError α) :=
  FailsWith.error trivial

/-- The only fault of a piece of text is that it is empty. -/
theorem failsWith_textTest (place : Placement) (piece : List Char) :
    FailsWith ErrorCode.OfMeaning (textTest field place piece) := by
  unfold textTest Fragment.of
  by_cases hempty : String.ofList piece = ""
  · rw [dif_pos hempty]
    exact FailsWith.error trivial
  · rw [dif_neg hempty]
    exact FailsWith.ok _

theorem failsWith_literalValue (l : Literal) :
    FailsWith ErrorCode.OfMeaning (literalValue field kind l) := by
  unfold literalValue
  cases l.as? kind with
  | some v => exact FailsWith.ok v
  | none => exact failsWith_refuse _

theorem failsWith_operandValue (operand : Operand) :
    FailsWith ErrorCode.OfMeaning (operandValue field kind operand) := by
  unfold operandValue
  cases operand.as kind with
  | ok v => exact FailsWith.ok v
  | error m => exact failsWith_refuse m

theorem failsWith_patternTest (pattern : Expression) (place : Placement) (f : Fragment) :
    FailsWith ErrorCode.OfMeaning (patternTest field kind pattern place f) := by
  unfold patternTest
  by_cases hkind : kind = .string
  · rw [if_pos hkind]
    exact failsWith_textTest place _
  · rw [if_neg hkind]
    exact failsWith_refuse _

theorem failsWith_rangeTest (i : Interval) :
    FailsWith ErrorCode.OfMeaning (rangeTest field kind i) := by
  have hends (end? : Option Literal) :
      FailsWith ErrorCode.OfMeaning (end?.mapM (literalValue field kind)) :=
    FailsWith.optionMapM fun l _ => failsWith_literalValue l
  unfold rangeTest
  cases kind.isOrderable with
  | false => exact failsWith_refuse _
  | true => exact (hends i.min?).bind fun min _ => (hends i.max?).bind fun max _ =>
      FailsWith.ok (Test.within min max)

mutual

theorem failsWith_expressionTest (place : Option Placement) : ∀ e : Expression,
    FailsWith ErrorCode.OfMeaning (expressionTest field kind place e)
  | .anything => by
    rw [expressionTest]
    exact FailsWith.ok Test.isPresent
  | .literal l => by
    cases place with
    | some p =>
      rw [expressionTest]
      exact failsWith_textTest p _
    | none =>
      rw [expressionTest]
      exact (failsWith_literalValue l).map Test.equals
  | .contains f => by
    rw [expressionTest]
    exact failsWith_patternTest _ .anywhere f
  | .startsWith f => by
    rw [expressionTest]
    exact failsWith_patternTest _ .atStart f
  | .endsWith f => by
    rw [expressionTest]
    exact failsWith_patternTest _ .atEnd f
  | .oneOf choices => by
    rw [expressionTest]
    exact (failsWith_expressionTests place choices).map Test.any
  | .not e => by
    rw [expressionTest]
    exact (failsWith_expressionTest place e).map Test.not
  | .or left right => by
    rw [expressionTest]
    exact (failsWith_expressionTest place left).bind fun l _ =>
      (failsWith_expressionTest place right).bind fun r _ => FailsWith.ok (Test.either l r)
  | .range i => by
    rw [expressionTest]
    exact failsWith_rangeTest i

theorem failsWith_expressionTests (place : Option Placement) : ∀ es : List Expression,
    FailsWith ErrorCode.OfMeaning (expressionTests field kind place es)
  | [] => by
    rw [expressionTests]
    exact FailsWith.ok []
  | e :: es => by
    rw [expressionTests]
    exact (failsWith_expressionTest place e).bind fun t _ =>
      (failsWith_expressionTests place es).bind fun ts _ => FailsWith.ok (t :: ts)

end

theorem failsWith_equalityTest (operand : Operand) :
    FailsWith ErrorCode.OfMeaning (equalityTest field kind operand) := by
  cases operand with
  | expression e => exact failsWith_expressionTest none e
  | list items =>
    exact (FailsWith.mapM fun item _ => failsWith_operandValue item).map Test.equalsSome
  | null => exact (failsWith_operandValue .null).map Test.equals
  | scalar v => exact (failsWith_operandValue (.scalar v)).map Test.equals

theorem failsWith_placedTest (place : Placement) (operand : Operand) :
    FailsWith ErrorCode.OfMeaning (placedTest field place operand) := by
  cases operand with
  | null => exact FailsWith.error trivial
  | expression e => exact failsWith_expressionTest (some place) e
  | list items => exact (FailsWith.mapM fun item _ => failsWith_textTest place _).map Test.any
  | scalar v => exact failsWith_textTest place v.text

variable {s : Schema n} {type : FieldType n}

theorem failsWith_comparedKind : FailsWith ErrorCode.OfMeaning (comparedKind s field type) := by
  unfold comparedKind
  cases type.kind? with
  | some kind => exact FailsWith.ok kind
  | none => exact failsWith_refuse _

theorem failsWith_orderTest (orEqual : Bool) (operand : Operand) :
    FailsWith ErrorCode.OfMeaning (orderTest s field type orEqual operand) := by
  refine failsWith_comparedKind.bind fun kind _ => ?_
  cases kind.isOrderable with
  | false => exact failsWith_refuse _
  | true =>
    cases operand.isNull with
    | true => exact FailsWith.error trivial
    | false =>
      exact (failsWith_operandValue operand).bind fun v _ => FailsWith.ok (Test.above v orEqual)

/-- **A positive operator is never refused for being what it is.** The internal error waits for
operators that stand for the negation of another. -/
theorem failsWith_operatorTest (op : Operator) (operand : Operand) :
    FailsWith ErrorCode.OfMeaning (operatorTest s field type op.positive.1 operand) := by
  have htext (place : Placement) (op : Operator) : FailsWith ErrorCode.OfMeaning
      (if type.kind? = some .string then placedTest field place operand
        else refuse field (.notText op.token (s.typeName type))) := by
    by_cases hkind : type.kind? = some .string
    · rw [if_pos hkind]
      exact failsWith_placedTest place operand
    · rw [if_neg hkind]
      exact failsWith_refuse _
  have hempty : FailsWith ErrorCode.OfMeaning (operatorTest s field type .isEmpty operand) := by
    unfold operatorTest
    by_cases hlist : type.isList = true
    · simp only [if_pos hlist]
      exact FailsWith.ok Test.isEmptyList
    · by_cases hkind : type.kind? = some .string
      · simp only [if_neg hlist, if_pos hkind]
        exact FailsWith.ok Test.isEmptyText
      · simp only [if_neg hlist, if_neg hkind]
        exact failsWith_refuse _
  have heq : FailsWith ErrorCode.OfMeaning (operatorTest s field type .eq operand) := by
    unfold operatorTest
    by_cases hnull : operand.isNull = true
    · simp only [if_pos hnull]
      exact FailsWith.ok Test.isNull
    · simp only [if_neg hnull]
      exact failsWith_comparedKind.bind fun kind _ => failsWith_equalityTest operand
  cases op with
  | eq | neq => exact heq
  | gt | lte => exact failsWith_orderTest false operand
  | gte | lt => exact failsWith_orderTest true operand
  | contains | notContains => exact htext .anywhere .contains
  | startsWith | notStartsWith => exact htext .atStart .startsWith
  | endsWith | notEndsWith => exact htext .atEnd .endsWith
  | isNull | isNotNull => exact FailsWith.ok Test.isNull
  | isEmpty | isNotEmpty => exact hempty

end Tests

/-! ## Paths -/

namespace Schema

variable {n : Nat} {s : Schema n}

theorem code_unknownMember (shape : Shape n) (name : String) :
    (unknownMember shape name).code = .memberResolution := by
  unfold unknownMember
  simp only
  split <;> rfl

/-- Names that are no members are all that can be wrong with a path that has been read. -/
theorem failsWith_resolveFrom (type : Fin n) (names : List String) :
    FailsWith (· = .memberResolution) (s.resolveFrom type names) := by
  fun_induction resolveFrom s type names with
  | case1 => exact FailsWith.ok []
  | case2 type name rest hnone => exact FailsWith.error (code_unknownMember _ name)
  | case3 => exact FailsWith.ok _
  | case4 => exact FailsWith.error rfl
  | case5 type name t ht next rest inner hinner ih => exact ih.map _

/-- A path of at least one name leads somewhere. -/
theorem resolveFrom_ne_nil {type : Fin n} {names : List String} {segments : List (PathSegment n)}
    (h : s.resolveFrom type names = .ok segments) (hnames : names ≠ []) : segments ≠ [] := by
  rintro rfl
  exact hnames (s.names_resolveFrom h).symm

theorem pathNames_eq_ok {path : String} {names : List String} :
    pathNames path = .ok names ↔ fieldNames path = .ok names := mapError_eq_ok

theorem failsWith_resolve {path : String} {names : List String} (h : fieldNames path = .ok names) :
    FailsWith (· = .memberResolution) (s.resolve path) := by
  unfold resolve
  rw [pathNames_eq_ok.2 h]
  exact failsWith_resolveFrom s.root names

/-! ## Filters -/

/-- **The errors of a comparison** whose path can be read and has a name. -/
theorem failsWith_compileFilter {f : Filter}
    (h : ∀ path ∈ f.path?, ∃ names, names ≠ [] ∧ fieldNames path = .ok names) :
    FailsWith ErrorCode.OfMeaning (s.compileFilter f) := by
  unfold compileFilter
  cases hpath : f.path? with
  | none => exact FailsWith.ok Predicate.always
  | some path =>
    obtain ⟨names, hne, hnames⟩ := h path hpath
    have hkinds : ∀ c, c = .memberResolution → ErrorCode.OfMeaning c := by
      rintro _ rfl
      trivial
    refine ((failsWith_resolve hnames).mono hkinds).bind fun segments hresolve => ?_
    have hsegments : segments ≠ [] := by
      unfold resolve at hresolve
      rw [pathNames_eq_ok.2 hnames] at hresolve
      exact resolveFrom_ne_nil hresolve hne
    have hcode : ∀ e : QueryError, (e.withType s.rootShape.name).code = e.code := fun _ => rfl
    rw [List.getLast?_eq_some_getLast hsegments]
    exact ((failsWith_operatorTest f.operator f.operand).mapError hcode).bind
      fun test _ => FailsWith.ok _

mutual

/-- **The errors of a tree** are those of its comparisons. -/
theorem failsWith_compile {kinds : ErrorCode → Prop} : ∀ node : Node,
    (∀ f ∈ node.filters, FailsWith kinds (s.compileFilter f)) → FailsWith kinds (s.compile node)
  | .leaf f, h => by
    rw [compile]
    exact h f (by simp [Node.filters])
  | .group _ .and members, h => by
    rw [compile]
    exact (failsWith_compileAll members h).map Predicate.all
  | .group _ .or members, h => by
    rw [compile]
    exact (failsWith_compileAll members h).map Predicate.any

theorem failsWith_compileAll {kinds : ErrorCode → Prop} : ∀ nodes : List Node,
    (∀ f ∈ Node.filtersOf nodes, FailsWith kinds (s.compileFilter f)) →
      FailsWith kinds (s.compileAll nodes)
  | [], _ => by
    rw [compileAll]
    exact FailsWith.ok []
  | node :: nodes, h => by
    simp only [Node.filtersOf, List.mem_append] at h
    rw [compileAll]
    exact (failsWith_compile node fun f hf => h f (Or.inl hf)).bind fun p _ =>
      (failsWith_compileAll nodes fun f hf => h f (Or.inr hf)).bind fun ps _ =>
        FailsWith.ok (p :: ps)

end

end Schema

namespace Node

variable {limit : Nat} {text : String} {node : Node}

/-- The field of every comparison that is read is a path by itself. -/
theorem fieldNames_of_ofText (h : ofText limit text = .ok node) :
    ∀ f ∈ node.filters, ∀ path ∈ f.field, ∃ names, names ≠ [] ∧ fieldNames path = .ok names := by
  intro f hf path hpath
  rcases legible_ofText h with rfl | hlegible
  · rw [always, filters, List.mem_singleton] at hf
    rw [hf] at hpath
    cases hpath
  · obtain ⟨p, hp, hfield⟩ := (hlegible.filters f hf).field
    rw [hfield] at hpath
    cases hpath
    exact ⟨p.names, List.cons_ne_nil _ _, hp.readable.fieldNames_written⟩

/-- **The errors of a filter that was read from a text.** The field of each of its comparisons is
read as a path of at least one name, and with any types the filter compiles, or is refused for a
member that is not there, for a type that does not fit, for an argument that is missing, or for one
that is empty. -/
theorem compile_of_ofText (h : ofText limit text = .ok node) :
    (∀ f ∈ node.filters, ∀ path ∈ f.field,
      ∃ names, names ≠ [] ∧ fieldNames path = .ok names) ∧
    ∀ {n : Nat} (s : Schema n), (∃ p, s.compile node = .ok p) ∨ ∃ e, s.compile node = .error e ∧
      (e.code = .memberResolution ∨ e.code = .typeMismatch ∨ e.code = .invalidArgument ∨
        e.code = .outOfRange) := by
  have hfields := fieldNames_of_ofText h
  refine ⟨hfields, fun s => ?_⟩
  have hcompile : FailsWith ErrorCode.OfMeaning (s.compile node) := by
    refine Schema.failsWith_compile node fun f hf => Schema.failsWith_compileFilter ?_
    intro path hpath
    exact hfields f hf path (Option.mem_filter_iff.1 hpath).1
  refine hcompile.ok_or_error.imp_right ?_
  rintro ⟨e, he, hkind⟩
  refine ⟨e, he, ?_⟩
  revert hkind
  cases e.code <;> simp [ErrorCode.OfMeaning]

/-- A field with a quote in its name and white space behind it, in a filter that also orders the
object around it. -/
theorem compile_of_ofText_quoted : ∃ text node, ofText 4 text = .ok node ∧
    (∀ f ∈ node.filters, ∀ path ∈ f.field, ∃ names, names ≠ [] ∧ fieldNames path = .ok names) ∧
    ∃ (s : Schema 1) (e : QueryError), s.compile node = .error e ∧
      (e.code = .memberResolution ∨ e.code = .typeMismatch ∨ e.code = .invalidArgument ∨
        e.code = .outOfRange) := by
  let text := "not (Name[\"a\\\"b]\"]  isnull) or Name gt 1"
  let s : Schema 1 := ⟨fun _ => ⟨"Hero", [("Name", .object 0), ("a\"b]", .scalar .string)]⟩, 0⟩
  have hreads : (ofText 4 text).isOk = true := by decide +kernel
  have hrefused :
      ((ofText 4 text).toOption.map fun node => (s.compile node).isOk) = some false := by
    decide +kernel
  cases hnode : ofText 4 text with
  | error e => rw [hnode] at hreads; cases hreads
  | ok node =>
    obtain ⟨hfields, hcompile⟩ := compile_of_ofText hnode
    refine ⟨text, node, hnode, hfields, s, ?_⟩
    rcases hcompile s with ⟨p, hp⟩ | herror
    · rw [hnode] at hrefused
      simp [Except.toOption, hp, Except.isOk, Except.toBool] at hrefused
    · exact herror

end Node

end Sift
