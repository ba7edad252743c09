import Sift.Proofs.LiteralValue
import Sift.Proofs.TreeText
import Sift.Query.Compile

/-!
# Reread filters mean the same

* `Agree R x y`: two results both fail, or both succeed with values that `R` relates.
* `expressionTest_flattened`: a flattened expression stands for the same test.
* `Operand.alike_reread`, `operatorTest_alike`: so does what an operand is reread as.
* `Node.meansSame_reread`: a reread tree compiles where the tree does, and accepts the same
  records.
-/

namespace Sift

/-! ## Results that agree -/

/-- **Both results are errors, or both are values** that a relation relates. -/
inductive Agree {ε α β : Type} (R : α → β → Prop) : Except ε α → Except ε β → Prop
  | error (e e' : ε) : Agree R (.error e) (.error e')
  | ok {a : α} {b : β} (h : R a b) : Agree R (.ok a) (.ok b)

namespace Agree

variable {ε α β γ δ : Type} {R : α → β → Prop} {S : γ → δ → Prop} {x : Except ε α} {y : Except ε β}

theorem refl {R : α → α → Prop} (hR : ∀ a, R a a) (x : Except ε α) : Agree R x x := by
  cases x with
  | error e => exact .error e e
  | ok a => exact .ok (hR a)

theorem bind {f : α → Except ε γ} {g : β → Except ε δ} (h : Agree R x y)
    (hf : ∀ a b, R a b → Agree S (f a) (g b)) : Agree S (x >>= f) (y >>= g) := by
  cases h with
  | error e e' => exact .error e e'
  | ok h => exact hf _ _ h

theorem map {f : α → γ} {g : β → δ} (h : Agree R x y) (hf : ∀ a b, R a b → S (f a) (g b)) :
    Agree S (f <$> x) (g <$> y) := by
  cases h with
  | error e e' => exact .error e e'
  | ok h => exact .ok (hf _ _ h)

theorem mapError {f g : ε → ε} (h : Agree R x y) : Agree R (x.mapError f) (y.mapError g) := by
  cases h with
  | error e e' => exact .error (f e) (g e')
  | ok h => exact .ok h

theorem ok_iff (h : Agree R x y) : (∃ a, x = .ok a) ↔ ∃ b, y = .ok b := by
  cases h with
  | error e e' => simp
  | ok h => simp

theorem of_ok {a : α} {b : β} (h : Agree R (.ok a : Except ε α) (.ok b)) : R a b := by
  cases h with
  | ok h => exact h

end Agree

/-! ## Tests of flattened expressions -/

/-- Two tests pass the same values. -/
def Test.Same (t t' : Test) : Prop := ∀ ignoreCase v, t.holds ignoreCase v = t'.holds ignoreCase v

/-- A test passes what one of several tests passes. -/
def Test.SameAny (t : Test) (ts : List Test) : Prop :=
  ∀ ignoreCase v, t.holds ignoreCase v = Test.anyHolds ignoreCase ts v

theorem Test.anyHolds_append (ignoreCase : Bool) (ts ts' : List Test) (v : FieldValue) :
    anyHolds ignoreCase (ts ++ ts') v =
      (anyHolds ignoreCase ts v || anyHolds ignoreCase ts' v) := by
  induction ts with
  | nil => rfl
  | cons t ts ih => rw [List.cons_append, anyHolds, anyHolds, ih, Bool.or_assoc]

variable (field : String) (kind : Kind) (place : Option Placement)

theorem expressionTests_append (es es' : List Expression) :
    expressionTests field kind place (es ++ es') = (do
      let ts ← expressionTests field kind place es
      return ts ++ (← expressionTests field kind place es')) := by
  induction es with
  | nil => cases h : expressionTests field kind place es' <;> simp [expressionTests, h]
  | cons e es ih =>
    simp only [List.cons_append, expressionTests, ih]
    cases expressionTest field kind place e with
    | error e => rfl
    | ok t =>
      cases expressionTests field kind place es with
      | error e => rfl
      | ok ts => cases expressionTests field kind place es' <;> rfl

theorem expressionTests_single (e : Expression) :
    Agree Test.SameAny (expressionTest field kind place e)
      (expressionTests field kind place [e]) := by
  simp only [expressionTests]
  cases expressionTest field kind place e with
  | error e => exact .error e e
  | ok t =>
    refine .ok fun ignoreCase v => ?_
    rw [Test.anyHolds, Test.anyHolds, Bool.or_false]

/-- A disjunction is passed by what passes one of its operands. -/
theorem expressionTest_alternatives : ∀ e : Expression,
    Agree Test.SameAny (expressionTest field kind place e)
      (expressionTests field kind place e.alternatives)
  | .or left right => by
    have hleft := expressionTest_alternatives left
    have happend : (Expression.or left right).alternatives = left.alternatives ++ [right] := rfl
    rw [happend, expressionTests_append, expressionTest]
    refine hleft.bind fun t ts ht => ?_
    simp only [expressionTests]
    cases expressionTest field kind place right with
    | error e => exact .error e e
    | ok r =>
      refine .ok fun ignoreCase v => ?_
      rw [Test.holds, Test.anyHolds_append, ht, Test.anyHolds, Test.anyHolds, Bool.or_false]
  | .literal _ | .anything | .oneOf _ | .contains _ | .startsWith _ | .endsWith _ | .not _
  | .range _ => expressionTests_single field kind place _

theorem Test.Same.sameAny {t t' : Test} {ts : List Test} (h : t.Same t') (hs : t'.SameAny ts) :
    t.SameAny ts :=
  fun ignoreCase v => (h ignoreCase v).trans (hs ignoreCase v)

theorem Agree.trans {ε α β γ : Type} {R : α → β → Prop} {S : β → γ → Prop} {T : α → γ → Prop}
    {x : Except ε α} {y : Except ε β} {z : Except ε γ} (hxy : Agree R x y) (hyz : Agree S y z)
    (hT : ∀ a b c, R a b → S b c → T a c) : Agree T x z := by
  cases hxy with
  | error e e' =>
    cases hyz with
    | error _ e'' => exact .error e e''
  | ok hR =>
    cases hyz with
    | ok hS => exact .ok (hT _ _ _ hR hS)

mutual

/-- **A flattened expression stands for the same test.** -/
theorem expressionTest_flattened : ∀ e : Expression,
    Agree Test.Same (expressionTest field kind place e)
      (expressionTest field kind place e.flattened)
  | .oneOf choices => by
    rw [Expression.flattened, expressionTest, expressionTest]
    refine (expressionTests_flattened choices).map fun ts ts' h => ?_
    intro ignoreCase v
    rw [Test.holds, Test.holds, h]
  | .not e => by
    rw [Expression.flattened, expressionTest, expressionTest]
    refine (expressionTest_flattened e).map fun t t' h => ?_
    intro ignoreCase v
    rw [Test.holds, Test.holds, h]
  | .or left right => by
    rw [Expression.flattened, expressionTest, expressionTest]
    refine (expressionTest_flattened left).bind fun l l' hl => ?_
    refine (expressionTest_flattened right).bind fun r r' hr => .ok ?_
    intro ignoreCase v
    rw [Test.holds, Test.holds, hl, hr]
  | .literal _ | .anything | .contains _ | .startsWith _ | .endsWith _ | .range _ =>
    Agree.refl (fun _ _ _ => rfl) _

theorem expressionTests_flattened : ∀ es : List Expression,
    Agree (fun ts ts' => ∀ ignoreCase v, Test.anyHolds ignoreCase ts v =
        Test.anyHolds ignoreCase ts' v)
      (expressionTests field kind place es)
      (expressionTests field kind place (Expression.flattenedChoices es))
  | [] => .ok fun _ _ => rfl
  | e :: rest => by
    -- a disjunction among the choices stands for its operands
    have hfirst := (expressionTest_flattened e).trans
      (expressionTest_alternatives field kind place e.flattened) fun _ _ _ => Test.Same.sameAny
    rw [Expression.flattenedChoices, expressionTests_append, expressionTests]
    refine hfirst.bind fun t ts ht => ?_
    refine (expressionTests_flattened rest).bind fun ts' ts'' h => .ok ?_
    intro ignoreCase v
    rw [Test.anyHolds, Test.anyHolds_append, ht, h]

end

/-! ## Tests of reread operands -/

/-- Where a positive operator looks for text, if it does. -/
def Operator.placement? : Operator → Option Placement
  | contains => some .anywhere
  | startsWith => some .atStart
  | endsWith => some .atEnd
  | _ => none

/-- What a positive operator asks of two operands is the same. -/
structure Operand.Alike (op : Operator) (o o' : Operand) : Prop where
  isNull : o.isNull = o'.isNull
  equality : op = .eq → ∀ field kind,
    Agree Test.Same (equalityTest field kind o) (equalityTest field kind o')
  value : op = .gt ∨ op = .gte → ∀ field kind,
    Agree Eq (operandValue field kind o) (operandValue field kind o')
  placed : ∀ place, op.placement? = some place → ∀ field,
    Agree Test.Same (placedTest field place o) (placedTest field place o')

theorem orderTest_alike {n : Nat} (s : Schema n) {type : FieldType n} {orEqual : Bool}
    {o o' : Operand} (hnull : o.isNull = o'.isNull)
    (hvalue : ∀ kind, Agree Eq (operandValue field kind o) (operandValue field kind o')) :
    Agree Test.Same (orderTest s field type orEqual o) (orderTest s field type orEqual o') := by
  unfold orderTest
  refine (Agree.refl (R := Eq) (fun _ => rfl) (comparedKind s field type)).bind ?_
  rintro kind _ rfl
  rw [hnull]
  cases kind.isOrderable with
  | false => exact .error _ _
  | true =>
    cases o'.isNull with
    | true => exact .error _ _
    | false =>
      refine (hvalue kind).bind ?_
      rintro a _ rfl
      exact .ok fun _ _ => rfl

theorem operatorTest_alike {n : Nat} (s : Schema n) {type : FieldType n} {op : Operator}
    {o o' : Operand} (h : o.Alike op o') :
    Agree Test.Same (operatorTest s field type op o) (operatorTest s field type op o') := by
  -- the operators that look for text check the kind of the field first
  have hplaced : ∀ place, op.placement? = some place →
      Agree Test.Same
        (if type.kind? = some .string then placedTest field place o
          else refuse field (.notText op.token (s.typeName type)))
        (if type.kind? = some .string then placedTest field place o'
          else refuse field (.notText op.token (s.typeName type))) := by
    intro place hplace
    split
    · exact h.placed place hplace field
    · exact .error _ _
  cases op with
  | eq =>
    simp only [operatorTest, h.isNull]
    split
    · exact Agree.refl (fun _ _ _ => rfl) _
    · refine (Agree.refl (R := Eq) (fun _ => rfl) (comparedKind s field type)).bind ?_
      rintro kind _ rfl
      exact h.equality rfl field kind
  | gt => exact orderTest_alike field s h.isNull (h.value (Or.inl rfl) field)
  | gte => exact orderTest_alike field s h.isNull (h.value (Or.inr rfl) field)
  | contains => exact hplaced _ rfl
  | startsWith => exact hplaced _ rfl
  | endsWith => exact hplaced _ rfl
  | _ => exact Agree.refl (fun _ _ _ => rfl) _

theorem operandValue_of_as? {field : String} {kind : Kind} {o o' : Operand}
    (h : o.as? kind = o'.as? kind) :
    Agree Eq (operandValue field kind o) (operandValue field kind o') := by
  unfold operandValue Operand.as
  rw [h]
  cases o'.as? kind with
  | none => exact .error _ _
  | some s => exact .ok rfl

theorem Operand.as?_string (t : String) (kind : Kind) :
    (Operand.string t).as? kind = readScalar? t kind := by
  cases kind <;> rfl

/-- A literal in an expression and a text by itself are compared alike, where they are read as the
same value. -/
theorem equalityTest_string {l : Literal} {t : String} {kind : Kind}
    (h : l.as? kind = readScalar? t kind) (field : String) :
    Agree Test.Same (expressionTest field kind none (.literal l))
      (equalityTest field kind (.string t)) := by
  have hvalue : Agree Eq (literalValue field kind l) (operandValue field kind (.string t)) := by
    unfold literalValue operandValue Operand.as
    rw [h, Operand.as?_string]
    cases readScalar? t kind with
    | none => exact .error _ _
    | some s => exact .ok rfl
  exact hvalue.map (by rintro a _ rfl _ _; rfl)

/-- A literal and its text are alike where no text is looked for. -/
theorem Operand.alike_literal {op : Operator} {l : Literal} (h : l.Legible)
    (hop : op.placement? = none) :
    (Operand.expression (.literal l)).Alike op (.string (String.ofList l.plainText)) := by
  have has : ∀ kind, l.as? kind = readScalar? (String.ofList l.plainText) kind :=
    fun kind => (l.readScalar?_plainText h kind).symm
  refine ⟨rfl, fun _ field kind => equalityTest_string (has kind) field,
    fun _ field kind => operandValue_of_as? ?_, fun place hplace => ?_⟩
  · rw [Operand.as?_string]
    exact has kind
  · rw [hop] at hplace
    cases hplace

/-- An expression that is no literal and what it is flattened to are alike. -/
theorem Operand.alike_flattened {op : Operator} {e : Expression} (he : ∀ l, e ≠ .literal l) :
    (Operand.expression e).Alike op (.expression e.flattened) := by
  -- only a literal has a value by itself
  have has : ∀ kind,
      (Operand.expression e).as? kind = (Operand.expression e.flattened).as? kind := by
    intro kind
    cases e with
    | literal l => exact absurd rfl (he l)
    | _ => rfl
  exact ⟨rfl, fun _ field kind => expressionTest_flattened field kind none e,
    fun _ field kind => operandValue_of_as? (has kind),
    fun place _ field => expressionTest_flattened field .string (some place) e⟩

theorem Operator.isText_positive (op : Operator) :
    op.isText = op.positive.1.placement?.isSome := by
  cases op <;> rfl

/-- The pattern that is chosen for a text operator is the one that it looks for. -/
theorem expressionTest_textExpression {op : Operator} {place : Placement}
    (hplace : op.positive.1.placement? = some place) (field : String) (f : Fragment) :
    expressionTest field .string (some place) (op.textExpression f) =
      textTest field place f.text.toList := by
  unfold Operator.textExpression
  unfold Operator.placement? at hplace
  split at hplace <;> cases hplace <;> simp only [*, expressionTest, patternTest, if_true]

/-- A literal behind a text operator and the text it is read as are alike. -/
theorem Operand.alike_textExpression {op : Operator} {l : Literal} {f : Fragment}
    (hop : op.isText = true) (hf : Fragment.of (String.ofList l.plainText) = .ok f) :
    (Operand.expression (.literal l)).Alike op.positive.1 (.expression (op.textExpression f)) := by
  have htext : f.text.toList = l.plainText := by
    rw [Fragment.text_of_of hf, String.toList_ofList]
  rw [Operator.isText_positive] at hop
  refine ⟨rfl, fun heq => ?_, fun hgt => ?_, fun place hplace field => ?_⟩
  · rw [heq] at hop
    cases hop
  · rcases hgt with h | h <;> (rw [h] at hop; cases hop)
  · show Agree _ (textTest field place l.plainText) (expressionTest field .string (some place) _)
    rw [expressionTest_textExpression hplace, htext]
    exact Agree.refl (fun _ _ _ => rfl) _

/-- **What an operand is reread as is alike** to the operand. -/
theorem Operand.alike_reread {op : Operator} {o o' : Operand} (h : o.Legible op)
    (hr : o.reread op = .ok o') : o.Alike op.positive.1 o' := by
  have hsame : o.Alike op.positive.1 o :=
    ⟨rfl, fun _ _ _ => Agree.refl (fun _ _ _ => rfl) _, fun _ _ _ => Agree.refl (fun _ => rfl) _,
      fun _ _ _ => Agree.refl (fun _ _ _ => rfl) _⟩
  rcases h.cases with ⟨rfl, -⟩ | ⟨s, rfl, -⟩ | ⟨e, rfl, he⟩
  · cases hr; exact hsame
  · cases hr; exact hsame
  -- a literal is read as text to look for or as a text, other expressions are flattened
  · rcases e.eq_literal_or with ⟨l, rfl⟩ | hl
    · rw [Operand.reread, Literal.reread] at hr
      split at hr
      · next htext =>
        obtain ⟨f, hf, rfl⟩ := map_eq_ok.1 hr
        exact Operand.alike_textExpression htext hf
      · next htext =>
        cases hr
        rw [Operator.isText_positive, Bool.not_eq_true, Option.isSome_eq_false_iff,
          Option.isNone_iff_eq_none] at htext
        exact Operand.alike_literal he htext
    · rw [Operand.reread_of_ne_literal hl] at hr
      cases hr
      exact Operand.alike_flattened hl

/-! ## Predicates of reread trees -/

/-- Two predicates accept the same records. -/
def Predicate.Same (p q : Predicate) : Prop :=
  ∀ ignoreCase r, p.accepts ignoreCase r = q.accepts ignoreCase r

theorem Predicate.same_field {t t' : Test} (h : t.Same t') (names : List String)
    (lifted negated : Bool) :
    (Predicate.field names t lifted negated).Same (.field names t' lifted negated) := by
  intro ignoreCase r
  have htest : t.holds ignoreCase = t'.holds ignoreCase := funext fun v => h ignoreCase v
  have hleaf : leafTest ignoreCase lifted t = leafTest ignoreCase lifted t' := by
    funext v
    rw [leafTest, leafTest, htest]
  rw [Predicate.accepts, Predicate.accepts, hleaf]

/-- Several predicates accept the same records, one by one. -/
def Predicate.AllSame (ps qs : List Predicate) : Prop :=
  ∀ ignoreCase r, allAccept ignoreCase ps r = allAccept ignoreCase qs r ∧
    anyAccepts ignoreCase ps r = anyAccepts ignoreCase qs r

theorem Predicate.AllSame.cons {p q : Predicate} {ps qs : List Predicate} (h : p.Same q)
    (hs : AllSame ps qs) : AllSame (p :: ps) (q :: qs) := by
  intro ignoreCase r
  simp only [allAccept, anyAccepts, h ignoreCase r, hs ignoreCase r, and_self]

variable {n : Nat} (s : Schema n)

/-- Comparisons of a field with operands that are alike accept the same records. -/
theorem Schema.compileFilter_alike {f : Filter} {o : Operand}
    (h : f.operand.Alike f.operator.positive.1 o) :
    Agree Predicate.Same (s.compileFilter f) (s.compileFilter { f with operand := o }) := by
  unfold Schema.compileFilter
  rw [show Filter.path? { f with operand := o } = f.path? from rfl]
  cases f.path? with
  | none => exact .ok fun _ _ => rfl
  | some path =>
    refine (Agree.refl (R := Eq) (fun _ => rfl) (s.resolve path)).bind ?_
    rintro segments _ rfl
    cases hlast : segments.getLast? with
    | none => exact .error _ _
    | some leaf =>
      refine (operatorTest_alike path s h).mapError.bind fun t t' ht => .ok ?_
      exact Predicate.same_field ht _ _ _

theorem Schema.compileFilter_reread {limit : Nat} {f f' : Filter} (h : f.Legible limit)
    (hr : f.reread = .ok f') :
    Agree Predicate.Same (s.compileFilter f) (s.compileFilter f') := by
  obtain ⟨o, ho, rfl⟩ := map_eq_ok.1 hr
  exact s.compileFilter_alike (Operand.alike_reread h.operand ho)

mutual

theorem Schema.compile_reread {limit : Nat} {form : GroupForm} : ∀ {node node' : Node},
    node.Legible limit → node.reread form = .ok node' →
      Agree Predicate.Same (s.compile node) (s.compile node')
  | .leaf f, node', h, hr => by
    rw [Node.reread] at hr
    obtain ⟨f', hf, rfl⟩ := map_eq_ok.1 hr
    rw [Schema.compile, Schema.compile]
    exact s.compileFilter_reread h hf
  | .group _ .and members, node', h, hr => by
    rw [Node.reread] at hr
    obtain ⟨members', hmembers, rfl⟩ := map_eq_ok.1 hr
    rw [Schema.compile, Schema.compile]
    refine (compileAll_reread h.2 hmembers).map fun ps qs hs ignoreCase r => ?_
    rw [Predicate.accepts, Predicate.accepts, (hs ignoreCase r).1]
  | .group _ .or members, node', h, hr => by
    rw [Node.reread] at hr
    obtain ⟨members', hmembers, rfl⟩ := map_eq_ok.1 hr
    rw [Schema.compile, Schema.compile]
    refine (compileAll_reread h.2 hmembers).map fun ps qs hs ignoreCase r => ?_
    rw [Predicate.accepts, Predicate.accepts, (hs ignoreCase r).2]

theorem Schema.compileAll_reread {limit : Nat} {form : GroupForm} : ∀ {nodes nodes' : List Node},
    Node.AllLegible limit nodes → Node.rereadAll form nodes = .ok nodes' →
      Agree Predicate.AllSame (s.compileAll nodes) (s.compileAll nodes')
  | [], nodes', _, hr => by
    cases hr
    exact .ok fun _ _ => ⟨rfl, rfl⟩
  | node :: rest, nodes', h, hr => by
    rw [Node.rereadAll] at hr
    obtain ⟨node', hnode, hr⟩ := bind_eq_ok.1 hr
    obtain ⟨rest', hrest, hr⟩ := bind_eq_ok.1 hr
    cases hr
    rw [Schema.compileAll, Schema.compileAll]
    refine (compile_reread h.1 hnode).bind fun p q hp => ?_
    exact (compileAll_reread h.2 hrest).bind fun ps qs hs => .ok (Predicate.AllSame.cons hp hs)

end

/-- **Two trees mean the same**: for every type either both compile or neither does, and then both
predicates accept the same records, whatever the case rule. -/
def Node.MeansSame (a b : Node) : Prop :=
  ∀ (n : Nat) (s : Schema n),
    ((∃ p, s.compile a = .ok p) ↔ ∃ q, s.compile b = .ok q) ∧
      ∀ p q, s.compile a = .ok p → s.compile b = .ok q →
        ∀ ignoreCase r, p.accepts ignoreCase r = q.accepts ignoreCase r

theorem Node.MeansSame.refl (node : Node) : node.MeansSame node := by
  intro n s
  refine ⟨Iff.rfl, fun p q hp hq ignoreCase r => ?_⟩
  rw [hp] at hq
  cases hq
  rfl

theorem Node.meansSame_of_agree {a b : Node}
    (h : ∀ (n : Nat) (s : Schema n), Agree Predicate.Same (s.compile a) (s.compile b)) :
    a.MeansSame b := by
  intro n s
  have hagree := h n s
  refine ⟨hagree.ok_iff, fun p q hp hq => ?_⟩
  rw [hp, hq] at hagree
  exact hagree.of_ok

/-- **A tree means what it is reread as.** -/
theorem Node.meansSame_reread {limit : Nat} {form : GroupForm} {node node' : Node}
    (h : node.Legible limit) (hr : node.reread form = .ok node') : node.MeansSame node' :=
  meansSame_of_agree fun _ s => s.compile_reread h hr

end Sift
