import Sift.Query.Compile

/-!
# Negated filters accept the complement

* `Node.filters`: the comparisons of a tree.
* `Predicate.complement`: the predicate that accepts exactly the rest.
* `compile_negate`: compiling commutes with negation, errors included.
* `negate_accepts_complement`: a negated tree compiles exactly when the tree does, and then of any
  record exactly one of the two predicates accepts it.
-/

namespace Sift

mutual

/-- The comparisons of a tree. -/
def Node.filters : Node → List Filter
  | .leaf f => [f]
  | .group _ _ members => Node.filtersOf members

/-- The comparisons of several trees. -/
def Node.filtersOf : List Node → List Filter
  | [] => []
  | node :: rest => node.filters ++ Node.filtersOf rest

end

namespace Predicate

mutual

/-- **The complement**: the other logic over the complements, and the other answer of a test. -/
def complement : Predicate → Predicate
  | always => any []
  | field names test lifted negated => field names test lifted !negated
  | all members => any (complementAll members)
  | any members => all (complementAll members)

/-- The complements of several predicates. -/
def complementAll : List Predicate → List Predicate
  | [] => []
  | p :: rest => p.complement :: complementAll rest

end

mutual

theorem accepts_complement (ignoreCase : Bool) (r : Record) :
    ∀ p : Predicate, p.complement.accepts ignoreCase r = !p.accepts ignoreCase r
  | always => rfl
  | field names test lifted negated => by
    simp only [complement, accepts]
    -- the negation stays outside of the search for a value
    cases Record.anyValue (leafTest ignoreCase lifted test) names r <;> cases negated <;> rfl
  | all members => by
    rw [complement, accepts, accepts, anyAccepts_complementAll ignoreCase r members]
  | any members => by
    rw [complement, accepts, accepts, allAccept_complementAll ignoreCase r members]

theorem anyAccepts_complementAll (ignoreCase : Bool) (r : Record) :
    ∀ ps : List Predicate, anyAccepts ignoreCase (complementAll ps) r = !allAccept ignoreCase ps r
  | [] => rfl
  | p :: rest => by
    rw [complementAll, anyAccepts, allAccept, accepts_complement ignoreCase r p,
      anyAccepts_complementAll ignoreCase r rest, Bool.not_and]

theorem allAccept_complementAll (ignoreCase : Bool) (r : Record) :
    ∀ ps : List Predicate, allAccept ignoreCase (complementAll ps) r = !anyAccepts ignoreCase ps r
  | [] => rfl
  | p :: rest => by
    rw [complementAll, allAccept, anyAccepts, accepts_complement ignoreCase r p,
      allAccept_complementAll ignoreCase r rest, Bool.not_or]

end

end Predicate

namespace Schema

variable {n : Nat} (s : Schema n)

/-- A comparison with a field and its negation are decided by one test. -/
theorem compileFilter_negate {f : Filter} (hf : f.path?.isSome) :
    s.compileFilter f.negate = (s.compileFilter f).map Predicate.complement := by
  obtain ⟨path, hpath⟩ := Option.isSome_iff_exists.1 hf
  have hnegate : f.negate.path? = some path := hpath
  unfold compileFilter
  rw [hnegate, hpath]
  -- the same positive operator, and the other answer
  have hop : f.negate.operator.positive = (f.operator.positive.1, !f.operator.positive.2) :=
    Operator.positive_invert f.operator
  have hoperand : f.negate.operand = f.operand := rfl
  simp only [hop, hoperand]
  cases s.resolve path with
  | error e => rfl
  | ok segments =>
    cases hlast : segments.getLast? with
    | none => simp only [Except.bind, bind, hlast]; rfl
    | some leaf =>
      simp only [Except.bind, bind, hlast]
      cases (operatorTest s path leaf.type f.operator.positive.1 f.operand).mapError
        (·.withType s.rootShape.name) <;> rfl

mutual

/-- **Compiling commutes with negation**, where every comparison has a field. -/
theorem compile_negate : ∀ node : Node, (∀ f ∈ node.filters, f.path?.isSome) →
    s.compile node.negate = (s.compile node).map Predicate.complement
  | .leaf f, h => by
    rw [Node.negate, compile, compile]
    exact s.compileFilter_negate (h f (by simp [Node.filters]))
  | .group form .and members, h => by
    simp only [Node.negate, Logic.flip, compile]
    rw [compileAll_negateAll members h]
    cases s.compileAll members <;> rfl
  | .group form .or members, h => by
    simp only [Node.negate, Logic.flip, compile]
    rw [compileAll_negateAll members h]
    cases s.compileAll members <;> rfl

theorem compileAll_negateAll : ∀ nodes : List Node,
    (∀ f ∈ Node.filtersOf nodes, f.path?.isSome) →
    s.compileAll (Node.negateAll nodes) = (s.compileAll nodes).map Predicate.complementAll
  | [], _ => rfl
  | node :: rest, h => by
    simp only [Node.filtersOf, List.mem_append] at h
    rw [Node.negateAll, compileAll, compileAll,
      compile_negate node fun f hf => h f (Or.inl hf),
      compileAll_negateAll rest fun f hf => h f (Or.inr hf)]
    cases s.compile node with
    | error e => rfl
    | ok p => cases s.compileAll rest <;> rfl

end

/-- **Negation is the exact complement.** Where every comparison of a tree has a field, the negated
tree compiles exactly when the tree does. Of any record, whatever it holds, exactly one of the two
predicates accepts it. -/
theorem negate_accepts_complement (node : Node) (h : ∀ f ∈ node.filters, f.path?.isSome) :
    ((∃ q, s.compile node.negate = .ok q) ↔ ∃ p, s.compile node = .ok p) ∧
      ∀ p q, s.compile node = .ok p → s.compile node.negate = .ok q →
        ∀ ignoreCase r, q.accepts ignoreCase r = !p.accepts ignoreCase r := by
  have hcompile := s.compile_negate node h
  refine ⟨?_, ?_⟩
  · rw [hcompile]
    cases s.compile node with
    | error e => simp [Except.map]
    | ok p => simp [Except.map]
  · intro p q hp hq ignoreCase r
    rw [hcompile, hp] at hq
    cases hq
    exact p.accepts_complement ignoreCase r

/-- A comparison below a list of objects, next to an empty group, on a type that refers to
itself. -/
theorem negate_accepts_complement_list :
    ∃ (s : Schema 1) (node : Node) (p q : Predicate),
      s.compile node = .ok p ∧ s.compile node.negate = .ok q ∧
        ∀ ignoreCase r, q.accepts ignoreCase r = !p.accepts ignoreCase r := by
  let s : Schema 1 :=
    ⟨fun _ => ⟨"Hero", [("Name", .scalar .string), ("Friends", .list (.object 0))]⟩, 0⟩
  let node : Node := .group .multi .or
    [.leaf (.on "Friends.Name" .notStartsWith (.string "B")), .group .composite .and []]
  have hfields : ∀ f ∈ node.filters, f.path?.isSome := by decide +kernel
  have hcompiles : (s.compile node).isOk = true := by decide +kernel
  obtain ⟨hiff, haccepts⟩ := negate_accepts_complement s node hfields
  cases hp : s.compile node with
  | error e => rw [hp] at hcompiles; cases hcompiles
  | ok p =>
    obtain ⟨q, hq⟩ := hiff.2 ⟨p, hp⟩
    exact ⟨s, node, p, q, hp, hq, haccepts p q hp hq⟩

end Schema

end Sift
