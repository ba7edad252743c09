import Sift.Proofs.Nesting

/-!
# What terms mean can be written

* `bind_eq_ok`, `map_eq_ok`: what succeeds comes from parts that succeed.
* `Term.nesting`, `Value.nesting`: how deep the brackets of a text nest.
* `Term.facts_of_expression`: what a term means can be written, with no deeper brackets than the
  term has.
* `Value.facts_of_operand`: the same for operands.
-/

namespace Sift

section Results

variable {ε α β : Type} {x : Except ε α}

/-- What follows a result can only succeed where the result is there. -/
theorem bind_eq_ok {f : α → Except ε β} {b : β} :
    x >>= f = .ok b ↔ ∃ a, x = .ok a ∧ f a = .ok b := by
  cases x with
  | error e => simp [bind, Except.bind]
  | ok a => simp [bind, Except.bind]

theorem map_eq_ok {f : α → β} {b : β} : f <$> x = .ok b ↔ ∃ a, x = .ok a ∧ f a = b := by
  cases x with
  | error e => simp [Functor.map, Except.map]
  | ok a => simp [Functor.map, Except.map]

theorem bind_eq_error {f : α → Except ε β} {e : ε} :
    x >>= f = .error e ↔ x = .error e ∨ ∃ a, x = .ok a ∧ f a = .error e := by
  cases x with
  | error e => simp [bind, Except.bind]
  | ok a => simp [bind, Except.bind]

theorem map_eq_error {f : α → β} {e : ε} : f <$> x = .error e ↔ x = .error e := by
  cases x with
  | error e => simp [Functor.map, Except.map]
  | ok a => simp [Functor.map, Except.map]

theorem toOption_eq_some {a : α} : x.toOption = some a ↔ x = .ok a := by
  cases x with
  | error e => simp [Except.toOption]
  | ok b => simp [Except.toOption]

end Results

/-! ## Meanings of terms -/

namespace Expression

theorem legible_negate {e : Expression} (h : e.Legible) : e.negate.Legible := by
  cases e with
  | not inner => exact h.2
  | _ => exact ⟨rfl, h⟩

theorem termNesting_negate (e : Expression) : e.negate.termNesting = e.termNesting := by
  cases e <;> rfl

theorem legible_alternative {e : Expression} {es : List Expression} (h : ∀ a ∈ e :: es, a.Legible) :
    (alternative e es).Legible := by
  unfold alternative
  induction es generalizing e with
  | nil => exact h e List.mem_cons_self
  | cons a es ih =>
    simp only [List.forall_mem_cons] at h
    refine ih ?_
    rw [List.forall_mem_cons]
    exact ⟨⟨h.1, h.2.1⟩, h.2.2⟩

theorem guardNesting_le (e : Expression) (n : Nat) : guardNesting e n ≤ n + 1 := by
  cases e <;> simp only [guardNesting] <;> omega

theorem nesting_le_termNesting (e : Expression) : e.nesting ≤ e.termNesting := by
  unfold termNesting
  cases e <;> simp only [guardNesting] <;> omega

theorem nesting_alternative_le {n : Nat} {e : Expression} {es : List Expression}
    (he : e.nesting ≤ n) (hes : ∀ a ∈ es, a.termNesting ≤ n) :
    (alternative e es).nesting ≤ n := by
  unfold alternative
  induction es generalizing e with
  | nil => exact he
  | cons a es ih =>
    rw [List.forall_mem_cons] at hes
    exact ih (Nat.max_le.2 ⟨he, hes.1⟩) hes.2

theorem listNesting_le {n : Nat} {es : List Expression} (h : ∀ e ∈ es, e.termNesting ≤ n) :
    listNesting es ≤ n := by
  induction es with
  | nil => exact Nat.zero_le n
  | cons e es ih =>
    rw [List.forall_mem_cons] at h
    exact Nat.max_le.2 ⟨Nat.le_trans (nesting_le_termNesting e) h.1, ih h.2⟩

end Expression

mutual

/-- How deep the brackets of a term nest. -/
def Term.nesting : Term → Nat
  | .negated t => t.nesting
  | .group first rest | .oneOf first rest => max first.nesting (Term.listNesting rest) + 1
  | .range _ _ _ => 1
  | .pattern _ _ => 0

/-- How deep the brackets of several terms nest. -/
def Term.listNesting : List Term → Nat
  | [] => 0
  | t :: rest => max t.nesting (Term.listNesting rest)

end

/-- How deep the brackets of a value nest. -/
def Value.nesting (v : Value) : Nat := max v.first.nesting (Term.listNesting v.rest)

theorem Fragment.text_of_of {t : String} {f : Fragment} (h : Fragment.of t = .ok f) :
    f.text = t := by
  unfold Fragment.of at h
  split at h
  · cases h
  · cases h
    rfl

theorem Word.legible_literal (w : Word) : w.literal.Legible := by
  cases w with
  | bare cs => exact Literal.legible_ofText cs
  | quoted inner => trivial

theorem Pattern.facts_of_expression {source : String} {span : Span} {p : Pattern} {e : Expression}
    (h : p.expression source span = .ok e) : e.Legible ∧ e.termNesting = 0 := by
  unfold Pattern.expression at h
  split at h
  · cases h; exact ⟨trivial, rfl⟩
  · cases h
  · next w => cases hf : w.fragment <;> rw [hf] at h <;> cases h; exact ⟨trivial, rfl⟩
  · next w => cases hf : w.fragment <;> rw [hf] at h <;> cases h; exact ⟨trivial, rfl⟩
  · next w => cases hf : w.fragment <;> rw [hf] at h <;> cases h; exact ⟨trivial, rfl⟩
  · next w => cases h; exact ⟨w.legible_literal, rfl⟩

theorem Interval.legible_ofEnds? {min max : Option Word} {i : Interval}
    (h : Interval.ofEnds? (min.map Word.literal) (max.map Word.literal) = some i) :
    (Expression.range i).Legible := by
  have hends : ∀ (b : Option Word), ∀ l ∈ b.map Word.literal, l.Legible := by
    intro b l hl
    obtain ⟨w, -, rfl⟩ := Option.map_eq_some_iff.1 hl
    exact w.legible_literal
  have hmin : i.min? = min.map Word.literal ∧ i.max? = max.map Word.literal := by
    cases min <;> cases max <;> cases h <;> exact ⟨rfl, rfl⟩
  exact ⟨hmin.1 ▸ hends min, hmin.2 ▸ hends max⟩

mutual

/-- **What a term means can be written**, with no deeper brackets than the term has. -/
theorem Term.facts_of_expression {source : String} : ∀ {t : Term} {e : Expression},
    t.expression source = .ok e → e.Legible ∧ e.termNesting ≤ t.nesting
  | .negated t, e, h => by
    rw [Term.expression] at h
    obtain ⟨a, ha, rfl⟩ := map_eq_ok.1 h
    have ⟨hlegible, hnesting⟩ := facts_of_expression ha
    exact ⟨Expression.legible_negate hlegible, (Expression.termNesting_negate a).symm ▸ hnesting⟩
  | .group first rest, e, h => by
    rw [Term.expression] at h
    obtain ⟨a, ha, h⟩ := bind_eq_ok.1 h
    obtain ⟨as, has, h⟩ := bind_eq_ok.1 h
    cases h
    have ⟨hfirst, hnesting⟩ := facts_of_expression ha
    have hrest := facts_of_expressions has
    -- the parentheses of the term are those around the disjunction
    have hinner : (alternative a as).nesting ≤ max first.nesting (Term.listNesting rest) := by
      refine Expression.nesting_alternative_le ?_ fun b hb => ?_
      · have := Expression.nesting_le_termNesting a
        omega
      · have := (hrest b hb).2
        omega
    have hguard := Expression.guardNesting_le (alternative a as) (alternative a as).nesting
    refine ⟨Expression.legible_alternative (List.forall_mem_cons.2
      ⟨hfirst, fun b hb => (hrest b hb).1⟩), ?_⟩
    rw [Expression.termNesting, Term.nesting]
    omega
  | .oneOf first rest, e, h => by
    rw [Term.expression] at h
    obtain ⟨a, ha, h⟩ := bind_eq_ok.1 h
    obtain ⟨as, has, h⟩ := bind_eq_ok.1 h
    cases h
    have ⟨hfirst, hnesting⟩ := facts_of_expression ha
    have hrest := facts_of_expressions has
    have hinner : Expression.listNesting (a :: as) ≤
        max first.nesting (Term.listNesting rest) := by
      refine Expression.listNesting_le (List.forall_mem_cons.2 ⟨by omega, fun b hb => ?_⟩)
      have := (hrest b hb).2
      omega
    exact ⟨⟨by simp, Expression.allLegible_iff.2 (List.forall_mem_cons.2
      ⟨hfirst, fun b hb => (hrest b hb).1⟩)⟩, Nat.succ_le_succ hinner⟩
  | .range span min max, e, h => by
    rw [Term.expression, rangeExpression] at h
    split at h
    · next i hi => cases h; exact ⟨Interval.legible_ofEnds? hi, Nat.le_refl 1⟩
    · cases h
  | .pattern span p, e, h => by
    obtain ⟨hlegible, hnesting⟩ := Pattern.facts_of_expression h
    exact ⟨hlegible, Nat.le_of_eq hnesting⟩

theorem Term.facts_of_expressions {source : String} : ∀ {ts : List Term} {es : List Expression},
    Term.expressions source ts = .ok es →
      ∀ e ∈ es, e.Legible ∧ e.termNesting ≤ Term.listNesting ts
  | [], es, h => by
    cases h
    simp
  | t :: rest, es, h => by
    rw [Term.expressions] at h
    obtain ⟨a, ha, h⟩ := bind_eq_ok.1 h
    obtain ⟨as, has, h⟩ := bind_eq_ok.1 h
    cases h
    have ⟨hfirst, hnesting⟩ := facts_of_expression ha
    have hrest := facts_of_expressions has
    rw [List.forall_mem_cons, Term.listNesting]
    refine ⟨⟨hfirst, by omega⟩, fun b hb => ⟨(hrest b hb).1, ?_⟩⟩
    have := (hrest b hb).2
    omega

end

/-- The operands that are read behind an operator and can be written again. -/
def Operand.Legible (op : Operator) : Operand → Prop
  | .null | .scalar (.string _) => op.isText = false
  | .expression e => e.Legible
  | _ => False

theorem Operand.Legible.cases {op : Operator} {o : Operand} (h : o.Legible op) :
    (o = .null ∧ op.isText = false) ∨ (∃ s, o = .string s ∧ op.isText = false) ∨
      ∃ e, o = .expression e ∧ e.Legible := by
  unfold Legible at h
  split at h
  · exact Or.inl ⟨rfl, h⟩
  · next s => exact Or.inr (Or.inl ⟨s, rfl, h⟩)
  · next e => exact Or.inr (Or.inr ⟨e, rfl, h⟩)
  · cases h

/-- How deep the brackets of a written operand nest. -/
def Operand.nesting : Operand → Nat
  | .expression e => e.nesting
  | _ => 0

theorem Word.legible_operand {op : Operator} (w : Word) (h : op.isText = false) :
    w.operand.Legible op ∧ w.operand.nesting = 0 := by
  unfold Word.operand
  split
  · split
    · exact ⟨h, rfl⟩
    · exact ⟨h, rfl⟩
  · exact ⟨h, rfl⟩

theorem Operator.facts_of_textExpression (op : Operator) (f : Fragment) :
    (op.textExpression f).Legible ∧ (op.textExpression f).nesting = 0 := by
  unfold Operator.textExpression
  split <;> exact ⟨trivial, rfl⟩

theorem Value.facts_of_operand {source : String} {op : Operator} {v : Value} {o : Operand}
    (h : v.operand source op = .ok o) : o.Legible op ∧ o.nesting ≤ v.nesting := by
  unfold Value.operand at h
  split at h
  · next w _ =>
    split at h
    · obtain ⟨f, -, rfl⟩ := map_eq_ok.1 h
      have ⟨hlegible, hnesting⟩ := op.facts_of_textExpression f
      exact ⟨hlegible, Nat.le_trans (Nat.le_of_eq hnesting) (Nat.zero_le _)⟩
    · next htext =>
      cases h
      have ⟨hlegible, hnesting⟩ := w.legible_operand (eq_false_of_ne_true htext)
      exact ⟨hlegible, Nat.le_trans (Nat.le_of_eq hnesting) (Nat.zero_le _)⟩
  · obtain ⟨a, ha, h⟩ := bind_eq_ok.1 h
    obtain ⟨as, has, h⟩ := bind_eq_ok.1 h
    cases h
    have ⟨hfirst, hnesting⟩ := Term.facts_of_expression ha
    have hrest := Term.facts_of_expressions has
    refine ⟨Expression.legible_alternative (List.forall_mem_cons.2
      ⟨hfirst, fun b hb => (hrest b hb).1⟩), Expression.nesting_alternative_le ?_ fun b hb => ?_⟩
    · have := Expression.nesting_le_termNesting a
      rw [Value.nesting]
      omega
    · have := (hrest b hb).2
      rw [Value.nesting]
      omega

end Sift
