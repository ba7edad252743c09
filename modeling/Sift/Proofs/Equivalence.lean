import Sift.Filter.Equivalence
import Sift.Proofs.Meaning

/-!
# Equivalent expressions stand for the same test

* `Expression.SameTest`: two expressions that stand for tests of the same answers, or for none.
* `expressionTests_isOk_iff`, `anyHolds_expressionTests`: several expressions stand for the tests of
  each, and one of these passes where the test of some expression does.
* `sameTest_oneOf`, `sameTest_single`: sets with the same choices, and sets of one choice.
* `sameTest_of_equivalent`: equivalent expressions stand for the same test, by the recursion of
  `Expression.equivalent`.
* `Expression.holds_eq_of_equivalent`: so they match the same values.
-/

namespace Sift

/-! ## The tests of several expressions -/

section Choices

variable {field : String} {kind : Kind} {place : Option Placement}

/-- Several expressions stand for tests where each of them does. -/
theorem expressionTests_isOk_iff (es : List Expression) :
    (∃ ts, expressionTests field kind place es = .ok ts) ↔
      ∀ e ∈ es, ∃ t, expressionTest field kind place e = .ok t := by
  induction es with
  | nil => simp [expressionTests, pure, Except.pure]
  | cons e es ih =>
    rw [List.forall_mem_cons, ← ih, expressionTests]
    constructor
    · rintro ⟨ts, h⟩
      obtain ⟨t, ht, h⟩ := bind_eq_ok.1 h
      obtain ⟨rest, hrest, -⟩ := bind_eq_ok.1 h
      exact ⟨⟨t, ht⟩, rest, hrest⟩
    · rintro ⟨⟨t, ht⟩, rest, hrest⟩
      refine ⟨t :: rest, ?_⟩
      rw [ht, hrest]
      rfl

/-- One of several tests passes a value where the test of some expression does. -/
theorem anyHolds_expressionTests {es : List Expression} {ts : List Test} {ignoreCase : Bool}
    {v : FieldValue} (h : expressionTests field kind place es = .ok ts) :
    Test.anyHolds ignoreCase ts v = true ↔
      ∃ e ∈ es, ∃ t, expressionTest field kind place e = .ok t ∧ t.holds ignoreCase v = true := by
  induction es generalizing ts with
  | nil =>
    cases h
    simp [Test.anyHolds]
  | cons e es ih =>
    rw [expressionTests] at h
    obtain ⟨t, ht, h⟩ := bind_eq_ok.1 h
    obtain ⟨rest, hrest, h⟩ := bind_eq_ok.1 h
    cases h
    have hhead : (∃ t', expressionTest field kind place e = .ok t' ∧
        t'.holds ignoreCase v = true) ↔ t.holds ignoreCase v = true := by
      simp [ht]
    rw [Test.anyHolds, Bool.or_eq_true, ih hrest, ← hhead]
    simp only [List.mem_cons, or_and_right, exists_or, exists_eq_left]

end Choices

/-! ## Expressions of the same test -/

/-- **Two expressions stand for the same test**: in front of any field and behind any operator both
are refused, or both give tests that pass the same values. -/
def Expression.SameTest (a b : Expression) : Prop :=
  ∀ field kind place, Agree Test.Same (expressionTest field kind place a)
    (expressionTest field kind place b)

theorem Agree.symm {ε α β : Type} {R : α → β → Prop} {S : β → α → Prop} {x : Except ε α}
    {y : Except ε β} (h : Agree R x y) (hS : ∀ a b, R a b → S b a) : Agree S y x := by
  cases h with
  | error e e' => exact .error e' e
  | ok h => exact .ok (hS _ _ h)

/-- Two results agree where both are there or both are not, and those that are there are
related. -/
theorem Agree.of_ok_iff {ε α β : Type} {R : α → β → Prop} {x : Except ε α} {y : Except ε β}
    (h : (∃ a, x = .ok a) ↔ ∃ b, y = .ok b)
    (hR : ∀ a b, x = .ok a → y = .ok b → R a b) : Agree R x y := by
  cases x with
  | ok a =>
    obtain ⟨b, rfl⟩ := h.1 ⟨a, rfl⟩
    exact .ok (hR a b rfl rfl)
  | error e =>
    cases y with
    | ok b =>
      obtain ⟨a, ha⟩ := h.2 ⟨b, rfl⟩
      cases ha
    | error e' => exact .error e e'

namespace Expression

variable {a b c d : Expression} {as bs : List Expression}

theorem SameTest.refl (a : Expression) : SameTest a a :=
  fun _ _ _ => Agree.refl (fun _ _ _ => rfl) _

theorem SameTest.symm (h : SameTest a b) : SameTest b a :=
  fun field kind place => (h field kind place).symm fun _ _ hab ignoreCase v =>
    (hab ignoreCase v).symm

theorem SameTest.trans (hab : SameTest a b) (hbc : SameTest b c) : SameTest a c :=
  fun field kind place => (hab field kind place).trans (hbc field kind place)
    fun _ _ _ h h' ignoreCase v => (h ignoreCase v).trans (h' ignoreCase v)

theorem SameTest.or (hac : SameTest a c) (hbd : SameTest b d) :
    SameTest (or a b) (or c d) := by
  intro field kind place
  rw [expressionTest, expressionTest]
  refine (hac field kind place).bind fun l l' hl => ?_
  refine (hbd field kind place).bind fun r r' hr => .ok ?_
  intro ignoreCase v
  rw [Test.holds, Test.holds, hl, hr]

/-- The operands of a disjunction may be exchanged. -/
theorem sameTest_or_comm (a b : Expression) : SameTest (.or a b) (.or b a) := by
  intro field kind place
  rw [expressionTest, expressionTest]
  cases expressionTest field kind place a with
  | error e => cases expressionTest field kind place b <;> exact .error _ _
  | ok l =>
    cases expressionTest field kind place b with
    | error e => exact .error _ _
    | ok r =>
      refine .ok fun ignoreCase v => ?_
      rw [Test.holds, Test.holds, Bool.or_comm]

/-- A disjunction of an expression with itself is the expression. -/
theorem sameTest_or_self (a : Expression) : SameTest (.or a a) a := by
  intro field kind place
  rw [expressionTest]
  cases expressionTest field kind place a with
  | error e => exact .error _ _
  | ok t =>
    refine .ok fun ignoreCase v => ?_
    rw [Test.holds, Bool.or_self]

/-- **Sets with the same choices** stand for the same test, whatever the order and the number of
the choices. -/
theorem sameTest_oneOf (h : ∀ e, e ∈ as ↔ e ∈ bs) : SameTest (.oneOf as) (.oneOf bs) := by
  intro field kind place
  rw [expressionTest, expressionTest]
  refine Agree.map (R := fun ts ts' => ∀ ignoreCase v,
    Test.anyHolds ignoreCase ts v = Test.anyHolds ignoreCase ts' v) ?_ ?_
  · apply Agree.of_ok_iff
    · rw [expressionTests_isOk_iff, expressionTests_isOk_iff]
      simp only [h]
    · intro ts ts' hts hts' ignoreCase v
      rw [Bool.eq_iff_iff, anyHolds_expressionTests hts, anyHolds_expressionTests hts']
      simp only [h]
  · intro ts ts' hts ignoreCase v
    rw [Test.holds, Test.holds, hts]

/-- A set of one choice, however often it is repeated, is the choice. -/
theorem sameTest_single (hne : as ≠ []) (h : ∀ e ∈ as, e = a) : SameTest (.oneOf as) a := by
  have hmem : ∀ e, e ∈ as ↔ e ∈ [a] := by
    intro e
    rw [List.mem_singleton]
    refine ⟨h e, ?_⟩
    rintro rfl
    obtain ⟨c, cs, rfl⟩ := List.exists_cons_of_ne_nil hne
    rw [← h c List.mem_cons_self]
    exact List.mem_cons_self
  refine (sameTest_oneOf hmem).trans fun field kind place => ?_
  simp only [expressionTest, expressionTests]
  cases expressionTest field kind place a with
  | error e => exact .error e e
  | ok t =>
    refine .ok fun ignoreCase v => ?_
    rw [Test.holds, Test.anyHolds, Test.anyHolds, Bool.or_false]

/-! ## Equivalence -/

theorem sameTest_of_choicesMatch (h : choicesMatch as a = true) : SameTest (.oneOf as) a := by
  by_cases hset : ∃ bs, a = .oneOf bs
  · obtain ⟨bs, rfl⟩ := hset
    simp only [choicesMatch, Bool.and_eq_true, List.all_eq_true, List.contains_iff_mem] at h
    exact sameTest_oneOf fun e => ⟨h.1 e, h.2 e⟩
  · have hchoices : (!as.isEmpty && as.all (· == a)) = true := by
      cases a with
      | oneOf bs => exact absurd ⟨bs, rfl⟩ hset
      | _ => exact h
    simp only [Bool.and_eq_true, Bool.not_eq_true', List.isEmpty_eq_false_iff, List.all_eq_true,
      beq_iff_eq] at hchoices
    exact sameTest_single hchoices.1 hchoices.2

/-- An expression stands for the test of what it comes down to. -/
theorem sameTest_of_collapsesTo {target e : Expression} (h : collapsesTo target e = true) :
    SameTest e target := by
  fun_induction collapsesTo target e with
  | case1 left right ih =>
    simp only [Bool.and_eq_true, beq_iff_eq] at h
    obtain ⟨rfl, hleft⟩ := h
    exact (sameTest_or_self left).trans (ih hleft)
  | case2 choices => exact sameTest_of_choicesMatch h
  | case3 e _ _ choices htarget => exact htarget ▸ (sameTest_of_choicesMatch h).symm
  | case4 e => exact eq_of_beq h ▸ SameTest.refl e

/-- **Equivalent expressions stand for the same test.** -/
theorem sameTest_of_equivalent (h : equivalent a b = true) : SameTest a b := by
  fun_induction equivalent a b with
  | case1 a b c d ihac ihbd ihad ihbc =>
    simp only [Bool.or_eq_true, Bool.and_eq_true] at h
    rcases h with ⟨hac, hbd⟩ | ⟨had, hbc⟩
    · exact (ihac hac).or (ihbd hbd)
    · exact ((ihad had).or (ihbc hbc)).trans (sameTest_or_comm d c)
  | case2 a b e => exact sameTest_of_collapsesTo h
  | case3 choices e => exact sameTest_of_choicesMatch h
  | case4 e a b => exact (sameTest_of_collapsesTo h).symm
  | case5 a b => exact sameTest_of_collapsesTo h

/-- **Equivalent expressions match the same values.** In front of every field, for every kind of
value and wherever a text operator looks, one of them stands for a test exactly if the other does.
Then every value, whatever it is, passes both tests or neither, whether or not the case of letters
counts. -/
theorem holds_eq_of_equivalent (h : equivalent a b = true) (field : String) (kind : Kind)
    (place : Option Placement) :
    ((∃ t, expressionTest field kind place a = .ok t) ↔
        ∃ t, expressionTest field kind place b = .ok t) ∧
      ∀ t t', expressionTest field kind place a = .ok t →
        expressionTest field kind place b = .ok t' →
          ∀ ignoreCase v, t.holds ignoreCase v = t'.holds ignoreCase v := by
  have hagree := sameTest_of_equivalent h field kind place
  refine ⟨hagree.ok_iff, fun t t' ht ht' => ?_⟩
  rw [ht, ht'] at hagree
  exact hagree.of_ok

/-- Operands exchanged, and choices reordered and repeated. -/
theorem holds_eq_of_equivalent_sets :
    ∃ (a b : Expression) (t t' : Test), a ≠ b ∧ equivalent a b = true ∧
      expressionTest "Name" .string (some .atStart) a = .ok t ∧
      expressionTest "Name" .string (some .atStart) b = .ok t' ∧
      ∀ ignoreCase v, t.holds ignoreCase v = t'.holds ignoreCase v := by
  let a : Expression := .or (.oneOf [constant "x", .not (constant "y"), constant "x"]) .anything
  let b : Expression := .or .anything (.oneOf [.not (constant "y"), constant "x"])
  have hequivalent : equivalent a b = true := by decide +kernel
  have hcompiles : (expressionTest "Name" .string (some .atStart) a).isOk = true := by
    decide +kernel
  obtain ⟨hiff, hholds⟩ := holds_eq_of_equivalent hequivalent "Name" .string (some .atStart)
  cases ht : expressionTest "Name" .string (some .atStart) a with
  | error e => rw [ht] at hcompiles; cases hcompiles
  | ok t =>
    obtain ⟨t', ht'⟩ := hiff.1 ⟨t, ht⟩
    exact ⟨a, b, t, t', by decide +kernel, hequivalent, ht, ht', hholds t t' ht ht'⟩

end Expression

end Sift
