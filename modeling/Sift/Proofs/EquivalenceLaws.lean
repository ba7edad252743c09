import Sift.Proofs.Equivalence
import Sift.Proofs.NormalForm

/-!
# Where equivalence is an equivalence relation

The set of one disjunction is equivalent to the disjunction, but the disjunction is not equivalent
to the set. The disjunction of an expression with itself is equivalent to the set of the
expression, but the set is not equivalent to the disjunction. On the expressions without such sets
and disjunctions, equivalence is an equivalence relation.

* `Expression.Reduced`: an expression without them.
* `equivalent_leaf_iff`: expressions that are no disjunctions are equivalent if they stand for the
  same choices.
* `Reduced.not_equivalent_leaf`, `Reduced.not_leaf_equivalent`: a reduced disjunction is equivalent
  to disjunctions alone.
* `equivalent_refl`, `Reduced.equivalent_symm`, `Reduced.equivalent_trans`: the three laws, the
  first of them for all expressions.
* `equivalent_laws`: **equivalence of reduced expressions is an equivalence relation**;
  `exists_not_symmetric_not_transitive`: that of all expressions is none.
-/

namespace Sift.Expression

/-- The choices that an expression stands for, if it is no disjunction. -/
def choices : Expression → List Expression
  | oneOf choices => choices
  | e => [e]

/-- **An expression without degenerate disjunctions**: none, at the top or among the operands of
another, has the same operand twice, unless this is a disjunction again; and no set at these places
has one disjunction for its only choice. -/
def Reduced : Expression → Prop
  | or a b => a.Reduced ∧ b.Reduced ∧ (a = b → a.isDisjunction = true)
  | oneOf choices => choices ≠ [] → ∀ a b, ∃ c ∈ choices, c ≠ or a b
  | _ => True

variable {a b c d e : Expression} {as bs : List Expression}

/-- **An induction on the operands of disjunctions**, which stops at everything else. -/
theorem or_induction {P : Expression → Prop} (or : ∀ a b, P a → P b → P (or a b))
    (leaf : ∀ e, e.isDisjunction = false → P e) : ∀ e, P e
  | .or a b => or a b (or_induction or leaf a) (or_induction or leaf b)
  | .literal _ | .anything | .oneOf _ | .contains _ | .startsWith _ | .endsWith _ | .not _
  | .range _ => leaf _ rfl

/-! ## Expressions that are no disjunctions -/

theorem choices_of_no_set (h : ∀ cs, e = oneOf cs → False) : e.choices = [e] := by
  cases e with
  | oneOf cs => exact (h cs rfl).elim
  | _ => rfl

/-- A set of choices matches what stands for the same choices. -/
theorem choicesMatch_iff : choicesMatch as e = true ↔ ∀ c, c ∈ as ↔ c ∈ e.choices := by
  fun_cases choicesMatch as e with
  | case1 others =>
    simp only [choices, Bool.and_eq_true, List.all_eq_true, List.contains_iff_mem]
    exact ⟨fun h c => ⟨h.1 c, h.2 c⟩, fun h => ⟨fun c => (h c).1, fun c => (h c).2⟩⟩
  | case2 e hset =>
    rw [choices_of_no_set hset]
    simp only [Bool.and_eq_true, Bool.not_eq_true', List.isEmpty_eq_false_iff, List.all_eq_true,
      beq_iff_eq, List.mem_singleton]
    constructor
    · rintro ⟨hne, hall⟩ c
      refine ⟨hall c, ?_⟩
      rintro rfl
      obtain ⟨first, rest, rfl⟩ := List.exists_cons_of_ne_nil hne
      exact hall first List.mem_cons_self ▸ List.mem_cons_self
    · intro h
      exact ⟨List.ne_nil_of_mem ((h e).2 rfl), fun c => (h c).1⟩

/-- What is no disjunction comes down to what stands for the same choices. -/
theorem collapsesTo_leaf_iff (ha : a.isDisjunction = false) :
    collapsesTo e a = true ↔ ∀ c, c ∈ a.choices ↔ c ∈ e.choices := by
  fun_cases collapsesTo e a with
  | case1 left right => cases ha
  | case2 as => exact choicesMatch_iff
  | case3 a hor hset bs =>
    rw [choicesMatch_iff]
    exact forall_congr' fun c => Iff.comm
  | case4 a hor hset e htarget =>
    rw [choices_of_no_set hset, choices_of_no_set htarget, beq_iff_eq]
    simp only [List.mem_singleton]
    exact ⟨fun h c => h ▸ Iff.rfl, fun h => (h a).1 rfl⟩

/-- **Expressions that are no disjunctions** are equivalent if they stand for the same choices. -/
theorem equivalent_leaf_iff (ha : a.isDisjunction = false) (hb : b.isDisjunction = false) :
    equivalent a b = true ↔ ∀ c, c ∈ a.choices ↔ c ∈ b.choices := by
  fun_cases equivalent a b with
  | case1 | case2 => cases ha
  | case3 => exact choicesMatch_iff
  | case4 => cases hb
  | case5 => exact collapsesTo_leaf_iff ha

/-! ## Disjunctions -/

theorem equivalent_or_or : equivalent (or a b) (or c d) = true ↔
    (equivalent a c = true ∧ equivalent b d = true) ∨
      (equivalent a d = true ∧ equivalent b c = true) := by
  rw [equivalent, Bool.or_eq_true, Bool.and_eq_true, Bool.and_eq_true]

/-- A reduced disjunction comes down to nothing else: where its operands are the same, they are
reduced disjunctions. -/
theorem Reduced.not_collapsesTo (h : (or a b).Reduced) : ¬collapsesTo e (or a b) = true := by
  induction a using or_induction generalizing b with
  | or l r ihl ihr =>
    rw [collapsesTo, Bool.and_eq_true]
    exact fun hcollapses => ihl h.1 hcollapses.2
  | leaf a ha =>
    rw [collapsesTo, Bool.and_eq_true, beq_iff_eq]
    rintro ⟨heq, -⟩
    rw [h.2.2 heq] at ha
    cases ha

theorem Reduced.not_equivalent_leaf (h : (or a b).Reduced) (he : e.isDisjunction = false) :
    ¬equivalent (or a b) e = true := by
  cases e with
  | or c d => cases he
  | _ => exact h.not_collapsesTo

theorem Reduced.not_leaf_equivalent (h : (or a b).Reduced) (he : e.isDisjunction = false)
    (hr : e.Reduced) : ¬equivalent e (or a b) = true := by
  cases e with
  | or c d => cases he
  | oneOf cs =>
    -- all choices of the set would be the disjunction
    intro hmatch
    have hchoices : ∀ c, c ∈ cs ↔ c ∈ [or a b] := choicesMatch_iff.1 hmatch
    obtain ⟨c, hc, hne⟩ := hr (List.ne_nil_of_mem ((hchoices _).2 List.mem_cons_self)) a b
    exact hne (List.mem_singleton.1 ((hchoices c).1 hc))
  | _ => exact h.not_collapsesTo

/-! ## The laws -/

/-- **Every expression is equivalent to itself.** -/
theorem equivalent_refl (a : Expression) : equivalent a a = true := by
  induction a using or_induction with
  | or a b iha ihb => exact equivalent_or_or.2 (.inl ⟨iha, ihb⟩)
  | leaf a ha => exact (equivalent_leaf_iff ha ha).2 fun _ => Iff.rfl

theorem Reduced.equivalent_symm (ha : a.Reduced) (hb : b.Reduced) (h : equivalent a b = true) :
    equivalent b a = true := by
  induction a using or_induction generalizing b with
  | or l r ihl ihr =>
    induction b using or_induction with
    | or c d =>
      rcases equivalent_or_or.1 h with ⟨hc, hd⟩ | ⟨hd, hc⟩
      · exact equivalent_or_or.2 (.inl ⟨ihl ha.1 hb.1 hc, ihr ha.2.1 hb.2.1 hd⟩)
      · exact equivalent_or_or.2 (.inr ⟨ihr ha.2.1 hb.1 hc, ihl ha.1 hb.2.1 hd⟩)
    | leaf b hleaf => exact absurd h (ha.not_equivalent_leaf hleaf)
  | leaf a hleaf =>
    induction b using or_induction with
    | or c d => exact absurd h (hb.not_leaf_equivalent hleaf ha)
    | leaf b hleaf' =>
      have hchoices := (equivalent_leaf_iff hleaf hleaf').1 h
      exact (equivalent_leaf_iff hleaf' hleaf).2 fun c => (hchoices c).symm

theorem Reduced.equivalent_trans (ha : a.Reduced) (hb : b.Reduced) (hc : c.Reduced)
    (hab : equivalent a b = true) (hbc : equivalent b c = true) : equivalent a c = true := by
  induction a using or_induction generalizing b c with
  | or l r ihl ihr =>
    induction b using or_induction with
    | leaf b hleaf => exact absurd hab (ha.not_equivalent_leaf hleaf)
    | or l' r' =>
      induction c using or_induction with
      | leaf c hleaf => exact absurd hbc (hb.not_equivalent_leaf hleaf)
      | or l'' r'' =>
        have hl : ∀ {e e'}, e.Reduced → e'.Reduced → equivalent l e = true →
            equivalent e e' = true → equivalent l e' = true := ihl ha.1
        have hr : ∀ {e e'}, e.Reduced → e'.Reduced → equivalent r e = true →
            equivalent e e' = true → equivalent r e' = true := ihr ha.2.1
        rw [equivalent_or_or]
        -- the operands are exchanged twice, once or not at all
        rcases equivalent_or_or.1 hab with ⟨h, h'⟩ | ⟨h, h'⟩ <;>
          rcases equivalent_or_or.1 hbc with ⟨k, k'⟩ | ⟨k, k'⟩
        · exact .inl ⟨hl hb.1 hc.1 h k, hr hb.2.1 hc.2.1 h' k'⟩
        · exact .inr ⟨hl hb.1 hc.2.1 h k, hr hb.2.1 hc.1 h' k'⟩
        · exact .inr ⟨hl hb.2.1 hc.2.1 h k', hr hb.1 hc.1 h' k⟩
        · exact .inl ⟨hl hb.2.1 hc.1 h k', hr hb.1 hc.2.1 h' k⟩
  | leaf a hleaf =>
    induction b using or_induction with
    | or l r => exact absurd hab (hb.not_leaf_equivalent hleaf ha)
    | leaf b hleaf' =>
      induction c using or_induction with
      | or l r => exact absurd hbc (hc.not_leaf_equivalent hleaf' hb)
      | leaf c hleaf'' =>
        have hchoices := (equivalent_leaf_iff hleaf hleaf').1 hab
        have hchoices' := (equivalent_leaf_iff hleaf' hleaf'').1 hbc
        exact (equivalent_leaf_iff hleaf hleaf'').2 fun e => (hchoices e).trans (hchoices' e)

/-- **Equivalence of reduced expressions is an equivalence relation.** A reduced expression is
equivalent to itself; two are equivalent in either order or in none; and what is equivalent to an
expression is so to all that this is equivalent to. -/
theorem equivalent_laws (ha : a.Reduced) (hb : b.Reduced) (hc : c.Reduced) :
    equivalent a a = true ∧ (equivalent a b = true → equivalent b a = true) ∧
      (equivalent a b = true → equivalent b c = true → equivalent a c = true) :=
  ⟨equivalent_refl a, ha.equivalent_symm hb, ha.equivalent_trans hb hc⟩

/-- Operands are exchanged, and the choices of a set are reordered and repeated. -/
theorem equivalent_laws_sets : ∃ a b c : Expression, a.Reduced ∧ b.Reduced ∧ c.Reduced ∧
    equivalent a b = true ∧ equivalent b c = true ∧ equivalent b a = true ∧
      equivalent a c = true := by
  let x : Expression := constant "x"
  let y : Expression := not (or x x)
  have hset : ∀ rest, (oneOf (x :: rest)).Reduced := fun rest _ a b =>
    ⟨x, List.mem_cons_self, by simp [x, constant]⟩
  have ha : (or (oneOf [x, y]) anything).Reduced := ⟨hset _, trivial, by simp⟩
  have hb : (or anything (oneOf [x, y, x])).Reduced := ⟨trivial, hset _, by simp⟩
  have hc : (or anything (oneOf [x, x, y])).Reduced := ⟨trivial, hset _, by simp⟩
  obtain ⟨-, hsymm, htrans⟩ := equivalent_laws ha hb hc
  have hab : equivalent (or (oneOf [x, y]) anything) (or anything (oneOf [x, y, x])) = true := by
    decide +kernel
  have hbc : equivalent (or anything (oneOf [x, y, x])) (or anything (oneOf [x, x, y])) = true := by
    decide +kernel
  exact ⟨_, _, _, ha, hb, hc, hab, hbc, hsymm hab, htrans hab hbc⟩

/-- The disjunction of an expression with itself is equivalent to the set of it, but not the other
way round; and the set is equivalent to the expression, and that to the disjunction. -/
theorem exists_not_symmetric_not_transitive :
    (∃ a b : Expression, equivalent a b = true ∧ equivalent b a = false) ∧
      ∃ a b c : Expression,
        equivalent a b = true ∧ equivalent b c = true ∧ equivalent a c = false := by
  let x : Expression := constant "x"
  exact ⟨⟨or x x, oneOf [x], by decide +kernel⟩, ⟨oneOf [x], x, or x x, by decide +kernel⟩⟩

end Sift.Expression
