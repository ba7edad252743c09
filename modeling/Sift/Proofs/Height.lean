import Sift.Proofs.DepthLimit

/-!
# How high the expressions of a filter are

What is read from a text is walked by recursion later on. A limit on the nesting of brackets bounds
how deep such a walk gets, but for one thing: alternatives need no brackets, and are combined from
the left.

* `Expression.height`: the height of an expression as a tree; `Expression.levels`: the same, with
  chains of alternatives as one level each.
* `Expression.levels_le`: how many levels the brackets of a written expression allow.
* `Expression.height_le`: every disjunction adds at most one.
* `Node.height_of_ofText`: **what a limit bounds the heights by**; `Node.exists_higher`: no bound on
  the heights holds for all texts.
-/

namespace Sift

namespace Expression

mutual

/-- The height of an expression as a tree. -/
def height : Expression → Nat
  | oneOf choices => heights choices + 1
  | not e => e.height + 1
  | or left right => max left.height right.height + 1
  | _ => 1

/-- The height of the highest of several expressions. -/
def heights : List Expression → Nat
  | [] => 0
  | e :: rest => max e.height (heights rest)

end

mutual

/-- The height of an expression whose chains of alternatives count as one level: a disjunction
stands on the level of the one that it goes on from. -/
def levels : Expression → Nat
  | oneOf choices => listLevels choices + 1
  | not e => e.levels + 1
  | or left right =>
    max (if left.isDisjunction then left.levels else left.levels + 1) (right.levels + 1)
  | _ => 1

/-- The most levels of several expressions. -/
def listLevels : List Expression → Nat
  | [] => 0
  | e :: rest => max e.levels (listLevels rest)

end

mutual

/-- The number of disjunctions in an expression. -/
def joins : Expression → Nat
  | oneOf choices => listJoins choices
  | not e => e.joins
  | or left right => left.joins + right.joins + 1
  | _ => 0

/-- The number of disjunctions in several expressions. -/
def listJoins : List Expression → Nat
  | [] => 0
  | e :: rest => e.joins + listJoins rest

end

/-- The levels that stand above the next brackets: of a disjunction its own, that of a negation in
it, and what is negated. -/
def openLevels : Expression → Nat
  | or _ _ => 3
  | not _ => 2
  | _ => 1

theorem openLevels_le (e : Expression) : e.openLevels ≤ 3 := by
  cases e <;> simp only [openLevels] <;> omega

/-- Where an expression is a term, it has brackets of its own or is no disjunction. -/
theorem levels_le_of_term {e : Expression} (h : e.levels ≤ 3 * e.nesting + e.openLevels) :
    e.levels ≤ 3 * e.termNesting + 2 := by
  cases e with
  | or left right =>
    rw [openLevels] at h
    rw [termNesting, guardNesting]
    omega
  | _ =>
    simp only [openLevels] at h
    simp only [termNesting, guardNesting]
    omega

mutual

/-- **How many levels an expression has** that is written in brackets: a pair of them allows three,
a set or parentheses, a disjunction and a negation. -/
theorem levels_le : ∀ {e : Expression}, e.Legible → e.levels ≤ 3 * e.nesting + e.openLevels
  | literal _, _ | anything, _ | contains _, _ | startsWith _, _ | endsWith _, _ => Nat.le_refl 1
  | range _, _ => Nat.le_add_left 1 3
  | oneOf choices, h => by
    have hchoices := listLevels_le h.2
    simp only [levels, nesting, openLevels]
    omega
  | not e, h => by
    have he := levels_le h.2
    rw [levels, nesting, openLevels]
    -- what is negated is no negation itself
    cases e with
    | not inner => cases h.1
    | or left right =>
      rw [openLevels] at he
      rw [guardNesting]
      omega
    | _ =>
      simp only [openLevels] at he
      simp only [guardNesting]
      omega
  | or left right, h => by
    have hleft := levels_le h.1
    have hright := levels_le_of_term (levels_le h.2)
    rw [termNesting] at hright
    rw [levels, nesting, openLevels]
    by_cases hchain : left.isDisjunction = true
    · have hopen := openLevels_le left
      rw [if_pos hchain]
      omega
    · have hopen : left.openLevels ≤ 2 := by
        cases left with
        | or _ _ => exact absurd rfl hchain
        | _ =>
          simp only [openLevels]
          omega
      rw [if_neg hchain]
      omega

theorem listLevels_le : ∀ {es : List Expression}, AllLegible es →
    listLevels es ≤ 3 * listNesting es + 3
  | [], _ => Nat.zero_le _
  | e :: rest, h => by
    have hfirst := levels_le h.1
    have hopen := openLevels_le e
    have hrest := listLevels_le h.2
    rw [listLevels, listNesting]
    omega

end

mutual

/-- **Every disjunction adds at most one level** to those that are counted. -/
theorem height_le : ∀ e : Expression, e.height ≤ e.levels + e.joins
  | literal _ | anything | contains _ | startsWith _ | endsWith _ | range _ => Nat.le_refl 1
  | oneOf choices => by
    have hchoices := heights_le choices
    rw [height, levels, joins]
    omega
  | not e => by
    have he := height_le e
    rw [height, levels, joins]
    omega
  | or left right => by
    have hleft := height_le left
    have hright := height_le right
    have hchain : left.levels ≤ if left.isDisjunction then left.levels else left.levels + 1 := by
      split
      · exact Nat.le_refl _
      · exact Nat.le_succ _
    rw [height, levels, joins]
    omega

theorem heights_le : ∀ es : List Expression, heights es ≤ listLevels es + listJoins es
  | [] => Nat.le_refl 0
  | e :: rest => by
    have hfirst := height_le e
    have hrest := heights_le rest
    rw [heights, listLevels, listJoins]
    omega

end

/-- Alternatives of one text, each of which makes the expression higher. -/
def chain : Nat → Expression
  | 0 => constant "x"
  | n + 1 => or (chain n) (constant "x")

theorem height_chain (n : Nat) : (chain n).height = n + 1 := by
  induction n with
  | zero => rfl
  | succ n ih =>
    rw [chain, height, ih]
    have hleaf : (constant "x").height = 1 := rfl
    omega

theorem nesting_chain (n : Nat) : (chain n).nesting = 0 := by
  induction n with
  | zero => rfl
  | succ n ih =>
    rw [chain, nesting, ih]
    rfl

theorem normal_chain (n : Nat) : (chain n).Normal := by
  induction n with
  | zero => exact trivial
  | succ n ih => exact ⟨ih, trivial⟩

end Expression

namespace Node

variable {limit : Nat} {text : String} {node : Node}

/-- **What a limit bounds the heights by.** The expressions of a tree that is read from a text have
at most three levels for each pair of brackets and three more, where a chain of alternatives is one
level. They are no higher than that, but for the number of their disjunctions. -/
theorem height_of_ofText (h : Node.ofText limit text = .ok node) : ∀ e ∈ node.expressions,
    e.levels ≤ 3 * (limit + 1) ∧ e.height ≤ 3 * (limit + 1) + e.joins := by
  intro e he
  obtain ⟨hlegible, hnesting⟩ := legible_expressions h e he
  have hlevels := Expression.levels_le hlegible
  have hopen := e.openLevels_le
  have hheight := e.height_le
  constructor
  · omega
  · omega

/-- Alternatives under a negation in a set, and that in alternatives of another set. -/
theorem height_of_ofText_sets : ∃ node e,
    Node.ofText 5 "A isnull and not B contains \x7b(x|y|\"(\"|!\x7b(a|!b|[1 to *])\x7d),w\x7d" =
        .ok node ∧
      node.expressions = [e] ∧ e.levels ≤ 18 ∧ e.height ≤ 18 + e.joins := by
  have hread : (Node.ofText 5
      "A isnull and not B contains \x7b(x|y|\"(\"|!\x7b(a|!b|[1 to *])\x7d),w\x7d").toOption.map
        (fun node => node.expressions.length) = some 1 := by decide +kernel
  obtain ⟨node, hnode, hlength⟩ := Option.map_eq_some_iff.1 hread
  obtain ⟨e, he⟩ := List.length_eq_one_iff.1 hlength
  have hfirst := toOption_eq_some.1 hnode
  have hmem : e ∈ node.expressions := he ▸ List.mem_singleton_self e
  obtain ⟨hlevels, hheight⟩ := height_of_ofText hfirst e hmem
  exact ⟨node, e, hfirst, he, hlevels, hheight⟩

/-- Without a single bracket alternatives make an expression as high as one likes, so **no bound on
the heights holds for all texts**. -/
theorem exists_higher : ¬∃ bound : Nat → Nat, ∀ (limit : Nat) (text : String) (node : Node),
    Node.ofText limit text = .ok node → ∀ e ∈ node.expressions, e.height ≤ bound limit := by
  rintro ⟨bound, hbound⟩
  -- more alternatives than the bound for texts without brackets
  let e := Expression.chain (bound 0 + 1)
  have hname : Grammar.IsIdentifier "F".toList := ⟨'F', [], rfl, by decide, by simp⟩
  have hnot : "F".toList.map Char.toLower ≠ ['n', 'o', 't'] := by decide +kernel
  have hliteral : ∀ l, Expression.chain (bound 0 + 1) ≠ .literal l := by
    intro l hl
    cases hl
  have hnesting : e.nesting ≤ 0 := Nat.le_of_eq (Expression.nesting_chain _)
  have hop : Operator.eq.requiresValue = true := rfl
  have hread := ofText_written hop hname hnot (Expression.normal_chain _) hliteral hnesting
  have hmem : e ∈ (leaf (.on "F" .eq (.expression e))).expressions := List.mem_singleton_self e
  have hheight := hbound 0 _ _ hread e hmem
  have hchain : e.height = bound 0 + 2 := Expression.height_chain _
  omega

end Node

end Sift
