import Sift.Proofs.Readability
import Sift.Proofs.SingleComparison

/-!
# What the limit on nesting counts

A filter text is refused for its brackets before it is read. They are counted in the plain text, by
a rule of its own for what stands between quotes, and the grammar comes to the same number wherever
it reads the text.

* `PlacedClause`: a comparison and the number of parentheses around it; `Grammar.clausesOf` lists
  those of a text.
* `Node.exists_taken`: what is found in a text has the brackets of the text.
* `Node.checkDepth_iff_within`: a limit is kept by a text if each comparison keeps it.
* `Node.bounded_of_ofText`: **what a limit bounds**: the groups of a tree and the sets of its
  operands. A larger limit changes nothing.
* `Node.ofText_written`: a written expression is read under every limit that it keeps.
* `Node.ofText_iff_within`: **which limits a text is read under**. They count parentheses, sets and
  ranges, and names in brackets too; `Node.exists_overcounted`: without need.
-/

namespace Sift

/-! ## Comparisons and the parentheses around them -/

/-- A comparison and the number of parentheses around it. -/
structure PlacedClause where
  parentheses : Nat
  path : FieldPath
  value : Option Value

namespace PlacedClause

/-- How deep parentheses, sets and ranges nest at a comparison: those around it, and those of its
value within them. -/
def nesting (c : PlacedClause) : Nat := c.parentheses + c.value.elim 0 Value.nesting

/-- Whether a comparison keeps a limit: with what nests at it, and with a pair of brackets for a
name of its path. -/
def Within (limit : Nat) (c : PlacedClause) : Prop :=
  c.nesting ≤ limit ∧ (c.path.isBracketed = true → c.parentheses < limit)

end PlacedClause

namespace Phrase

mutual

/-- The comparisons of a phrase that stands in `depth` parentheses. Each disjunction has
parentheses of its own. -/
def clausesAt (depth : Nat) : Phrase → List PlacedClause
  | clause path _ value => [⟨depth, path, value⟩]
  | negated p => p.clausesAt depth
  | all first rest => first.clausesAt depth ++ listClausesAt depth rest
  | any first rest => first.clausesAt (depth + 1) ++ listClausesAt (depth + 1) rest

/-- The comparisons of several phrases that stand in `depth` parentheses. -/
def listClausesAt (depth : Nat) : List Phrase → List PlacedClause
  | [] => []
  | p :: rest => p.clausesAt depth ++ listClausesAt depth rest

end

/-- The comparisons of a whole text, which needs no parentheses for its disjunction. -/
def clauses : Phrase → List PlacedClause
  | any first rest => listClausesAt 0 (first :: rest)
  | p => p.clausesAt 0

variable {limit : Nat}

mutual

/-- **A phrase keeps a limit** if each of its comparisons does. -/
theorem within_iff : ∀ (p : Phrase) (depth : Nat),
    (∀ c ∈ p.clausesAt depth, c.Within limit) ↔ depth + p.nesting ≤ limit
  | clause path op value, depth => by
    rw [clausesAt, List.forall_mem_singleton, PlacedClause.Within, PlacedClause.nesting, nesting]
    -- a name in brackets is one level, and so is an open parenthesis
    cases path.isBracketed with
    | false =>
      simp only [Bool.false_eq_true, false_implies, and_true, Bool.toNat_false, Nat.zero_max]
    | true =>
      simp only [true_implies, Bool.toNat_true]
      omega
  | negated p, depth => by
    rw [clausesAt, nesting]
    exact within_iff p depth
  | all first rest, depth => by
    have hfirst := within_iff first depth
    have hrest := list_within_iff rest depth
    rw [clausesAt, nesting, List.forall_mem_append, hfirst]
    -- the first member shows that the parentheses around it keep the limit
    by_cases hdepth : depth ≤ limit
    · rw [hrest hdepth]
      omega
    · refine iff_of_false ?_ ?_
      · intro h
        omega
      · omega
  | any first rest, depth => by
    have hfirst := within_iff first (depth + 1)
    have hrest := list_within_iff rest (depth + 1)
    rw [clausesAt, nesting, List.forall_mem_append, hfirst]
    by_cases hdepth : depth + 1 ≤ limit
    · rw [hrest hdepth]
      omega
    · refine iff_of_false ?_ ?_
      · intro h
        omega
      · omega

theorem list_within_iff : ∀ (ps : List Phrase) (depth : Nat), depth ≤ limit →
    ((∀ c ∈ listClausesAt depth ps, c.Within limit) ↔ depth + listNesting ps ≤ limit)
  | [], depth, hdepth => by
    rw [listClausesAt, listNesting, Nat.add_zero]
    exact iff_of_true (fun c hc => absurd hc List.not_mem_nil) hdepth
  | p :: rest, depth, hdepth => by
    have hfirst := within_iff p depth
    have hrest := list_within_iff rest depth hdepth
    rw [listClausesAt, listNesting, List.forall_mem_append, hfirst, hrest]
    omega

end

end Phrase

namespace Grammar

open Scan

/-- Nothing is left behind what is found in a whole text. -/
theorem rest_of_input {depth : Nat} {here there : Cursor} {found : Option Phrase}
    (h : (input depth here).found = some (found, there)) : there.rest = [] := by
  unfold input at h
  rw [found_named] at h
  obtain ⟨_, last, -, h⟩ := found_bind_eq_some.1 h
  obtain ⟨_, _, hending, h⟩ := found_bind_eq_some.1 h
  cases h
  exact (found_ending hending).2

/-- The comparisons of a filter text. -/
def clausesOf (text : String) : List PlacedClause :=
  match (input (text.length + 1) (Cursor.start text.toList)).found with
  | some (some p, _) => p.clauses
  | _ => []

end Grammar

/-! ## The groups of a tree -/

namespace Node

mutual

theorem groupDepth_negate : ∀ node : Node, node.negate.groupDepth = node.groupDepth
  | leaf _ => rfl
  | group _ _ members => by rw [negate, groupDepth, groupDepth, groupDepths_negateAll members]

theorem groupDepths_negateAll : ∀ nodes : List Node,
    groupDepths (negateAll nodes) = groupDepths nodes
  | [] => rfl
  | node :: rest => by
    rw [negateAll, groupDepths, groupDepths, groupDepth_negate node, groupDepths_negateAll rest]

end

/-- Several trees make at most one more group. -/
theorem groupDepth_combine_le (logic : Logic) (node : Node) (rest : List Node) :
    (combine logic (node :: rest)).groupDepth ≤ groupDepths (node :: rest) + 1 := by
  cases rest with
  | nil =>
    have hle := Nat.le_max_left node.groupDepth (groupDepths [])
    exact Nat.le_succ_of_le hle
  | cons second rest => exact Nat.le_refl _

end Node

mutual

/-- A tree has no more groups inside each other than the phrase that it comes from. -/
theorem Phrase.groupDepth_node {source : String} : ∀ {p : Phrase} {node : Node},
    p.node source = .ok node → node.groupDepth ≤ p.groups
  | .clause _ _ _, node, h => by
    rw [Phrase.node] at h
    obtain ⟨f, -, rfl⟩ := map_eq_ok.1 h
    exact Nat.le_refl 0
  | .negated p, node, h => by
    rw [Phrase.node] at h
    obtain ⟨inner, hinner, rfl⟩ := map_eq_ok.1 h
    rw [Node.groupDepth_negate, Phrase.groups]
    exact groupDepth_node hinner
  | .all first rest, node, h | .any first rest, node, h => by
    rw [Phrase.node] at h
    obtain ⟨inner, hinner, h⟩ := bind_eq_ok.1 h
    obtain ⟨others, hothers, h⟩ := bind_eq_ok.1 h
    cases h
    have hfirst := groupDepth_node hinner
    have hrest := groupDepths_nodes hothers
    refine Nat.le_trans (Node.groupDepth_combine_le _ inner others) ?_
    rw [Node.groupDepths, Phrase.groups]
    omega

theorem Phrase.groupDepths_nodes {source : String} : ∀ {ps : List Phrase} {nodes : List Node},
    Phrase.nodes source ps = .ok nodes → Node.groupDepths nodes ≤ Phrase.listGroups ps
  | [], nodes, h => by
    cases h
    exact Nat.le_refl 0
  | p :: rest, nodes, h => by
    rw [Phrase.nodes] at h
    obtain ⟨inner, hinner, h⟩ := bind_eq_ok.1 h
    obtain ⟨others, hothers, h⟩ := bind_eq_ok.1 h
    cases h
    have hfirst := groupDepth_node hinner
    have hrest := groupDepths_nodes hothers
    rw [Node.groupDepths, Phrase.listGroups]
    omega

end

/-! ## The expressions of a tree -/

mutual

/-- The expressions of an operand. -/
def Operand.expressions : Operand → List Expression
  | .expression e => [e]
  | .list items => Operand.expressionsOf items
  | _ => []

/-- The expressions of several operands. -/
def Operand.expressionsOf : List Operand → List Expression
  | [] => []
  | o :: rest => o.expressions ++ Operand.expressionsOf rest

end

/-- The expressions of a tree. -/
def Node.expressions (node : Node) : List Expression :=
  node.filters.flatMap fun f => f.operand.expressions

namespace Expression

mutual

/-- How many sets and ranges of an expression stand inside each other. -/
def setDepth : Expression → Nat
  | oneOf choices => setDepths choices + 1
  | range _ => 1
  | not e => e.setDepth
  | or left right => max left.setDepth right.setDepth
  | _ => 0

/-- How many sets and ranges of several expressions stand inside each other. -/
def setDepths : List Expression → Nat
  | [] => 0
  | e :: rest => max e.setDepth (setDepths rest)

end

mutual

/-- Every set and every range has a pair of brackets of its own. -/
theorem setDepth_le_nesting : ∀ e : Expression, e.setDepth ≤ e.nesting
  | literal _ | anything | contains _ | startsWith _ | endsWith _ => Nat.zero_le _
  | oneOf choices => Nat.succ_le_succ (setDepths_le_nesting choices)
  | range _ => Nat.le_refl 1
  | not e => Nat.le_trans (setDepth_le_nesting e) (nesting_le_termNesting e)
  | or left right => by
    have hleft := setDepth_le_nesting left
    have hright := Nat.le_trans (setDepth_le_nesting right) (nesting_le_termNesting right)
    rw [termNesting] at hright
    rw [setDepth, nesting]
    omega

theorem setDepths_le_nesting : ∀ es : List Expression, setDepths es ≤ listNesting es
  | [] => Nat.le_refl 0
  | e :: rest => by
    have hfirst := setDepth_le_nesting e
    have hrest := setDepths_le_nesting rest
    rw [setDepths, listNesting]
    omega

end

end Expression

/-! ## What a limit bounds -/

namespace Node

variable {limit larger : Nat} {text : String} {node : Node}

/-- **What is found in a text** that is read as a tree: it has the brackets of the text and stands
for the tree. -/
theorem exists_taken (h : Node.ofText limit text = .ok node) : ∃ found there,
    (Grammar.input (text.length + 1) (Cursor.start text.toList)).found = some (found, there) ∧
      Grammar.TakenWhole found text.toList ∧
        (found.elim (.ok always) fun p => p.node text) = .ok node := by
  unfold Node.ofText at h
  obtain ⟨_, -, h⟩ := bind_eq_ok.1 h
  obtain ⟨⟨found, consumed⟩, hscanned, h⟩ := bind_eq_ok.1 h
  obtain ⟨there, hfound, -⟩ := scanned_eq_ok.1 hscanned
  obtain ⟨cs, hcs, -, htaken⟩ := Grammar.takes_whole _ _ _ _ trivial hfound
  rw [Grammar.rest_of_input hfound, List.append_nil] at hcs
  have htext : text.toList = cs := hcs
  refine ⟨found, there, hfound, htext ▸ htaken, ?_⟩
  cases found with
  | none => exact h
  | some p => exact h

/-- A text is read alike under all limits that it keeps. -/
theorem ofText_of_checkDepth (h : Node.ofText larger text = .ok node)
    (hdepth : checkDepth limit text = .ok ()) : Node.ofText limit text = .ok node := by
  unfold Node.ofText at h ⊢
  obtain ⟨_, -, h⟩ := bind_eq_ok.1 h
  rw [hdepth]
  exact h

theorem groupDepth_of_ofText (h : Node.ofText limit text = .ok node) :
    node.groupDepth ≤ 2 * (limit + 1) := by
  obtain ⟨found, -, -, htaken, hnode⟩ := exists_taken h
  cases found with
  | none =>
    cases hnode
    exact Nat.zero_le _
  | some p =>
    obtain ⟨first, rest, rfl, htaken⟩ := htaken
    have hgroups := Phrase.groupDepth_node hnode
    have hle := htaken.groups
    have hlimit := (checkDepth_of_nests htaken.nests).1 (checkDepth_of_ofText h)
    rw [Phrase.groups] at hgroups
    rw [Phrase.listGroups] at hle
    omega

/-- The expressions of a tree that is read can be written again, in brackets within the limit. -/
theorem legible_expressions (h : Node.ofText limit text = .ok node) :
    ∀ e ∈ node.expressions, e.Legible ∧ e.nesting ≤ limit := by
  intro e he
  rcases legible_ofText h with rfl | hlegible
  · cases he
  · obtain ⟨f, hf, he⟩ := List.mem_flatMap.1 he
    have hfilter := hlegible.filters f hf
    rcases hfilter.operand.cases with ⟨hnull, -⟩ | ⟨s, hstring, -⟩ | ⟨e', hexpression, he'⟩
    · rw [hnull] at he
      cases he
    · rw [hstring] at he
      cases he
    · have hnesting := hfilter.nesting
      rw [hexpression] at he hnesting
      rw [Operand.expressions, List.mem_singleton] at he
      rw [he]
      exact ⟨he', hnesting⟩

/-- **What a limit bounds.** In a tree that is read from a text, at most twice as many groups stand
inside each other as there may be parentheses, with one pair for the whole text; and at most as many
sets and ranges as the limit says. Under every larger limit the text is read as the same tree. -/
theorem bounded_of_ofText (h : Node.ofText limit text = .ok node) :
    node.groupDepth ≤ 2 * (limit + 1) ∧ (∀ e ∈ node.expressions, e.setDepth ≤ limit) ∧
      ∀ larger, limit ≤ larger → Node.ofText larger text = .ok node := by
  refine ⟨groupDepth_of_ofText h, ?_, ?_⟩
  · intro e he
    exact Nat.le_trans e.setDepth_le_nesting (legible_expressions h e he).2
  · intro larger hle
    have hdepth := checkDepth_iff_deepest.1 (checkDepth_of_ofText h)
    exact ofText_of_checkDepth h (checkDepth_iff_deepest.2 (Nat.le_trans hdepth hle))

/-- As many groups as there can be, beside brackets in quotes. -/
theorem bounded_of_ofText_quotes : ∃ node : Node,
    Node.ofText 1 "A[\")]\"] eq \x7b\"\\\"(\"\x7d or B eq 1 and (C isnull or D isnull and E lt 1)" =
        .ok node ∧
      node.groupDepth = 4 ∧ (∀ e ∈ node.expressions, e.setDepth ≤ 1) ∧
        ∀ larger, 1 ≤ larger → Node.ofText larger
          "A[\")]\"] eq \x7b\"\\\"(\"\x7d or B eq 1 and (C isnull or D isnull and E lt 1)" =
            .ok node := by
  have hread : (Node.ofText 1
      "A[\")]\"] eq \x7b\"\\\"(\"\x7d or B eq 1 and (C isnull or D isnull and E lt 1)"
        ).toOption.map groupDepth = some 4 := by decide +kernel
  obtain ⟨node, hnode, hgroups⟩ := Option.map_eq_some_iff.1 hread
  have hfirst := toOption_eq_some.1 hnode
  obtain ⟨-, hsets, hlarger⟩ := bounded_of_ofText hfirst
  exact ⟨node, hfirst, hgroups, hsets, hlarger⟩

/-- A comparison with an expression in normal form is read under every limit that the brackets of
the expression keep. -/
theorem ofText_written {op : Operator} {name : String} {e : Expression}
    (hop : op.requiresValue = true) (hname : Grammar.IsIdentifier name.toList)
    (hnot : name.toList.map Char.toLower ≠ ['n', 'o', 't']) (he : e.Normal)
    (hliteral : ∀ l, e ≠ .literal l) (hnesting : e.nesting ≤ limit) :
    Node.ofText limit (comparison name op (String.ofList e.text)) =
      .ok (.leaf (.on name op (.expression e))) := by
  have hpath := FieldPath.valid_ofName hname hnot
  have hfield : (Filter.on name op (.expression e)).field =
      some (FieldPath.ofName name).written := by
    rw [FieldPath.written_ofName]
    rfl
  have hnormal : (Operand.expression e).Normal op := ⟨hop, he, hliteral⟩
  have hlegible : (leaf (.on name op (.expression e))).Legible limit := by
    refine ⟨⟨_, hpath, hfield⟩, hnormal.legible, hnesting, fun hnone => ?_⟩
    rw [show (Filter.on name op (.expression e)).operator = op from rfl, hop] at hnone
    cases hnone
  have htext : String.ofList (leaf (.on name op (.expression e))).text =
      comparison name op (String.ofList e.text) := by
    rw [Node.text, Filter.text, hpath.path? hfield, ← String.toList_inj, toList_comparison,
      Grammar.comparisonText, String.toList_ofList, String.toList_ofList]
    simp [Filter.on, Filter.operandText]
  have hdepth : checkDepth limit (comparison name op (String.ofList e.text)) = .ok () := by
    obtain ⟨before, hbefore, hsplit⟩ := exists_prefix_comparison hname op (String.ofList e.text)
    have hnests := hbefore.append e.nests_text
    rw [String.toList_ofList] at hsplit
    rw [← hsplit, Nat.zero_max] at hnests
    exact (checkDepth_of_nests hnests).2 hnesting
  have hreread : (Filter.on name op (.expression e)).reread =
      .ok (.on name op (.expression e)) := by
    unfold Filter.reread Filter.on
    rw [Operand.reread_of_normal hnormal]
    rfl
  rw [← htext] at hdepth ⊢
  rw [ofText_text hlegible hdepth, reread, hreread]
  rfl

/-! ## Which limits a text is read under -/

/-- **A limit is kept by a text** if each of its comparisons keeps it. -/
theorem checkDepth_iff_within (h : Node.ofText larger text = .ok node) :
    checkDepth limit text = .ok () ↔ ∀ c ∈ Grammar.clausesOf text, c.Within limit := by
  obtain ⟨found, there, hfound, htaken, -⟩ := exists_taken h
  unfold Grammar.clausesOf
  rw [hfound]
  cases found with
  | none =>
    have hnests : Nests 0 text.toList := htaken
    exact iff_of_true ((checkDepth_of_nests hnests).2 (Nat.zero_le limit)) (by simp)
  | some p =>
    obtain ⟨first, rest, rfl, htaken⟩ := htaken
    have hwithin := Phrase.list_within_iff (first :: rest) 0 (Nat.zero_le limit)
    rw [Nat.zero_add] at hwithin
    exact (checkDepth_of_nests htaken.nests).trans hwithin.symm

/-- **Which limits a text is read under.** A text that is read under some limit is read under
another one if and only if its parentheses, sets and ranges nest no deeper, and no name in brackets
stands within as many parentheses as the limit says.

Names in brackets are no nesting of parentheses, sets and ranges, but their brackets count. -/
theorem ofText_iff_within (h : Node.ofText larger text = .ok node) :
    (∃ node', Node.ofText limit text = .ok node') ↔
      (∀ c ∈ Grammar.clausesOf text, c.nesting ≤ limit) ∧
        ∀ c ∈ Grammar.clausesOf text, c.path.isBracketed = true → c.parentheses < limit := by
  have hread : (∃ node', Node.ofText limit text = .ok node') ↔ checkDepth limit text = .ok () := by
    constructor
    · rintro ⟨node', hnode'⟩
      exact checkDepth_of_ofText hnode'
    · intro hdepth
      exact ⟨node, ofText_of_checkDepth h hdepth⟩
  rw [hread, checkDepth_iff_within h]
  exact forall₂_and

/-- Quoted brackets everywhere, and names in brackets within fewer parentheses than the limit. -/
theorem ofText_iff_within_names : ∃ node,
    Node.ofText 2 "A[\"(\"] eq \x7bx,[1 to 2]\x7d and (not B[\")\"] eq \"]x\" or (C isnull))" =
      .ok node := by
  have hread : (Node.ofText 3
      "A[\"(\"] eq \x7bx,[1 to 2]\x7d and (not B[\")\"] eq \"]x\" or (C isnull))"
        ).toOption.isSome = true := by decide +kernel
  obtain ⟨node, hnode⟩ := Option.isSome_iff_exists.1 hread
  refine (ofText_iff_within (toOption_eq_some.1 hnode)).2 ⟨?_, ?_⟩
  · decide +kernel
  · decide +kernel

/-- A text without a single parenthesis, set or range that is refused for its nesting. -/
theorem exists_overcounted : ¬∀ (limit larger : Nat) (text : String) (node : Node),
    limit < larger → Node.ofText larger text = .ok node →
      (∀ c ∈ Grammar.clausesOf text, c.nesting ≤ limit) →
        ∃ node', Node.ofText limit text = .ok node' := by
  intro hall
  have hread : (Node.ofText 1 "A[\"b\"] eq 1").toOption.isSome = true := by decide +kernel
  obtain ⟨node, hnode⟩ := Option.isSome_iff_exists.1 hread
  have hnesting : ∀ c ∈ Grammar.clausesOf "A[\"b\"] eq 1", c.nesting ≤ 0 := by decide +kernel
  obtain ⟨node', hnode'⟩ := hall 0 1 _ node Nat.one_pos (toOption_eq_some.1 hnode) hnesting
  have hrefused : (Node.ofText 0 "A[\"b\"] eq 1").toOption.isSome = false := by decide +kernel
  rw [toOption_eq_some.2 hnode'] at hrefused
  cases hrefused

end Node

end Sift
