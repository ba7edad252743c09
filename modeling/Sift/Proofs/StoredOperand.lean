import Sift.Proofs.DepthLimit

/-!
# Values of stored comparisons

A stored comparison holds its value as a text, which is read by itself: without the white space at
its ends, and under the limit that holds where nothing else is set. A filter text with the same
value may be read under another limit, and goes by its own idea of white space.

* `Node.leaf_of_comparison`: what is read from a comparison is of its field and its operator.
* `Node.ofJson?_storedComparison`: what a stored comparison is read as.
* `Node.storedComparison_iff`: **when both are read alike**; `Node.exists_demoted`: not always.
-/

namespace Sift

open Scan

/-! ## Stored texts -/

namespace Operand

variable {op : Operator} {text : String} {e : Expression}

/-- Only the text without the white space at its ends is read. -/
theorem ofText_trimmed (op : Operator) (text : String) :
    ofText op (trimmed text) = ofText op text := by
  have htrimmed : trimmed (trimmed text) = trimmed text := by
    unfold trimmed
    rw [String.toList_ofList, Text.trim_trim]
  unfold ofText
  rw [htrimmed]

/-- A stored text stands for an expression exactly if it is read as one. -/
theorem ofStored_eq_expression :
    ofStored op text = .ok (.expression e) ↔ ofText op text = .ok (.expression e) := by
  unfold ofStored
  generalize ofText op text = result
  cases result with
  | ok o => simp
  | error fault => cases fault <;> simp [string]

/-- **A stored text is kept as it is where its brackets nest too deep.** -/
theorem ofStored_of_tooDeep (h : defaultDepth < deepest 0 .outside text.toList) :
    ofStored op text = .ok (.string text) := by
  have htoo : ¬deepest 0 .outside (trimmed text).toList ≤ defaultDepth := by
    rw [trimmed, String.toList_ofList, deepest_trim]
    exact Nat.not_le.2 h
  have hrefused : ∃ source span fault,
      checkDepth defaultDepth (trimmed text) = .error (.malformed source span fault) := by
    unfold checkDepth
    split
    · exact ⟨_, _, _, rfl⟩
    · next hnone =>
      have hok : checkDepth defaultDepth (trimmed text) = .ok () := by
        unfold checkDepth
        rw [hnone]
      exact absurd (checkDepth_iff_deepest.1 hok) htoo
  obtain ⟨source, span, fault, hrefused⟩ := hrefused
  have hread : ofText op text = .error (.malformed source span fault) := by
    unfold ofText
    dsimp only
    rw [hrefused]
    rfl
  unfold ofStored
  rw [hread]

end Operand

namespace Node

/-- The stored form of a comparison of a field with a text. -/
def storedComparison (name : String) (op : Operator) (text : String) : Json :=
  .object [("field", .string name), ("operator", .string op.token), ("value", .string text)]

/-- **What a stored comparison is read as.** -/
theorem ofJson?_storedComparison (name : String) (op : Operator) (text : String) :
    Node.ofJson? (storedComparison name op text) =
      (Operand.ofStored op text).toOption.map fun o => .leaf (.on name op o) := by
  have hread : Filter.ofJson (storedComparison name op text) =
      (fun o => .on name op o) <$> Operand.ofStored op text :=
    Filter.ofJson_members (some name) op text
  rw [Node.ofJson?, treeOfJson?, hread, storedComparison, groupOfJson?_field, Option.bind_none,
    Option.none_or]
  cases Operand.ofStored op text <;> rfl

/-! ## Comparisons in filter texts -/

variable {limit : Nat} {op : Operator} {name text : String} {f : Filter} {e : Expression}

/-- **What is read from a comparison** and has an expression for its operand is of the field and the
operator in the text. -/
theorem leaf_of_comparison (hname : Grammar.IsIdentifier name.toList)
    (hnot : name.toList.map Char.toLower ≠ ['n', 'o', 't'])
    (h : ofText limit (comparison name op text) = .ok (.leaf f)) (he : f.operand = .expression e) :
    op.requiresValue = true ∧ f = .on name op (.expression e) := by
  obtain ⟨n, p, there, -, -, -, hnode, hfound, -⟩ :=
    exists_phrase h (not_allBlank_comparison hname op text)
  rw [found_spaced (noBlank_comparison hname op text)] at hfound
  obtain ⟨q, last, hmember, hq, -⟩ := Grammar.found_member_of_disjunction hfound hnode
  have hpath := FieldPath.valid_ofName hname hnot
  -- the only member is a comparison of this field
  obtain ⟨here, hhere, -, hclause⟩ := Grammar.member_goesOn_clause (comparison name op text).length
    hpath (Cursor.start (comparison name op text).toList) (toList_comparison name op text)
  rw [hclause] at hmember
  by_cases hop : op.requiresValue = true
  · obtain ⟨next, -, -, hvalue⟩ := Grammar.clause_goesOn hpath hop here hhere
    rw [hvalue] at hmember
    obtain ⟨v, _, -, hmember⟩ := found_bind_eq_some.1 hmember
    cases hmember
    rw [Phrase.node] at hq
    obtain ⟨g, hg, hleaf⟩ := map_eq_ok.1 hq
    obtain ⟨o, -, rfl⟩ := map_eq_ok.1 hg
    cases hleaf
    have ho : o = .expression e := he
    rw [ho, FieldPath.written_ofName]
    exact ⟨hop, rfl⟩
  · -- without a value there is no expression
    obtain ⟨_, _, hfound', -, -, rfl⟩ :=
      Grammar.reads_clause_alone hpath (eq_false_of_ne_true hop) here hhere
    rw [hfound'] at hmember
    cases hmember
    cases hq
    cases he

/-- **When a stored comparison is read like a filter text.** A comparison that is read from a filter
text with an expression, under some limit, is read alike in its stored form if and only if the
brackets of its value nest no deeper than where nothing else is set, and the value is read alike
without the white space at its ends.

Where the brackets nest deeper, the stored text is not refused but stands for itself. -/
theorem storedComparison_iff (hname : Grammar.IsIdentifier name.toList)
    (hnot : name.toList.map Char.toLower ≠ ['n', 'o', 't'])
    (h : ofText limit (name ++ " " ++ op.token ++ " " ++ text) = .ok (.leaf f))
    (he : f.operand = .expression e) :
    (Node.ofJson? (storedComparison name op text) =
        some (.leaf (.on name op (.expression e))) ↔
      deepest 0 .outside text.toList ≤ defaultDepth ∧
        ofText limit (name ++ " " ++ op.token ++ " " ++ trimmed text) =
          .ok (.leaf (.on name op (.expression e)))) ∧
    (defaultDepth < deepest 0 .outside text.toList →
      Node.ofJson? (storedComparison name op text) =
        some (.leaf (.on name op (.string text)))) := by
  change ofText limit (comparison name op text) = _ at h
  obtain ⟨hop, rfl⟩ := leaf_of_comparison hname hnot h he
  have htight : Text.Tight (trimmed text).toList := by
    rw [trimmed, String.toList_ofList]
    exact Text.tight_trim text.toList
  -- the limit is kept as well without the white space
  have hshallow : ∀ limit, Shallow limit 0 (trimmed text).toList ↔
      deepest 0 .outside text.toList ≤ limit := by
    intro limit
    rw [shallow_iff_deepest, trimmed, String.toList_ofList, deepest_trim]
  have hkept : Shallow limit 0 (trimmed text).toList := by
    obtain ⟨before, hbefore, hsplit⟩ := exists_prefix_comparison hname op text
    have hdepth := checkDepth_eq_ok.1 (checkDepth_of_ofText h)
    rw [hsplit, hbefore.shallow_append, shallow_iff_deepest] at hdepth
    exact (hshallow limit).2 hdepth
  have hleaf : ∀ o, (Operand.ofStored op text).toOption.map (fun o => leaf (.on name op o)) =
      some (.leaf (.on name op o)) ↔ Operand.ofStored op text = .ok o := by
    intro o
    rw [Option.map_eq_some_iff]
    simp [Filter.on, toOption_eq_some]
  refine ⟨?_, fun hdeep => ?_⟩
  · change _ ↔ _ ∧ ofText limit (comparison name op (trimmed text)) = _
    rw [ofJson?_storedComparison, hleaf, Operand.ofStored_eq_expression, ← Operand.ofText_trimmed,
      Operand.ofText_eq_ok htight, hshallow, ofText_eq_leaf hop hname htight]
    simp only [hnot, hkept, ne_eq, not_false_eq_true, true_and]
  · rw [ofJson?_storedComparison, hleaf]
    exact Operand.ofStored_of_tooDeep hdeep

/-- A tree is a comparison with an expression if it is the same as one. -/
theorem eq_leaf_of_same {node : Node}
    (h : node.same (.leaf (.on name op (.expression e))) = true) :
    node = .leaf (.on name op (.expression e)) := by
  cases node with
  | group form logic members => cases h
  | leaf g =>
    obtain ⟨field, op', operand⟩ := g
    cases operand with
    | expression e' =>
      simp only [same, Filter.same, Filter.on, Operand.same, Bool.and_eq_true, beq_iff_eq] at h
      obtain ⟨⟨rfl, rfl⟩, rfl⟩ := h
      rfl
    | _ => simp [same, Filter.same, Filter.on, Operand.same] at h

theorem ofText_eq_leaf_of_same
    (h : (ofText limit text).toOption.any (·.same (.leaf (.on name op (.expression e)))) = true) :
    ofText limit text = .ok (.leaf (.on name op (.expression e))) := by
  rw [Option.any_eq_true] at h
  obtain ⟨node, hnode, hsame⟩ := h
  rw [← eq_leaf_of_same hsame]
  exact toOption_eq_some.1 hnode

/-- A negated set of a range and of alternatives with a quoted keyword, between a blank and a
tab. -/
theorem storedComparison_iff_sets : ∃ e : Expression,
    ofText 3 "Team_2 neq  !\x7b[2024-01-01 to *],(a|\"b) or C eq\"*)\x7d\t" =
        .ok (.leaf (.on "Team_2" .neq (.expression e))) ∧
      Node.ofJson? (storedComparison "Team_2" .neq
          " !\x7b[2024-01-01 to *],(a|\"b) or C eq\"*)\x7d\t") =
        some (.leaf (.on "Team_2" .neq (.expression e))) := by
  let e : Expression := .not (.oneOf [.range (.from (.date ⟨2024, 1, 1, by decide, by decide,
    by decide, by decide, by decide, by decide⟩)),
    .or (.constant "a") (.startsWith ⟨"b) or C eq", by decide⟩)])
  have hname : Grammar.IsIdentifier "Team_2".toList :=
    ⟨'T', ['e', 'a', 'm', '_', '2'], rfl, by decide, forall_mem_of_all (by decide)⟩
  have hnot : "Team_2".toList.map Char.toLower ≠ ['n', 'o', 't'] := by decide +kernel
  have hread : ofText 3 ("Team_2" ++ " " ++ Operator.neq.token ++ " " ++
      " !\x7b[2024-01-01 to *],(a|\"b) or C eq\"*)\x7d\t") =
        .ok (.leaf (.on "Team_2" .neq (.expression e))) :=
    ofText_eq_leaf_of_same (by decide +kernel)
  have htrimmed : ofText 3 ("Team_2" ++ " " ++ Operator.neq.token ++ " " ++
      trimmed " !\x7b[2024-01-01 to *],(a|\"b) or C eq\"*)\x7d\t") =
        .ok (.leaf (.on "Team_2" .neq (.expression e))) :=
    ofText_eq_leaf_of_same (by decide +kernel)
  have hdeepest : deepest 0 .outside
      " !\x7b[2024-01-01 to *],(a|\"b) or C eq\"*)\x7d\t".toList ≤ defaultDepth := by
    decide +kernel
  have hstored := (storedComparison_iff hname hnot hread rfl).1.2 ⟨hdeepest, htrimmed⟩
  exact ⟨e, ofText_eq_leaf_of_same (by decide +kernel), hstored⟩

/-- A text in sets within each other. -/
def nestedSets : Nat → Expression
  | 0 => .constant "x"
  | n + 1 => .oneOf [nestedSets n]

theorem nesting_nestedSets (n : Nat) : (nestedSets n).nesting = n := by
  induction n with
  | zero => rfl
  | succ n ih =>
    rw [nestedSets, Expression.nesting, Expression.listNesting, Expression.listNesting, ih,
      Nat.max_zero]

theorem normal_nestedSets (n : Nat) : (nestedSets n).Normal := by
  induction n with
  | zero => exact trivial
  | succ n ih =>
    have hchoice : (nestedSets n).isDisjunction = false := by cases n <;> rfl
    exact ⟨by simp, by simpa using hchoice, ih, trivial⟩

/-- Not every comparison is read alike in its stored form: sets that nest deeper than where nothing
else is set are read under a larger limit, but their stored text stands for itself. -/
theorem exists_demoted : ¬∀ (limit : Nat) (op : Operator) (name text : String) (f : Filter)
    (e : Expression), Grammar.IsIdentifier name.toList → name ≠ "not" →
      ofText limit (name ++ " " ++ op.token ++ " " ++ text) = .ok (.leaf f) →
        f.operand = .expression e →
          Node.ofJson? (storedComparison name op text) =
            some (.leaf (.on name op (.expression e))) := by
  intro hall
  have hname : Grammar.IsIdentifier "F".toList := ⟨'F', [], rfl, by decide, by simp⟩
  have hnot : "F".toList.map Char.toLower ≠ ['n', 'o', 't'] := by decide +kernel
  have hliteral : ∀ l, nestedSets 33 ≠ .literal l := by
    intro l hl
    cases hl
  have hop : Operator.eq.requiresValue = true := rfl
  have hread := ofText_written hop hname hnot (normal_nestedSets 33) hliteral
    (Nat.le_of_eq (nesting_nestedSets 33))
  have hstored := hall 33 .eq "F" _ _ _ hname (by decide) hread rfl
  have hdeep : defaultDepth < deepest 0 .outside
      (String.ofList (nestedSets 33).text).toList := by decide +kernel
  rw [ofJson?_storedComparison, Operand.ofStored_of_tooDeep hdeep] at hstored
  cases hstored

end Node

end Sift
