import Sift.Proofs.Taken

/-!
# What filter texts are read as

* `Filter.Legible`, `Node.Legible`: the comparisons and trees that can be written again.
* `Phrase.node_induction`: induction over what phrases stand for.
* `Node.legible_ofText`: a text that is not blank is read as such a tree.
-/

namespace Sift

/-- **The comparisons that are read**: of a field that is read, with an operand that can be written
again in brackets of a limited depth. -/
structure Filter.Legible (limit : Nat) (f : Filter) : Prop where
  field : ∃ path : FieldPath, path.Valid ∧ f.field = some path.written
  operand : f.operand.Legible f.operator
  nesting : f.operand.nesting ≤ limit
  null : f.operator.requiresValue = false → f.operand = .null

mutual

/-- **The trees that are read**: groups have at least two members. -/
def Node.Legible (limit : Nat) : Node → Prop
  | .leaf f => f.Legible limit
  | .group _ _ members => 2 ≤ members.length ∧ Node.AllLegible limit members

/-- Several such trees. -/
def Node.AllLegible (limit : Nat) : List Node → Prop
  | [] => True
  | node :: rest => node.Legible limit ∧ Node.AllLegible limit rest

end

theorem Node.allLegible_iff {limit : Nat} {nodes : List Node} :
    Node.AllLegible limit nodes ↔ ∀ node ∈ nodes, node.Legible limit := by
  induction nodes with
  | nil => simp [Node.AllLegible]
  | cons node nodes ih => simp [Node.AllLegible, ih]

theorem Operator.isText_invert (op : Operator) : op.invert.isText = op.isText := by
  cases op <;> rfl

theorem Operator.requiresValue_invert (op : Operator) :
    op.invert.requiresValue = op.requiresValue := by
  cases op <;> rfl

theorem Operand.Legible.invert {op : Operator} {o : Operand} (h : o.Legible op) :
    o.Legible op.invert := by
  unfold Operand.Legible at h ⊢
  split <;> simp_all [Operator.isText_invert]

theorem Filter.Legible.negate {limit : Nat} {f : Filter} (h : f.Legible limit) :
    f.negate.Legible limit :=
  ⟨h.field, h.operand.invert, h.nesting, fun hop =>
    h.null (by rw [← hop]; exact (Operator.requiresValue_invert f.operator).symm)⟩

theorem Node.length_negateAll (nodes : List Node) :
    (Node.negateAll nodes).length = nodes.length := by
  induction nodes with
  | nil => rfl
  | cons node rest ih => simp only [Node.negateAll, List.length_cons, ih]

mutual

theorem Node.Legible.negate {limit : Nat} : ∀ {node : Node}, node.Legible limit →
    node.negate.Legible limit
  | .leaf f, h => by
    rw [Node.negate, Node.Legible] at *
    exact Filter.Legible.negate h
  | .group form logic members, h => by
    rw [Node.negate]
    rw [Node.Legible] at h ⊢
    exact ⟨(Node.length_negateAll members).symm ▸ h.1, h.2.negateAll⟩

theorem Node.AllLegible.negateAll {limit : Nat} : ∀ {nodes : List Node},
    Node.AllLegible limit nodes → Node.AllLegible limit (Node.negateAll nodes)
  | [], _ => trivial
  | _ :: _, h => ⟨h.1.negate, h.2.negateAll⟩

end

theorem FieldPath.legible_filter {limit : Nat} {source : String} {path : FieldPath} {op : Operator}
    {value : Option Value} {f : Filter} (hvalid : (Phrase.clause path op value).Valid limit)
    (h : path.filter source op value = .ok f) : f.Legible limit := by
  obtain ⟨hpath, hop, hvalue⟩ := hvalid
  cases value with
  | none =>
    cases h
    refine ⟨⟨path, hpath, rfl⟩, ?_, Nat.zero_le _, fun _ => rfl⟩
    revert hop
    cases op <;> simp [Filter.on, Operand.Legible, Operator.isText, Operator.requiresValue]
  | some v =>
    obtain ⟨o, ho, rfl⟩ := map_eq_ok.1 h
    obtain ⟨hlegible, hnesting⟩ := Value.facts_of_operand ho
    refine ⟨⟨path, hpath, rfl⟩, hlegible, Nat.le_trans hnesting (hvalue v rfl), fun hnone => ?_⟩
    rw [show (Filter.on path.written op o).operator = op from rfl, hop] at hnone
    cases hnone

section Phrases

variable {limit : Nat} {source : String} {P : Node → Prop}

theorem Node.combine_induction {logic : Logic} {node : Node} {rest : List Node}
    (hgroup : ∀ logic nodes, 2 ≤ nodes.length → (∀ node ∈ nodes, P node) →
      P (.group .multi logic nodes))
    (h : P node) (hrest : ∀ node ∈ rest, P node) : P (.combine logic (node :: rest)) := by
  cases rest with
  | nil => exact h
  | cons second rest =>
    have hlength : 2 ≤ (node :: second :: rest).length := by simp
    exact hgroup logic _ hlength (List.forall_mem_cons.2 ⟨h, hrest⟩)

mutual

/-- **Induction over what phrases stand for**: comparisons of valid clauses, negations, and groups
of at least two members. -/
theorem Phrase.node_induction
    (hleaf : ∀ path op value f, (Phrase.clause path op value).Valid limit →
      path.filter source op value = .ok f → P (.leaf f))
    (hnegate : ∀ node, P node → P node.negate)
    (hgroup : ∀ logic nodes, 2 ≤ nodes.length → (∀ node ∈ nodes, P node) →
      P (.group .multi logic nodes)) :
    ∀ {p : Phrase} {node : Node}, p.Valid limit → p.node source = .ok node → P node
  | .clause path op value, node, hvalid, h => by
    rw [Phrase.node] at h
    obtain ⟨f, hf, rfl⟩ := map_eq_ok.1 h
    exact hleaf path op value f hvalid hf
  | .negated p, node, hvalid, h => by
    rw [Phrase.node] at h
    rw [Phrase.Valid] at hvalid
    obtain ⟨inner, hinner, rfl⟩ := map_eq_ok.1 h
    exact hnegate inner (node_induction hleaf hnegate hgroup hvalid hinner)
  | .all first rest, node, hvalid, h | .any first rest, node, hvalid, h => by
    rw [Phrase.node] at h
    rw [Phrase.Valid] at hvalid
    obtain ⟨inner, hinner, h⟩ := bind_eq_ok.1 h
    obtain ⟨others, hothers, h⟩ := bind_eq_ok.1 h
    cases h
    exact Node.combine_induction hgroup (node_induction hleaf hnegate hgroup hvalid.1 hinner)
      (nodes_induction hleaf hnegate hgroup hvalid.2 hothers)

theorem Phrase.nodes_induction
    (hleaf : ∀ path op value f, (Phrase.clause path op value).Valid limit →
      path.filter source op value = .ok f → P (.leaf f))
    (hnegate : ∀ node, P node → P node.negate)
    (hgroup : ∀ logic nodes, 2 ≤ nodes.length → (∀ node ∈ nodes, P node) →
      P (.group .multi logic nodes)) :
    ∀ {ps : List Phrase} {nodes : List Node}, Phrase.AllValid limit ps →
      Phrase.nodes source ps = .ok nodes → ∀ node ∈ nodes, P node
  | [], nodes, _, h => by
    cases h
    simp
  | p :: rest, nodes, hvalid, h => by
    rw [Phrase.nodes] at h
    obtain ⟨inner, hinner, h⟩ := bind_eq_ok.1 h
    obtain ⟨others, hothers, h⟩ := bind_eq_ok.1 h
    cases h
    exact List.forall_mem_cons.2 ⟨node_induction hleaf hnegate hgroup hvalid.1 hinner,
      nodes_induction hleaf hnegate hgroup hvalid.2 hothers⟩

end

theorem Phrase.legible_node {p : Phrase} {node : Node} (hvalid : p.Valid limit)
    (h : p.node source = .ok node) : node.Legible limit := by
  refine Phrase.node_induction (P := Node.Legible limit) ?_ ?_ ?_ hvalid h
  · intro path op value f hclause hf
    exact FieldPath.legible_filter hclause hf
  · exact fun node hnode => hnode.negate
  · intro logic nodes hlength hnodes
    exact ⟨hlength, Node.allLegible_iff.2 hnodes⟩

end Phrases

theorem scanned_eq_ok {α : Type} {source : String} {p : Scan α} {a : α} {n : Nat} :
    scanned source p = .ok (a, n) ↔
      ∃ there, (p (Cursor.start source.toList)).found = some (a, there) ∧ there.offset = n := by
  unfold scanned
  cases hfound : (p (Cursor.start source.toList)).found with
  | none => simp [hfound]
  | some x => simp [hfound, Prod.ext_iff, and_assoc]

/-- **Whatever a text is read as can be written again**, unless the text is blank. -/
theorem Node.legible_ofText {limit : Nat} {text : String} {node : Node}
    (h : Node.ofText limit text = .ok node) : node = .always ∨ node.Legible limit := by
  unfold Node.ofText at h
  obtain ⟨_, hdepth, h⟩ := bind_eq_ok.1 h
  obtain ⟨⟨found, consumed⟩, hscanned, h⟩ := bind_eq_ok.1 h
  cases found with
  | none => cases h; exact Or.inl rfl
  | some p =>
    refine Or.inr (Phrase.legible_node ?_ h)
    obtain ⟨there, hfound, -⟩ := scanned_eq_ok.1 hscanned
    obtain ⟨cs, hcs, -, first, rest, rfl, htaken⟩ :=
      Grammar.takes_whole _ _ _ _ trivial hfound
    -- the limit on the brackets of the text bounds those of the values
    have hshallow : Shallow limit 0 (cs ++ there.rest) := by
      rw [← hcs]
      unfold checkDepth at hdepth
      split at hdepth
      · cases hdepth
      · next hnone => exact ⟨Nat.zero_le limit, hnone⟩
    rw [htaken.nests] at hshallow
    have hvalid : (Phrase.any first rest).Valid (Phrase.listNesting (first :: rest)) :=
      htaken.valid
    exact hvalid.mono (by omega)

end Sift
