import Sift.Proofs.Meaning
import Sift.Proofs.Stored

/-!
# Filters in storage

* `Node.meansSame_stored`: what a filter text is read as means the same after it was stored.
* `Node.restored_iff`: which filters are read back at all.
-/

namespace Sift

namespace Node

/-- The filter that accepts everything is read back. -/
theorem ofStored?_always : ofStored? always.stored = some always := by
  have hkept : always.json.Kept ∧ always.json.depth = 1 := Filter.kept_json (f := .always) rfl
  have hdepth : always.json.depth ≤ JsonGrammar.maxDepth := by
    rw [hkept.2]
    decide
  unfold ofStored? stored
  rw [Json.read?_text hkept.1 hdepth, Option.bind_some, always, json, ofJson?_leaf, Filter.always,
    Filter.ofJson_null]
  rfl

/-- **A stored filter accepts what it accepted before.** Where the stored text of a filter that was
read is read back, either both trees compile for a type or neither does, and both accept the same
records. -/
theorem meansSame_stored {text : String} {node node' : Node}
    (h : Node.ofText defaultDepth text = .ok node) (h' : ofStored? node.stored = some node') :
    node.MeansSame node' := by
  rcases legible_ofText h with rfl | hlegible
  · rw [ofStored?_always] at h'
    cases h'
    exact MeansSame.refl always
  · exact meansSame_reread hlegible ((ofStored?_stored hlegible).1 h').2.2

/-- A literal and a text to look for, both in parentheses, are read back as another tree, which
means the same. -/
theorem meansSame_stored_groups : ∃ node node' : Node,
    Node.ofText defaultDepth "A eq (x) or not B contains (y)" = .ok node ∧
      ofStored? node.stored = some node' ∧ node.same node' = false ∧ node.MeansSame node' := by
  have hsame : ((Node.ofText defaultDepth "A eq (x) or not B contains (y)").toOption.bind fun a =>
      (ofStored? a.stored).map fun b => a.same b) = some false := by decide +kernel
  obtain ⟨node, hnode, hsame⟩ := Option.bind_eq_some_iff.1 hsame
  obtain ⟨node', hnode', hsame⟩ := Option.map_eq_some_iff.1 hsame
  have hread := toOption_eq_some.1 hnode
  exact ⟨node, node', hread, hnode', hsame, meansSame_stored hread hnode'⟩

/-- **Which filters are read back** from what they are stored as: those whose groups do not nest too
deep, if no operand is an empty text to look for or a text that is read as one. -/
theorem restored_iff {text : String} {node : Node} (h : Node.ofText defaultDepth text = .ok node) :
    (∃ node', ofStored? node.stored = some node') ↔
      node.groupDepth ≤ storedDepth ∧ node.Storable := by
  rcases legible_ofText h with rfl | hlegible
  · exact ⟨fun _ => ⟨Nat.zero_le _, trivial⟩, fun _ => ⟨always, ofStored?_always⟩⟩
  · constructor
    · rintro ⟨node', hnode'⟩
      obtain ⟨hdepth, hs, -⟩ := (ofStored?_stored hlegible).1 hnode'
      exact ⟨hdepth, hs⟩
    · rintro ⟨hdepth, hs⟩
      obtain ⟨node', hreread⟩ := Storable.reread .composite hlegible hs
      exact ⟨node', (ofStored?_stored hlegible).2 ⟨hdepth, hs, hreread⟩⟩

/-- An empty text in parentheses behind a text operator is lost. -/
theorem restored_iff_parentheses : ∃ node : Node,
    Node.ofText defaultDepth "F contains (\"\")" = .ok node ∧ ofStored? node.stored = none ∧
      ¬(node.groupDepth ≤ storedDepth ∧ node.Storable) := by
  have hlost : ((Node.ofText defaultDepth "F contains (\"\")").toOption.map fun node =>
      (ofStored? node.stored).isNone) = some true := by decide +kernel
  obtain ⟨node, hnode, hnone⟩ := Option.map_eq_some_iff.1 hlost
  have hread := toOption_eq_some.1 hnode
  rw [Option.isNone_iff_eq_none] at hnone
  refine ⟨node, hread, hnone, fun hs => ?_⟩
  obtain ⟨node', hnode'⟩ := (restored_iff hread).2 hs
  rw [hnone] at hnode'
  cases hnode'

/-- Not every filter that is read is read back: a text in quotes that is read as a search for
nothing without them is stored without them, and lost. -/
theorem exists_not_restored : ¬∀ (text : String) (node : Node),
    Node.ofText defaultDepth text = .ok node → ∃ node', ofStored? node.stored = some node' := by
  intro hall
  have hlost : ((Node.ofText defaultDepth "F eq \"\\\"\\\"*\"").toOption.map fun node =>
      (ofStored? node.stored).isNone) = some true := by decide +kernel
  obtain ⟨node, hnode, hnone⟩ := Option.map_eq_some_iff.1 hlost
  obtain ⟨node', hnode'⟩ := hall _ node (toOption_eq_some.1 hnode)
  rw [Option.isNone_iff_eq_none.1 hnone] at hnode'
  cases hnode'

end Node

end Sift
