import Sift.Proofs.Meaning

/-!
# Rendered filters

* `Node.meansSame_rendered`: what a filter text is read as and what the text of that is read as
  mean the same.
-/

namespace Sift

/-- **Rendering never changes what a filter means.** Where the text of a filter that was read can
be read again, either both trees compile for a type or neither does, and both accept the same
records. -/
theorem Node.meansSame_rendered {limit limit' : Nat} {text : String} {node node' : Node}
    (h : Node.ofText limit text = .ok node)
    (h' : Node.ofText limit' (String.ofList node.text) = .ok node') : node.MeansSame node' := by
  rcases Node.legible_ofText h with rfl | hlegible
  · exact absurd h' (Node.ofText_always limit' node')
  · have hdepth : checkDepth limit' (String.ofList node.text) = .ok () := by
      unfold Node.ofText at h'
      obtain ⟨_, hdepth, -⟩ := bind_eq_ok.1 h'
      exact hdepth
    rw [Node.ofText_text hlegible hdepth] at h'
    exact Node.meansSame_reread hlegible h'

/-- A grouped literal, a disjunction in a set and a text in parentheses are read again as other
trees, which mean the same. -/
theorem meansSame_rendered_groups : ∃ node node' : Node,
    Node.ofText defaultDepth "A eq (x) and B eq {(x|y),z} or not C contains (z)" = .ok node ∧
      Node.ofText defaultDepth (String.ofList node.text) = .ok node' ∧
      node.same node' = false ∧ node.MeansSame node' := by
  have hsame : ((Node.ofText defaultDepth
      "A eq (x) and B eq {(x|y),z} or not C contains (z)").toOption.bind fun a =>
        (Node.ofText defaultDepth (String.ofList a.text)).toOption.map fun b => a.same b) =
      some false := by decide +kernel
  obtain ⟨node, hnode, hsame⟩ := Option.bind_eq_some_iff.1 hsame
  obtain ⟨node', hnode', hsame⟩ := Option.map_eq_some_iff.1 hsame
  have hfirst := toOption_eq_some.1 hnode
  have hsecond := toOption_eq_some.1 hnode'
  exact ⟨node, node', hfirst, hsecond, hsame, Node.meansSame_rendered hfirst hsecond⟩

end Sift
