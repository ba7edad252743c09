import Sift.Proofs.Composition
import Sift.Proofs.NormalForm
import Sift.Proofs.Stored

/-!
# Which rendered filters can be read

* `Node.ofText_blank`: a blank text is read as the tree that accepts everything.
* `Node.exists_reread`: a tree can be reread unless an empty text is looked for in it.
* `Node.rendered_iff_readable`: **which filters can be read again after they were written**;
  `Node.exists_not_readable`: not all of them.
-/

namespace Sift

open Scan

/-! ## Blank texts -/

namespace Grammar

/-- In a blank text no phrase is found. -/
theorem reads_input_blank (depth : Nat) {cs : List Char} (h : AllBlank cs) :
    Reads (input depth) (· = none) cs [] := by
  have hnone : Reads (spaced (optional (disjunction (Grammar.member depth)))) (· = none) cs [] :=
    Reads.spaced_to (afterBlanks_eq_nil_iff.2 h) (Reads.optional_none
      (fails_disjunction depth rfl (by simp [EndsName]) (by simp)) rfl)
  refine Reads.named (hnone.bind fun found hfound => ?_)
  refine Reads.bind (P := fun _ => True) (Reads.spaced_to rfl ?_) fun _ _ => Reads.pure hfound
  exact (Reads.notBefore (by simp) trivial).named

end Grammar

namespace Node

variable {limit : Nat} {text : String} {node : Node}

/-- **A blank text is read as the tree that accepts everything.** -/
theorem ofText_blank (h : Node.ofText limit text = .ok node) (hblank : AllBlank text.toList) :
    node = always := by
  unfold Node.ofText at h
  obtain ⟨_, -, h⟩ := bind_eq_ok.1 h
  obtain ⟨⟨found, consumed⟩, hscanned, h⟩ := bind_eq_ok.1 h
  obtain ⟨there, hfound, -⟩ := scanned_eq_ok.1 hscanned
  obtain ⟨found', there', hread, -, -, rfl⟩ :=
    Grammar.reads_input_blank (text.length + 1) hblank (Cursor.start text.toList) rfl
  rw [hread] at hfound
  cases hfound
  cases h
  rfl

/-- A text is blank if it is read as the tree that accepts everything. -/
theorem allBlank_of_ofText (h : Node.ofText limit text = .ok always) : AllBlank text.toList := by
  by_contra hblank
  obtain ⟨n, p, -, -, -, hvalid, hnode, -⟩ := exists_phrase h hblank
  -- every comparison that a phrase stands for has a field
  have hpath := (Phrase.legible_node hvalid hnode).path?_isSome .always
    (by rw [always, filters, List.mem_singleton])
  cases hpath

end Node

/-! ## Trees that can be reread -/

/-- An operand is reread unless it is an empty text to look for. -/
theorem Operand.exists_reread {op : Operator} {o : Operand}
    (h : op.isText = true → o ≠ .expression (.literal (.text ""))) :
    ∃ o', o.reread op = .ok o' := by
  cases o with
  | null | scalar _ | list _ => exact ⟨_, rfl⟩
  | expression e =>
    refine (reread_cases op e).elim (·.2) fun hnot => absurd ?_ hnot.1
    cases e with
    | literal l => exact fun hop hl => h hop (hl ▸ rfl)
    | _ => trivial

namespace Node

mutual

/-- **A tree can be reread** unless an empty text is looked for in it. -/
theorem exists_reread (form : GroupForm) : ∀ {node : Node}, (∀ f ∈ node.filters,
    f.operator.isText = true → f.operand ≠ .expression (.literal (.text ""))) →
      ∃ node', node.reread form = .ok node'
  | .leaf f, h => by
    rw [filters, List.forall_mem_singleton] at h
    obtain ⟨o, ho⟩ := Operand.exists_reread h
    exact ⟨_, map_eq_ok.2 ⟨_, map_eq_ok.2 ⟨o, ho, rfl⟩, rfl⟩⟩
  | .group _ _ members, h => by
    rw [filters] at h
    obtain ⟨nodes, hnodes⟩ := exists_rereadAll form h
    exact ⟨_, map_eq_ok.2 ⟨nodes, hnodes, rfl⟩⟩

theorem exists_rereadAll (form : GroupForm) : ∀ {nodes : List Node}, (∀ f ∈ filtersOf nodes,
    f.operator.isText = true → f.operand ≠ .expression (.literal (.text ""))) →
      ∃ nodes', rereadAll form nodes = .ok nodes'
  | [], _ => ⟨[], rfl⟩
  | node :: rest, h => by
    rw [filtersOf, List.forall_mem_append] at h
    obtain ⟨n, hn⟩ := exists_reread form h.1
    obtain ⟨ns, hns⟩ := exists_rereadAll form h.2
    exact ⟨n :: ns, bind_eq_ok.2 ⟨n, hn, bind_eq_ok.2 ⟨ns, hns, rfl⟩⟩⟩

end

/-- **Which filters can be read again after they were written.** Where a filter text was read and
looks for no empty text in parentheses, the text of the tree can be read if and only if the first
text was not blank and the brackets of the second nest no deeper than a filter text may.

What a blank text is read as is written as an asterisk, which is no filter text. Parentheses are
written around every group in a group, also where none were needed in the first text. -/
theorem rendered_iff_readable {text : String} {node : Node}
    (h : Node.ofText defaultDepth text = .ok node)
    (hsearch : ∀ f ∈ node.filters,
      f.operator.isText = true → f.operand ≠ .expression (.literal (.text ""))) :
    (∃ node', Node.ofText defaultDepth (String.ofList node.text) = .ok node') ↔
      ¬AllBlank text.toList ∧ deepest 0 .outside node.text ≤ 32 := by
  rcases legible_ofText h with rfl | hlegible
  · have hblank := allBlank_of_ofText h
    exact ⟨fun ⟨node', hnode'⟩ => absurd hnode' (ofText_always _ node'), fun hnot =>
      absurd hblank hnot.1⟩
  have hdepth : checkDepth defaultDepth (String.ofList node.text) = .ok () ↔
      deepest 0 .outside node.text ≤ 32 := by
    rw [checkDepth_iff_deepest, String.toList_ofList]
    rfl
  constructor
  · rintro ⟨node', hnode'⟩
    refine ⟨fun hblank => ?_, hdepth.1 (checkDepth_of_ofText hnode')⟩
    rw [ofText_blank h hblank] at hnode'
    exact ofText_always _ node' hnode'
  · rintro ⟨-, hnesting⟩
    obtain ⟨node', hreread⟩ := exists_reread .multi hsearch
    exact ⟨node', (ofText_text hlegible (hdepth.2 hnesting)).trans hreread⟩

/-- Groups that get more parentheses than they had, around a quote in parentheses and a set. -/
theorem rendered_iff_readable_groups : ∃ node node' : Node,
    Node.ofText defaultDepth
        "A isnull or B contains (\"\\\"\") and not (C eq {x,(y)} or not D lt 1)" = .ok node ∧
      String.ofList node.text =
        "A isnull or (B contains \"\\\"\" and (C neq {x,y} and D lt 1))" ∧
      Node.ofText defaultDepth (String.ofList node.text) = .ok node' := by
  have hread : ((Node.ofText defaultDepth
      "A isnull or B contains (\"\\\"\") and not (C eq {x,(y)} or not D lt 1)").toOption.map
        fun a => (decide (String.ofList a.text =
            "A isnull or (B contains \"\\\"\" and (C neq {x,y} and D lt 1))" ∧
              deepest 0 .outside a.text ≤ 32),
          a.filters.all fun f =>
            !f.operator.isText || !f.operand.same (.expression (.constant "")))) =
      some (true, true) := by decide +kernel
  obtain ⟨node, hnode, hread⟩ := Option.map_eq_some_iff.1 hread
  obtain ⟨hwritten, hall⟩ := Prod.mk.inj hread
  obtain ⟨htext, hnesting⟩ := of_decide_eq_true hwritten
  have hsearch : ∀ f ∈ node.filters,
      f.operator.isText = true → f.operand ≠ .expression (.literal (.text "")) := by
    intro f hf hop hempty
    have hnot := List.all_eq_true.1 hall f hf
    rw [hop, hempty] at hnot
    exact absurd hnot (by decide)
  have hblank : ¬AllBlank
      "A isnull or B contains (\"\\\"\") and not (C eq {x,(y)} or not D lt 1)".toList :=
    fun h => absurd (h 'A' (by decide)) (by decide)
  have hfirst := toOption_eq_some.1 hnode
  obtain ⟨node', hnode'⟩ := (rendered_iff_readable hfirst hsearch).2 ⟨hblank, hnesting⟩
  exact ⟨node, node', hfirst, htext, hnode'⟩

/-- A comparison with a set in sets, in a conjunction in a disjunction. -/
def nestedSet (depth : Nat) : String :=
  "A isnull or A isnull and B eq " ++
    String.ofList (List.replicate depth '\x7b' ++ 'x' :: List.replicate depth '\x7d')

/-- A text that is read, but not again after it was written, as a computation. -/
theorem exists_unreadable {text : String}
    (h : ((Node.ofText defaultDepth text).toOption.map fun a =>
      (Node.ofText defaultDepth (String.ofList a.text)).isOk) = some false) :
    ∃ node, Node.ofText defaultDepth text = .ok node ∧
      ∀ node', Node.ofText defaultDepth (String.ofList node.text) ≠ .ok node' := by
  obtain ⟨node, hnode, hfails⟩ := Option.map_eq_some_iff.1 h
  refine ⟨node, toOption_eq_some.1 hnode, fun node' hnode' => ?_⟩
  rw [hnode'] at hfails
  cases hfails

/-- Not every filter can be read again after it was written: neither that of a blank text, nor one
whose brackets nest as deep as they may, which get another pair of parentheses around them. -/
theorem exists_not_readable :
    (∃ node, Node.ofText defaultDepth "" = .ok node ∧
        ∀ node', Node.ofText defaultDepth (String.ofList node.text) ≠ .ok node') ∧
      ∃ node, Node.ofText defaultDepth (nestedSet 32) = .ok node ∧
        ∀ node', Node.ofText defaultDepth (String.ofList node.text) ≠ .ok node' :=
  ⟨exists_unreadable (by decide +kernel), exists_unreadable (by decide +kernel)⟩

end Node

end Sift
