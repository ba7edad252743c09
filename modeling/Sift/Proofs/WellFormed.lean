import Sift.Proofs.Readability

/-!
# Filters that are read are well-formed

* `FieldPath.Readable.fieldNames_written`: the field of a comparison that is read is a path by
  itself.
* `Expression.WellFormed`, `Operand.WellFormed`, `Filter.WellFormed`, `Node.WellFormed`: what
  the rest of a program may rely on when it is given a filter tree.
* `Node.WellFormed.negate`: negation keeps it.
* `Node.wellFormed_ofText`: **a text is read as the tree that accepts everything, if it is blank,
  and as a well-formed tree otherwise.**
-/

namespace Sift

open Scan (Reads)
open Text (Tight)

/-! ## Fields -/

theorem Text.isBlank_of_isWord {c : Char} (h : isWord c = true) : isBlank c = false := by
  -- no white space is among the codes from that of `A` to that of `z`
  have hletter : 65 ≤ c.toNat → c.toNat ≤ 122 → isBlank c = false := by
    intro hmin hmax
    simp only [isBlank, Bool.or_eq_false_iff, Bool.and_eq_false_iff, decide_eq_false_iff_not,
      beq_eq_false_iff_ne]
    omega
  change (((c.isUpper || c.isLower) || c.isDigit) || c == '_') = true at h
  simp only [Bool.or_eq_true, beq_iff_eq] at h
  rcases h with ((h | h) | h) | rfl
  · have hrange : 'A'.val ≤ c.val ∧ c.val ≤ 'Z'.val := of_decide_eq_true h
    have hmax : c.toNat ≤ 90 := hrange.2
    exact hletter hrange.1 (by omega)
  · obtain ⟨hmin, hmax⟩ := (Bool.and_eq_true _ _).mp h
    have hmin : 97 ≤ c.toNat := of_decide_eq_true hmin
    exact hletter (by omega) (of_decide_eq_true hmax)
  · exact isBlank_of_isDigit h
  · decide

theorem Grammar.IsIdentifier.tight {cs : List Char} (h : IsIdentifier cs) : Tight cs :=
  Text.tight_of_all fun c hc => Text.isBlank_of_isWord (h.isWord c hc)

theorem PathStep.tight_written {s : PathStep}
    (h : ∀ name, s = dotted name → Grammar.IsIdentifier name) : Tight s.written := by
  cases s with
  | dotted name => exact Tight.cons (by decide) (h name rfl).tight
  | bracketed inner =>
    have hends : (PathStep.bracketed inner).written =
        '[' :: (('"' :: inner ++ ['"']) ++ [']']) := by
      simp [PathStep.written]
    rw [hends]
    exact Text.tight_between (by decide) (by decide) _

/-- No blanks stand at the ends of a path of names. -/
theorem FieldPath.trimmed_written {path : FieldPath} (hfirst : Grammar.IsIdentifier path.first)
    (hnames : ∀ name, .dotted name ∈ path.steps → Grammar.IsIdentifier name) :
    trimmed path.written = path.written := by
  have hsteps : ∀ steps : List PathStep,
      (∀ name, .dotted name ∈ steps → Grammar.IsIdentifier name) →
      Tight (steps.flatMap PathStep.written) := by
    intro steps hnames
    induction steps with
    | nil => exact Text.tight_of_all (by simp)
    | cons s steps ih =>
      rw [List.flatMap_cons]
      have hs : Tight s.written := PathStep.tight_written fun name hname =>
        hnames name (hname ▸ List.mem_cons_self)
      exact hs.append (ih fun name hname => hnames name (List.mem_cons_of_mem s hname))
  have htight : Tight path.written.toList := by
    rw [FieldPath.written, String.toList_ofList]
    exact hfirst.tight.append (hsteps path.steps hnames)
  rw [trimmed, Text.trim_of_tight htight, String.ofList_toList]

namespace FieldPath.Readable

variable {path : FieldPath}

/-- **The field of a comparison is a path by itself**, of the names that it was read with. -/
theorem fieldNames_written (h : path.Readable) : fieldNames path.written = .ok path.names := by
  have htrimmed : trimmed path.written = path.written :=
    trimmed_written h.first fun _ hname => h.steps _ hname
  have hreads : Reads Grammar.field (· = path) path.written.toList [] := by
    have hends : Grammar.EndsPath [] := by simp [Grammar.EndsPath]
    have hread := Grammar.reads_field h hends
    rwa [List.append_nil] at hread
  obtain ⟨found, rfl, hwhole⟩ := scannedWhole_of_reads hreads.upTo .afterPath
  rw [fieldNames, htrimmed, hwhole]
  rfl

end FieldPath.Readable

/-! ## Well-formed trees -/

mutual

/-- **The expressions that are well-formed**: no negation of a negation, no empty set, no empty text
to look for, and no range without ends. -/
def Expression.WellFormed : Expression → Prop
  | .literal _ | .anything => True
  | .oneOf choices => choices ≠ [] ∧ Expression.AllWellFormed choices
  | .contains f | .startsWith f | .endsWith f => f.text ≠ ""
  | .not e => e.isNegation = false ∧ e.WellFormed
  | .or left right => left.WellFormed ∧ right.WellFormed
  | .range i => i.min?.isSome = true ∨ i.max?.isSome = true

/-- Several such expressions. -/
def Expression.AllWellFormed : List Expression → Prop
  | [] => True
  | e :: rest => e.WellFormed ∧ Expression.AllWellFormed rest

end

/-- **The operands that are well-formed** behind an operator: nothing behind a check for null or
empty, an expression behind a text operator, and otherwise nothing, a text or an expression. -/
structure Operand.WellFormed (op : Operator) (o : Operand) : Prop where
  check : op.requiresValue = false → o = .null
  text : op.isText = true → ∃ e, o = .expression e
  shape : o = .null ∨ (∃ s, o = .string s) ∨ ∃ e, o = .expression e ∧ e.WellFormed

/-- **The comparisons that are well-formed**: of a field whose path is read. -/
structure Filter.WellFormed (f : Filter) : Prop where
  field : ∃ path names, f.field = some path ∧ fieldNames path = .ok names
  operand : f.operand.WellFormed f.operator

mutual

/-- **The trees that are well-formed**: every group is one of those that are read, with at least two
members. -/
def Node.WellFormed : Node → Prop
  | .leaf f => f.WellFormed
  | .group form _ members => form = .multi ∧ 2 ≤ members.length ∧ Node.AllWellFormed members

/-- Several such trees. -/
def Node.AllWellFormed : List Node → Prop
  | [] => True
  | node :: rest => node.WellFormed ∧ Node.AllWellFormed rest

end

theorem Node.allWellFormed_iff {nodes : List Node} :
    Node.AllWellFormed nodes ↔ ∀ node ∈ nodes, node.WellFormed := by
  induction nodes with
  | nil => simp [Node.AllWellFormed]
  | cons node nodes ih => simp [Node.AllWellFormed, ih]

/-! ## What is read is well-formed -/

mutual

theorem Expression.Legible.wellFormed : ∀ {e : Expression}, e.Legible → e.WellFormed
  | .literal _, _ | .anything, _ => trivial
  | .contains f, _ | .startsWith f, _ | .endsWith f, _ => f.text_ne
  | .oneOf _, h => ⟨h.1, h.2.allWellFormed⟩
  | .not _, h => ⟨h.1, h.2.wellFormed⟩
  | .or _ _, h => ⟨h.1.wellFormed, h.2.wellFormed⟩
  | .range i, _ => by cases i <;> simp [Expression.WellFormed, Interval.min?, Interval.max?]

theorem Expression.AllLegible.allWellFormed : ∀ {es : List Expression},
    Expression.AllLegible es → Expression.AllWellFormed es
  | [], _ => trivial
  | _ :: _, h => ⟨h.1.wellFormed, h.2.allWellFormed⟩

end

theorem Filter.Legible.wellFormed {limit : Nat} {f : Filter} (h : f.Legible limit) :
    f.WellFormed := by
  obtain ⟨path, hpath, hfield⟩ := h.field
  have hoperand : f.operand.WellFormed f.operator := by
    rcases h.operand.cases with ⟨hnull, htext⟩ | ⟨s, hs, htext⟩ | ⟨e, he, hlegible⟩
    · exact ⟨h.null, fun hop => absurd hop (by simp [htext]), Or.inl hnull⟩
    · exact ⟨h.null, fun hop => absurd hop (by simp [htext]), Or.inr (Or.inl ⟨s, hs⟩)⟩
    · exact ⟨h.null, fun _ => ⟨e, he⟩, Or.inr (Or.inr ⟨e, he, hlegible.wellFormed⟩)⟩
  exact ⟨⟨path.written, path.names, hfield, hpath.readable.fieldNames_written⟩, hoperand⟩

theorem Filter.WellFormed.negate {f : Filter} (h : f.WellFormed) : f.negate.WellFormed := by
  obtain ⟨hfield, hcheck, htext, hshape⟩ := h
  refine ⟨hfield, fun hop => hcheck ?_, fun hop => htext ?_, hshape⟩
  · rw [← hop]
    exact (Operator.requiresValue_invert f.operator).symm
  · rw [← hop]
    exact (Operator.isText_invert f.operator).symm

mutual

/-- **Negation keeps a tree well-formed.** -/
theorem Node.WellFormed.negate : ∀ {node : Node}, node.WellFormed → node.negate.WellFormed
  | .leaf f, h => by
    rw [Node.negate]
    exact Filter.WellFormed.negate h
  | .group form logic members, h => by
    obtain ⟨hform, hlength, hmembers⟩ := h
    rw [Node.negate]
    exact ⟨hform, (Node.length_negateAll members).symm ▸ hlength, hmembers.negateAll⟩

theorem Node.AllWellFormed.negateAll : ∀ {nodes : List Node},
    Node.AllWellFormed nodes → Node.AllWellFormed (Node.negateAll nodes)
  | [], _ => trivial
  | _ :: _, h => ⟨h.1.negate, h.2.negateAll⟩

end

theorem Phrase.wellFormed_node {limit : Nat} {source : String} {p : Phrase} {node : Node}
    (hvalid : p.Valid limit) (h : p.node source = .ok node) : node.WellFormed := by
  refine Phrase.node_induction (P := Node.WellFormed) ?_ ?_ ?_ hvalid h
  · intro path op value f hclause hf
    exact (FieldPath.legible_filter hclause hf).wellFormed
  · exact fun node hnode => hnode.negate
  · intro logic nodes hlength hnodes
    exact ⟨rfl, hlength, Node.allWellFormed_iff.2 hnodes⟩

namespace Node

variable {limit : Nat} {text : String} {node : Node}

/-- **What a text is read as is well-formed**, and so is its negation. A blank text is read as the
tree that accepts everything, whose negation has no field and nothing to compare with either. -/
theorem wellFormed_ofText (h : ofText limit text = .ok node) :
    (Scan.AllBlank text.toList ∧ node = .always ∧ node.negate = .leaf ⟨none, .neq, .null⟩) ∨
      (¬Scan.AllBlank text.toList ∧ node.WellFormed ∧ node.negate.WellFormed) := by
  by_cases hblank : Scan.AllBlank text.toList
  · obtain rfl := ofText_blank h hblank
    exact Or.inl ⟨hblank, rfl, rfl⟩
  · obtain ⟨n, p, -, -, -, hvalid, hnode, -⟩ := exists_phrase h hblank
    have hwellFormed : node.WellFormed := Phrase.wellFormed_node hvalid hnode
    exact Or.inr ⟨hblank, hwellFormed, hwellFormed.negate⟩

/-- Negations of groups and of negations, of a set and of a range, next to a name in brackets. -/
theorem wellFormed_ofText_nested :
    ∃ text node, ofText 4 text = .ok node ∧ ¬Scan.AllBlank text.toList ∧ node.WellFormed ∧
      node.negate.WellFormed := by
  let text := "not (A[\"x y\"] contains !!b or not (B isnull and C eq !{1|*,[* to 5]}))"
  have hreads : (ofText 4 text).isOk = true := by decide +kernel
  have hblank : ¬Scan.AllBlank text.toList := by
    intro hall
    have hfirst := hall 'n' (by decide +kernel)
    revert hfirst
    decide
  cases hnode : ofText 4 text with
  | error e => rw [hnode] at hreads; cases hreads
  | ok node =>
    rcases wellFormed_ofText hnode with ⟨hall, -, -⟩ | ⟨-, hwellFormed, hnegate⟩
    · exact absurd hall hblank
    · exact ⟨text, node, hnode, hblank, hwellFormed, hnegate⟩

end Node

end Sift
