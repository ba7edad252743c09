import Sift.Filter.Reading
import Sift.Proofs.Terms

/-!
# Why filters and values are refused

* `Term.Refuses`: the ranges and patterns without a meaning.
* `Term.pieces`, `Phrase.pieces`: the ranges and patterns of a text.
* `TextRefusal`: the refusals of a text. Its brackets nest too deep, it does not follow the grammar,
  or a range or a pattern in it has no meaning.
* `Node.refusal_of_ofText`, `Operand.refusal_of_ofText`: a text is refused for no other reason.
-/

namespace Sift

/-! ## Ranges and patterns without a meaning -/

/-- **Why a range or a pattern is refused**: two asterisks with nothing between them, a range that
is open at both ends, or nothing to look for. -/
inductive Term.Refuses (source : String) : Term → SyntaxError → Prop
  | twoAsterisks (span : Span) :
    Refuses source (.pattern span .twoAsterisks) (.malformed source span .doubleAsterisk)
  | openRange (span : Span) :
    Refuses source (.range span none none) (.malformed source span .openRange)
  | emptyText (span : Span) (leading trailing : Bool) {w : Word} (h : w.text = []) :
    Refuses source (.pattern span (.word leading w trailing)) .emptyText

mutual

/-- The ranges and patterns of a term. -/
def Term.pieces : Term → List Term
  | .negated t => t.pieces
  | .group first rest | .oneOf first rest => first.pieces ++ Term.listPieces rest
  | .range span min max => [.range span min max]
  | .pattern span p => [.pattern span p]

/-- The ranges and patterns of several terms. -/
def Term.listPieces : List Term → List Term
  | [] => []
  | t :: rest => t.pieces ++ Term.listPieces rest

end

/-- The ranges and patterns of a value. -/
def Value.pieces (v : Value) : List Term := v.first.pieces ++ Term.listPieces v.rest

mutual

/-- The ranges and patterns of a phrase. -/
def Phrase.pieces : Phrase → List Term
  | .clause _ _ value => value.elim [] Value.pieces
  | .negated p => p.pieces
  | .all first rest | .any first rest => first.pieces ++ Phrase.listPieces rest

/-- The ranges and patterns of several phrases. -/
def Phrase.listPieces : List Phrase → List Term
  | [] => []
  | p :: rest => p.pieces ++ Phrase.listPieces rest

end

/-- One of some ranges and patterns is refused. -/
def AnyRefuses (source : String) (pieces : List Term) (e : SyntaxError) : Prop :=
  ∃ t ∈ pieces, t.Refuses source e

section Pieces

variable {source : String} {pieces pieces' : List Term} {e : SyntaxError}

theorem AnyRefuses.left (h : AnyRefuses source pieces e) :
    AnyRefuses source (pieces ++ pieces') e := by
  obtain ⟨t, ht, hrefuses⟩ := h
  exact ⟨t, List.mem_append_left _ ht, hrefuses⟩

theorem AnyRefuses.right (h : AnyRefuses source pieces' e) :
    AnyRefuses source (pieces ++ pieces') e := by
  obtain ⟨t, ht, hrefuses⟩ := h
  exact ⟨t, List.mem_append_right _ ht, hrefuses⟩

theorem Fragment.error_of_of {s : String} (h : Fragment.of s = .error e) :
    s = "" ∧ e = .emptyText := by
  unfold Fragment.of at h
  by_cases hs : s = ""
  · rw [dif_pos hs] at h
    cases h
    exact ⟨hs, rfl⟩
  · rw [dif_neg hs] at h
    cases h

/-- A word is no text to look for only if it is empty. -/
theorem Word.refuses_of_fragment {α : Type} {f : Fragment → α} {w : Word}
    (h : f <$> w.fragment = .error e) (span : Span) (leading trailing : Bool) :
    Term.Refuses source (.pattern span (.word leading w trailing)) e := by
  obtain ⟨hempty, rfl⟩ := Fragment.error_of_of (map_eq_error.1 h)
  have htext : w.text = [] := by
    rw [← String.toList_ofList (l := w.text), hempty]
    rfl
  exact .emptyText span leading trailing htext

theorem Pattern.refuses_of_expression {span : Span} {p : Pattern}
    (h : p.expression source span = .error e) : Term.Refuses source (.pattern span p) e := by
  unfold Pattern.expression at h
  split at h
  · cases h
  · cases h
    exact .twoAsterisks span
  · exact Word.refuses_of_fragment h span true true
  · exact Word.refuses_of_fragment h span true false
  · exact Word.refuses_of_fragment h span false true
  · cases h

theorem refuses_of_rangeExpression {span : Span} {min max : Option Word}
    (h : rangeExpression source span min max = .error e) :
    Term.Refuses source (.range span min max) e := by
  unfold rangeExpression at h
  -- there is an interval between any two ends but two open ones
  cases min <;> cases max <;> cases h
  exact .openRange span

mutual

theorem Term.refuses_of_expression : ∀ {t : Term}, t.expression source = .error e →
    AnyRefuses source t.pieces e
  | .negated t, h => by
    rw [Term.expression] at h
    rw [Term.pieces]
    exact refuses_of_expression (map_eq_error.1 h)
  | .group first rest, h | .oneOf first rest, h => by
    rw [Term.expression] at h
    rw [Term.pieces]
    rcases bind_eq_error.1 h with h | ⟨a, -, h⟩
    · exact (refuses_of_expression h).left
    · rcases bind_eq_error.1 h with h | ⟨as, -, h⟩
      · exact (refuses_of_expressions h).right
      · cases h
  | .range span min max, h => by
    rw [Term.pieces]
    exact ⟨_, List.mem_singleton_self _, refuses_of_rangeExpression h⟩
  | .pattern span p, h => by
    rw [Term.pieces]
    exact ⟨_, List.mem_singleton_self _, Pattern.refuses_of_expression h⟩

theorem Term.refuses_of_expressions : ∀ {ts : List Term}, Term.expressions source ts = .error e →
    AnyRefuses source (Term.listPieces ts) e
  | [], h => by cases h
  | t :: rest, h => by
    rw [Term.expressions] at h
    rw [Term.listPieces]
    rcases bind_eq_error.1 h with h | ⟨a, -, h⟩
    · exact (refuses_of_expression h).left
    · rcases bind_eq_error.1 h with h | ⟨as, -, h⟩
      · exact (refuses_of_expressions h).right
      · cases h

end

theorem Value.eq_of_word? {v : Value} {w : Word} (h : v.word? = some w) :
    ∃ span, v = ⟨.pattern span (.word false w false), []⟩ := by
  unfold Value.word? at h
  split at h
  · cases h
    exact ⟨_, rfl⟩
  · cases h

/-- **The meaning of a value** is refused for one of its ranges and patterns. -/
theorem Value.refuses_of_operand {op : Operator} {v : Value} (h : v.operand source op = .error e) :
    AnyRefuses source v.pieces e := by
  unfold Value.operand at h
  cases hword : v.word? with
  | some w =>
    obtain ⟨span, rfl⟩ := Value.eq_of_word? hword
    simp only [hword] at h
    by_cases hop : op.isText = true
    · rw [if_pos hop] at h
      exact ⟨_, List.mem_singleton_self _, Word.refuses_of_fragment h span false false⟩
    · rw [if_neg hop] at h
      cases h
  | none =>
    simp only [hword] at h
    rcases bind_eq_error.1 h with h | ⟨a, -, h⟩
    · exact (Term.refuses_of_expression h).left
    · rcases bind_eq_error.1 h with h | ⟨as, -, h⟩
      · exact (Term.refuses_of_expressions h).right
      · cases h

mutual

/-- **The meaning of a phrase** is refused for one of its ranges and patterns. -/
theorem Phrase.refuses_of_node : ∀ {p : Phrase}, p.node source = .error e →
    AnyRefuses source p.pieces e
  | .clause path op value, h => by
    rw [Phrase.node] at h
    rw [Phrase.pieces]
    cases value with
    | none => cases h
    | some v => exact Value.refuses_of_operand (map_eq_error.1 (map_eq_error.1 h))
  | .negated p, h => by
    rw [Phrase.node] at h
    rw [Phrase.pieces]
    exact refuses_of_node (map_eq_error.1 h)
  | .all first rest, h | .any first rest, h => by
    rw [Phrase.node] at h
    rw [Phrase.pieces]
    rcases bind_eq_error.1 h with h | ⟨a, -, h⟩
    · exact (refuses_of_node h).left
    · rcases bind_eq_error.1 h with h | ⟨as, -, h⟩
      · exact (refuses_of_nodes h).right
      · cases h

theorem Phrase.refuses_of_nodes : ∀ {ps : List Phrase}, Phrase.nodes source ps = .error e →
    AnyRefuses source (Phrase.listPieces ps) e
  | [], h => by cases h
  | p :: rest, h => by
    rw [Phrase.nodes] at h
    rw [Phrase.listPieces]
    rcases bind_eq_error.1 h with h | ⟨a, -, h⟩
    · exact (refuses_of_node h).left
    · rcases bind_eq_error.1 h with h | ⟨as, -, h⟩
      · exact (refuses_of_nodes h).right
      · cases h

end

end Pieces

/-! ## Refusals of texts -/

/-- The ranges and patterns of a filter text, if it follows the grammar. -/
def filterPieces (text : String) : List Term :=
  match scanned text (Grammar.input (text.length + 1)) with
  | .ok (some p, _) => p.pieces
  | _ => []

/-- The ranges and patterns of a value text, as far as it follows the grammar. -/
def valuePieces (source : String) : List Term :=
  match scanned source (Grammar.value (source.length + 1)) with
  | .ok (v, _) => v.pieces
  | .error _ => []

/-- **Why a text is refused**: a bracket nests deeper than the limit, no rule of the grammar goes
on, or one of the ranges and patterns has no meaning. -/
inductive TextRefusal (limit : Nat) (source : String) (pieces : List Term) : SyntaxError → Prop
  | tooDeep {offset : Nat} (h : overDeep? limit 0 .outside 0 source.toList = some offset) :
    TextRefusal limit source pieces (.malformed source ⟨offset, 1⟩ (.tooDeep limit))
  | grammar (offset : Nat) :
    TextRefusal limit source pieces (.malformed source ⟨offset, 0⟩ .grammar)
  | piece {e : SyntaxError} (h : AnyRefuses source pieces e) : TextRefusal limit source pieces e

section Texts

variable {limit : Nat} {source : String} {pieces : List Term} {e : SyntaxError}

theorem refusal_of_checkDepth (h : checkDepth limit source = .error e) :
    TextRefusal limit source pieces e := by
  unfold checkDepth at h
  cases hover : overDeep? limit 0 .outside 0 source.toList with
  | none =>
    rw [hover] at h
    cases h
  | some offset =>
    rw [hover] at h
    cases h
    exact .tooDeep hover

theorem refusal_of_scanned {α : Type} {p : Scan α} (h : scanned source p = .error e) :
    TextRefusal limit source pieces e := by
  unfold scanned at h
  dsimp only at h
  split at h
  · cases h
  · cases h
    exact .grammar _

/-- **A text is refused as a filter for no other reason.** -/
theorem Node.refusal_of_ofText {text : String} (h : Node.ofText limit text = .error e) :
    TextRefusal limit text (filterPieces text) e := by
  rcases bind_eq_error.1 h with h | ⟨_, -, h⟩
  · exact refusal_of_checkDepth h
  · rcases bind_eq_error.1 h with h | ⟨⟨p?, consumed⟩, hscanned, h⟩
    · exact refusal_of_scanned h
    · cases p? with
      | none => cases h
      | some p =>
        have hpieces : filterPieces text = p.pieces := by
          unfold filterPieces
          rw [hscanned]
        rw [hpieces]
        exact .piece (Phrase.refuses_of_node h)

/-- The refusals of a text as a value: the text may also go on behind the value. -/
inductive ValueRefusal (source : String) : SyntaxError → Prop
  | refused {e : SyntaxError} (h : TextRefusal defaultDepth source (valuePieces source) e) :
    ValueRefusal source e
  | afterValue (consumed : Nat) : ValueRefusal source
    (.malformed source ⟨consumed, source.utf8ByteSize - consumed⟩ .afterValue)

/-- The text leaves nothing to look for, or is malformed. -/
theorem ValueRefusal.emptyText_or_malformed (h : ValueRefusal source e) :
    e = .emptyText ∨ ∃ source span fault, e = .malformed source span fault := by
  cases h with
  | afterValue consumed => exact Or.inr ⟨_, _, _, rfl⟩
  | refused h =>
    cases h with
    | tooDeep _ => exact Or.inr ⟨_, _, _, rfl⟩
    | grammar _ => exact Or.inr ⟨_, _, _, rfl⟩
    | piece h =>
      obtain ⟨t, -, h⟩ := h
      cases h with
      | emptyText _ _ _ _ => exact Or.inl rfl
      | _ => exact Or.inr ⟨_, _, _, rfl⟩

/-- **A text is refused as a value for no other reason.** -/
theorem Operand.refusal_of_ofText {op : Operator} {text : String}
    (h : Operand.ofText op text = .error e) : ValueRefusal (trimmed text) e := by
  rcases bind_eq_error.1 h with h | ⟨_, -, h⟩
  · exact .refused (refusal_of_checkDepth h)
  · rcases bind_eq_error.1 h with h | ⟨v, hwhole, h⟩
    · rcases bind_eq_error.1 h with h | ⟨⟨v, consumed⟩, -, h⟩
      · exact .refused (refusal_of_scanned h)
      · dsimp only at h
        split at h
        · cases h
        · cases h
          exact .afterValue consumed
    · obtain ⟨⟨v', consumed⟩, hscanned, hv⟩ := bind_eq_ok.1 hwhole
      dsimp only at hv
      split at hv
      · cases hv
        have hpieces : valuePieces (trimmed text) = v.pieces := by
          unfold valuePieces
          rw [hscanned]
        refine .refused (.piece ?_)
        rw [hpieces]
        exact Value.refuses_of_operand h
      · cases hv

end Texts

end Sift
