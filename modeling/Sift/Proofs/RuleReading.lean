import Sift.Proofs.Refusals
import Sift.Proofs.RuleValues

/-!
# Filters read by way of a tree

* `Pair.IsPhrase`: the node of a phrase, from which its meaning is built.
* `Pair.AreJoined`: the nodes of members with keywords between them.
* `mimics_filter`, `mimics_unary`, `mimics_input`: the rules read these nodes, at every depth.
* `RuleTree.readNode_eq`, `RuleTree.readOperand_eq`: by way of a tree the same is read.
* `RuleTree.refuses_only`: **the refusals that are ready for trees of other shapes are never met**.
-/

namespace Sift

open Scan Grammar

/-! ## What is built from phrases -/

namespace Pair

/-- **The node of a phrase**, from which its meaning is built as from a node of its rule. -/
structure IsPhrase (r : Rule) (build : String → Pair → Except SyntaxError Node) (ph : Phrase)
    (p : Pair) : Prop where
  rule : p.rule = r
  build : ∀ source, build source p = ph.node source

/-- The node of a comparison. -/
abbrev IsFilter : Phrase → Pair → Prop := IsPhrase .filter Pair.filter

/-- The node of a member of a conjunction. -/
abbrev IsUnary : Phrase → Pair → Prop := IsPhrase .unary Pair.unary

/-- The node of a conjunction. -/
abbrev IsConjunction : Phrase → Pair → Prop := IsPhrase .conjunction Pair.conjunction

/-- The node of a disjunction. -/
abbrev IsExpression : Phrase → Pair → Prop := IsPhrase .expression Pair.expression

/-- The nodes of members behind the keywords before them. -/
inductive AreJoined (r : Rule) (I : Phrase → Pair → Prop) : List Phrase → List Pair → Prop
  | nil : AreJoined r I [] []
  | cons {ph : Phrase} {phs : List Phrase} {keyword p : Pair} {ps : List Pair} :
    keyword.rule = r → I ph p → AreJoined r I phs ps →
    AreJoined r I (ph :: phs) (keyword :: p :: ps)

variable {source : String} {ph : Phrase} {phs : List Phrase} {p : Pair} {ps : List Pair}

theorem conjunctions_cons (h : IsConjunction ph p) (ps : List Pair) :
    conjunctions source (p :: ps) = do
      let n ← ph.node source
      return n :: (← conjunctions source ps) := by
  rw [conjunctions, if_pos h.rule, h.build]

theorem conjunctions_eq (h : AreJoined .kwOr IsConjunction phs ps) :
    conjunctions source ps = Phrase.nodes source phs := by
  induction h with
  | nil => rfl
  | cons hkeyword hp _ ih =>
    have hrule : ¬Rule.kwOr = .conjunction := by decide
    rw [conjunctions, hkeyword, if_neg hrule, conjunctions_cons hp, ih, Phrase.nodes]

theorem unaries_cons (h : IsUnary ph p) (ps : List Pair) : unaries source (p :: ps) = do
    let n ← ph.node source
    return n :: (← unaries source ps) := by
  rw [unaries, if_pos h.rule, h.build]

theorem unaries_eq (h : AreJoined .kwAnd IsUnary phs ps) :
    unaries source ps = Phrase.nodes source phs := by
  induction h with
  | nil => rfl
  | cons hkeyword hp _ ih =>
    have hrule : ¬Rule.kwAnd = .unary := by decide
    rw [unaries, hkeyword, if_neg hrule, unaries_cons hp, ih, Phrase.nodes]

theorem isConjunction_node (h : IsUnary ph p) (hs : AreJoined .kwAnd IsUnary phs ps) (span : Span)
    (cs : List Char) : IsConjunction (.all ph phs) (node .conjunction span cs (p :: ps)) where
  rule := rfl
  build := by
    intro source
    rw [conjunction, unaries_cons h, unaries_eq hs, Phrase.node]
    cases ph.node source with
    | error e => rfl
    | ok n => cases Phrase.nodes source phs <;> rfl

theorem isExpression_node (h : IsConjunction ph p) (hs : AreJoined .kwOr IsConjunction phs ps)
    (span : Span) (cs : List Char) :
    IsExpression (.any ph phs) (node .expression span cs (p :: ps)) where
  rule := rfl
  build := by
    intro source
    rw [expression, conjunctions_cons h, conjunctions_eq hs, Phrase.node]
    cases ph.node source with
    | error e => rfl
    | ok n => cases Phrase.nodes source phs <;> rfl

theorem unaryParts_nots {nots : List Pair} (h : ∀ b ∈ nots, b.rule = .kwNot) (k : Nat)
    (n? : Option Node) (ps : List Pair) :
    unaryParts source k n? (nots ++ ps) = unaryParts source (k + nots.length) n? ps := by
  induction nots generalizing k with
  | nil => rfl
  | cons b nots ih =>
    obtain ⟨hb, hnots⟩ := List.forall_mem_cons.1 h
    rw [List.cons_append, unaryParts, hb]
    show unaryParts source (k + 1) n? (nots ++ ps) = _
    rw [ih hnots, List.length_cons]
    congr 1
    omega

theorem unaryParts_eq (h : IsExpression ph p ∨ IsFilter ph p) (k : Nat) :
    unaryParts source k none [p] = (fun n => (k, some n)) <$> ph.node source := by
  rcases h with h | h
  · rw [unaryParts, h.rule]
    show (expression source p >>= fun n => unaryParts source k (some n) []) = _
    rw [h.build]
    rfl
  · rw [unaryParts, h.rule]
    show (filter source p >>= fun n => unaryParts source k (some n) []) = _
    rw [h.build]
    rfl

theorem node_phraseNegations (k : Nat) (ph : Phrase) :
    (phraseNegations k ph).node source = negatedNode k <$> ph.node source := by
  induction k with
  | zero => rw [phraseNegations]; cases ph.node source <;> rfl
  | succ k ih =>
    rw [phraseNegations, Phrase.node, ih]
    cases ph.node source <;> rfl

theorem isUnary_node (h : IsExpression ph p ∨ IsFilter ph p) {nots : List Pair}
    (hnots : ∀ b ∈ nots, b.rule = .kwNot) (span : Span) (cs : List Char) :
    IsUnary (phraseNegations nots.length ph) (node .unary span cs (nots ++ [p])) where
  rule := rfl
  build := by
    intro source
    rw [unary, unaryParts_nots hnots, unaryParts_eq h, node_phraseNegations, Nat.zero_add]
    cases ph.node source <;> rfl

/-- The nodes behind the path of a comparison. -/
inductive AreTest : Operator → Option Value → List Pair → Prop
  | alone {op : Operator} {rule : Rule} {span : Span} {cs : List Char} :
    Operator.ofToken? (String.ofList cs) = some op → AreTest op none [.node rule span cs []]
  | value {op : Operator} {rule : Rule} {span : Span} {cs : List Char} {v : Value} {p : Pair} :
    Operator.ofToken? (String.ofList cs) = some op → IsValue v p →
    AreTest op (some v) [.node rule span cs [], p]

theorem operator_eq {op : Operator} {cs : List Char}
    (h : Operator.ofToken? (String.ofList cs) = some op) (rule : Rule) (span : Span) :
    (node rule span cs []).operator source = .ok op := by
  rw [operator, text, h]

theorem isFilter_node {path : FieldPath} {cs' : List Char}
    (hpath : String.ofList cs' = path.written) {op : Operator} {v? : Option Value}
    (h : AreTest op v? ps) (span span' : Span) (cs : List Char) (inner : List Pair) :
    IsFilter (.clause path op v?) (node .filter span cs (node .field span' cs' inner :: ps)) where
  rule := rfl
  build := by
    intro source
    rw [Phrase.node]
    cases h with
    | @alone rule oSpan os hop =>
      show ((node rule oSpan os []).operator source >>= fun op => _) = _
      rw [operator_eq hop]
      show Except.ok (Node.leaf (.on (String.ofList cs') op .null)) = _
      rw [hpath]
      rfl
    | @value rule oSpan os v p hop hv =>
      show ((node rule oSpan os []).operator source >>= fun op => _) = _
      rw [operator_eq hop]
      show (p.operand source op >>= fun operand =>
        Except.ok (Node.leaf (.on (String.ofList cs') op operand))) =
          Node.leaf <$> Filter.on path.written op <$> v.operand source op
      rw [operand_eq hv, hpath]
      cases v.operand source op <;> rfl

end Pair

/-! ## The rules of filters -/

namespace RuleGrammar

open Pair

theorem mimics_unaryOp : Mimics (Grammar.operator fun op => !op.requiresValue) unaryOp
    fun op cs ps => Operator.ofToken? (String.ofList cs) = some op ∧
      ∃ span, ps = [.node .unaryOp span cs []] := by
  refine (mimics_operator .unaryOp ?_ ?_ ?_).mono fun _ _ _ h => h.2
  · intro op
    cases op <;> decide
  · decide
  · decide

theorem mimics_binaryOp : Mimics (Grammar.operator Operator.requiresValue) binaryOp
    fun op cs ps => Operator.ofToken? (String.ofList cs) = some op ∧
      ∃ span, ps = [.node .binaryOp span cs []] := by
  refine (mimics_operator .binaryOp ?_ ?_ ?_).mono fun _ _ _ h => h.2
  · intro op
    cases op <;> decide
  · decide
  · decide

theorem mimics_filter (depth : Nat) : Mimics (clause depth) (filter depth) fun ph _ ps =>
    IsOne IsFilter ph ps := by
  refine (mimics_rule (R := fun ph _ ps => ∃ path op v? span cs inner test,
    ph = .clause path op v? ∧ ps = .node .field span cs inner :: test ∧
      String.ofList cs = path.written ∧ AreTest op v? test) ?_ .filter).mono ?_
  · refine mimics_field.bind fun path _ a ha => ?_
    have htest : Mimics ((do
        let op ← Grammar.operator fun op => !op.requiresValue
        return Phrase.clause path op none) <|> (do
        let op ← Grammar.operator Operator.requiresValue
        let v ← spaced (Grammar.value depth)
        return Phrase.clause path op (some v)))
        (unaryOp <|> (do
        let a ← binaryOp
        let b ← spaced (value (term depth))
        return a ++ b)) fun ph _ ps => ∃ op v?, ph = .clause path op v? ∧ AreTest op v? ps := by
      refine Mimics.orElse ?_ ?_
      · refine (mimics_unaryOp.map_left fun op => Phrase.clause path op none).mono ?_
        rintro _ _ _ ⟨op, rfl, hop, span, rfl⟩
        exact ⟨op, none, rfl, .alone hop⟩
      · refine mimics_binaryOp.bind fun op _ b hb => ?_
        have hvalue : Mimics (Grammar.value depth) (value (term depth)) fun v _ ps =>
            IsOne IsValue v ps :=
          (mimics_value depth).mono fun _ _ _ ⟨p, hp, _, hv⟩ => ⟨p, hp, hv⟩
        refine (((mimics_spaced hvalue).map_left fun v => Phrase.clause path op (some v)).map_right
          (b ++ ·)).mono ?_
        rintro _ _ _ ⟨_, rfl, v, rfl, p, rfl, hv⟩
        obtain ⟨hop, span, rfl⟩ := hb
        exact ⟨op, some v, rfl, .value hop hv⟩
    refine ((mimics_spaced htest).map_right (a ++ ·)).mono ?_
    rintro _ _ _ ⟨test, rfl, op, v?, rfl, h⟩
    obtain ⟨span, inner, rfl, hpath⟩ := ha
    exact ⟨path, op, v?, span, _, inner, test, rfl, rfl, hpath, h⟩
  · rintro _ cs _ ⟨span, _, rfl, path, op, v?, span', cs', inner, test, rfl, rfl, hpath, h⟩
    exact ⟨_, rfl, isFilter_node hpath h span span' cs inner⟩

theorem mimics_joinedBy {member : Scan Phrase} {memberNodes : Scan (List Pair)}
    {I : Phrase → Pair → Prop} (r : Rule) (w : String)
    (h : Mimics member memberNodes fun ph _ ps => IsOne I ph ps) :
    Mimics (Grammar.joinedBy w member) (joinedBy r w memberNodes) fun x _ ps =>
      ∃ p rest, ps = p :: rest ∧ I x.1 p ∧ AreJoined r I x.2 rest := by
  have hkeyword : Mimics (Grammar.keyword w) (keyword r w) fun _ _ ps =>
      ∃ k, ps = [k] ∧ k.rule = r :=
    (mimics_keyword r w).mono fun _ _ _ ⟨_, hps⟩ => ⟨_, hps, rfl⟩
  refine (mimics_interleaved Prod.mk h hkeyword (T := AreJoined r I) .nil ?_).mono ?_
  · rintro ph p phs _ ps hp ⟨k, rfl, hk⟩ hphs
    exact .cons hk hp hphs
  · rintro _ _ _ ⟨first, rest, p, ps, rfl, rfl, hfirst, hrest⟩
    exact ⟨p, ps, rfl, hfirst, hrest⟩

variable {member : Scan Phrase} {memberNodes : Scan (List Pair)}

theorem mimics_conjunction (h : Mimics member memberNodes fun ph _ ps => IsOne IsUnary ph ps) :
    Mimics (Grammar.conjunction member) (conjunction memberNodes) fun ph _ ps =>
      IsOne IsConjunction ph ps := by
  have hall := (mimics_joinedBy .kwAnd "and" h).map_left fun x => Phrase.all x.1 x.2
  refine (mimics_rule hall .conjunction).mono ?_
  rintro _ cs _ ⟨span, _, rfl, ⟨first, rest⟩, rfl, p, ps, rfl, hp, hps⟩
  exact ⟨_, rfl, isConjunction_node hp hps span cs⟩

theorem mimics_expression (h : Mimics member memberNodes fun ph _ ps => IsOne IsUnary ph ps) :
    Mimics (disjunction member) (expression memberNodes) fun ph _ ps =>
      IsOne IsExpression ph ps := by
  have hany := (mimics_joinedBy .kwOr "or" (mimics_conjunction h)).map_left fun x =>
    Phrase.any x.1 x.2
  rw [disjunction_eq]
  refine (mimics_rule hany .expression).mono ?_
  rintro _ cs _ ⟨span, _, rfl, ⟨first, rest⟩, rfl, p, ps, rfl, hp, hps⟩
  exact ⟨_, rfl, isExpression_node hp hps span cs⟩

/-- **The rule of members reads nodes from which their meaning is built**, at every depth. -/
theorem mimics_unary (depth : Nat) : Mimics (Grammar.member depth) (unary depth) fun ph _ ps =>
    IsOne IsUnary ph ps := by
  induction depth with
  | zero => exact Mimics.fail
  | succ depth ih =>
    have hnots := mimics_leaves (mimics_keyword .kwNot "not")
    refine (mimics_rule (R := fun ph _ ps => ∃ nots ph' p, ph = phraseNegations nots.length ph' ∧
      ps = nots ++ [p] ∧ (∀ b ∈ nots, b.rule = .kwNot) ∧
      (IsExpression ph' p ∨ IsFilter ph' p)) ?_ .unary).mono ?_
    · refine hnots.bind fun us _ a ha => ?_
      have hinner : Mimics ((do
          exactly '('
          let p ← spaced (disjunction (Grammar.member depth))
          spaced (exactly ')')
          return p) <|> clause (depth + 1))
          ((do
          let a ← silent (exactly '(')
          let b ← spaced (expression (unary depth))
          let c ← mark ')'
          return a ++ b ++ c) <|> filter (depth + 1)) fun ph _ ps =>
          IsOne (fun ph p => IsExpression ph p ∨ IsFilter ph p) ph ps := by
        refine Mimics.orElse ((mimics_bracketed '(' ')' (mimics_expression ih)).mono ?_)
          ((mimics_filter (depth + 1)).mono ?_)
        · rintro ph _ _ ⟨p, rfl, hp⟩
          exact ⟨p, rfl, Or.inl hp⟩
        · rintro ph _ _ ⟨p, rfl, hp⟩
          exact ⟨p, rfl, Or.inr hp⟩
      refine (((mimics_spaced hinner).map_left (phraseNegations us.length)).map_right
        (a ++ ·)).mono ?_
      rintro _ _ _ ⟨_, rfl, ph, rfl, p, rfl, hp⟩
      exact ⟨a, ph, p, by rw [ha.1], rfl, ha.2, hp⟩
    · rintro _ cs _ ⟨span, _, rfl, nots, ph, p, rfl, rfl, hnots, hp⟩
      exact ⟨_, rfl, isUnary_node hp hnots span cs⟩

/-- The children of a whole text: a disjunction, or none, and the end. -/
theorem mimics_input (depth : Nat) : Mimics (Grammar.input depth) (input depth) fun o _ ps =>
    ∃ root, ps = [root] ∧ match o with
      | none => root.inner.find? (·.rule == .expression) = none
      | some ph => ∃ p, root.inner.find? (·.rule == .expression) = some p ∧ IsExpression ph p := by
  refine (mimics_rule (R := fun o _ ps => match o with
      | none => ps.find? (·.rule == .expression) = none
      | some ph => ∃ p, ps.find? (·.rule == .expression) = some p ∧ IsExpression ph p)
    ?_ .input).mono ?_
  · have hfilter := mimics_perhaps (mimics_expression (mimics_unary depth))
      (S := fun o ps => o = none ∧ ps = [] ∨ ∃ ph p, o = some ph ∧ ps = [p] ∧ IsExpression ph p)
      (fun ph _ ps ⟨p, hp, h⟩ => Or.inr ⟨ph, p, rfl, hp, h⟩) (Or.inl ⟨rfl, rfl⟩)
    refine (mimics_spaced hfilter).bind fun o _ a ha => ?_
    have hend : Mimics (Scan.named ending) (rule .ending (silent ending)) fun _ _ ps =>
        ∃ p, ps = [p] ∧ p.rule = .ending :=
      (mimics_leaf (takes_notBefore _) .ending).mono fun _ _ _ ⟨⟨_, h⟩, _⟩ => ⟨_, h, rfl⟩
    refine (((mimics_spaced hend).map_left fun _ => o).map_right (a ++ ·)).mono ?_
    rintro _ _ _ ⟨_, rfl, _, rfl, ending, rfl, hending⟩
    rcases ha with ⟨rfl, rfl⟩ | ⟨ph, p, rfl, rfl, hp⟩
    · show List.find? _ ([] ++ [ending]) = none
      simp [hending]
    · exact ⟨p, by simp [hp.rule], hp⟩
  · rintro o cs _ ⟨span, inner, rfl, h⟩
    exact ⟨_, rfl, h⟩

end RuleGrammar

/-! ## The readers -/

theorem scanned_of_some {α : Type} {p : Scan α} {text : String} {a : α} {there : Cursor}
    (h : (p (Cursor.start text.toList)).found = some (a, there)) :
    scanned text p = .ok (a, there.offset) := by
  unfold scanned
  simp only [h]

theorem scanned_of_none {α : Type} {p : Scan α} {text : String}
    (h : (p (Cursor.start text.toList)).found = none) :
    scanned text p =
      .error (.malformed text ⟨(p (Cursor.start text.toList)).reach, 0⟩ .grammar) := by
  unfold scanned
  simp only [h]

/-- Two scanners that read the same are refused alike, or find what is related. -/
theorem scanned_of_mimics {α β : Type} {p : Scan α} {q : Scan β} {R : α → List Char → β → Prop}
    (h : Mimics p q R) (text : String) :
    (∃ e, scanned text p = .error e ∧ scanned text q = .error e) ∨
      ∃ a b cs, scanned text p = .ok (a, byteCount cs) ∧ scanned text q = .ok (b, byteCount cs) ∧
        R a cs b := by
  cases hp : (p (Cursor.start text.toList)).found with
  | none =>
    refine Or.inl ⟨_, scanned_of_none hp, ?_⟩
    rw [scanned_of_none (h.none _ hp), h.reach]
  | some x =>
    obtain ⟨a, there⟩ := x
    obtain ⟨cs, b, hq, hcs, hstop, hR⟩ := h.some _ a there hp
    -- the offset is that of the text that has been read
    have hoffset : there.offset = byteCount cs := by
      have htext : (Cursor.start text.toList).stop = byteCount cs + byteCount there.rest := by
        rw [Cursor.stop, hcs, byteCount_append]
        exact Nat.zero_add _
      rw [htext, Cursor.stop] at hstop
      omega
    exact Or.inr ⟨a, b, cs, hoffset ▸ scanned_of_some hp, hoffset ▸ scanned_of_some hq, hR⟩

namespace RuleTree

/-- **By way of a tree a filter is read as without one.** -/
theorem readNode_eq (limit : Nat) (text : String) :
    readNode limit text = Node.ofText limit text := by
  rw [readNode, Node.ofText]
  cases checkDepth limit text with
  | error e => rfl
  | ok u =>
    show (scanned text (RuleGrammar.input (text.length + 1)) >>= _) =
      (scanned text (Grammar.input (text.length + 1)) >>= _)
    rcases scanned_of_mimics (RuleGrammar.mimics_input (text.length + 1)) text with
      ⟨e, hp, hq⟩ | ⟨o, _, cs, hp, hq, root, rfl, h⟩
    · rw [hp, hq]
      rfl
    · rw [hp, hq]
      show root.input text = _
      rw [Pair.input]
      cases o with
      | none =>
        have hfind : root.inner.find? (·.rule == .expression) = none := h
        rw [hfind]
        rfl
      | some ph =>
        obtain ⟨p, hfind, hp⟩ := h
        rw [hfind]
        exact hp.build text

/-- **By way of a tree a value is read as without one.** -/
theorem readOperand_eq (op : Operator) (text : String) :
    readOperand op text = Operand.ofText op text := by
  simp only [readOperand, Operand.ofText, scannedWhole]
  generalize trimmed text = source
  cases checkDepth defaultDepth source with
  | error e => rfl
  | ok u =>
    simp only [bind_assoc]
    rcases scanned_of_mimics (RuleGrammar.mimics_value (source.length + 1)) source
      with ⟨e, hp, hq⟩ | ⟨v, _, cs, hp, hq, p, rfl, rfl, hv⟩
    · rw [hp, hq]
      rfl
    · rw [hp, hq]
      have hsize : (String.ofList p.text).utf8ByteSize = byteCount p.text := by
        rw [utf8ByteSize_eq_byteCount, String.toList_ofList]
      show (if (String.ofList p.text).utf8ByteSize ≠ source.utf8ByteSize then _
        else p.operand source op) =
          ((if byteCount p.text = source.utf8ByteSize then _ else _) >>= _)
      rw [hsize]
      by_cases hwhole : byteCount p.text = source.utf8ByteSize
      · rw [if_neg (not_not.2 hwhole), if_pos hwhole, Pair.operand_eq hv]
        rfl
      · rw [if_pos hwhole, if_neg hwhole]
        rfl

end RuleTree

/-! ## Refusals that are never met -/

/-- The refusals that are ready for trees of other shapes, and for arguments that no text has: of
parts that are not there, of unknown operators, of missing arguments, and of arguments out of range
other than an empty text to look for. -/
def SyntaxError.IsStructural : SyntaxError → Prop
  | .malformed _ _ (.other _) => True
  | .missing _ => True
  | .outOfRange argument problem => SyntaxError.outOfRange argument problem ≠ .emptyText
  | _ => False

theorem TextRefusal.not_isStructural {limit : Nat} {source : String} {pieces : List Term}
    {e : SyntaxError} (h : TextRefusal limit source pieces e) : ¬e.IsStructural := by
  cases h with
  | tooDeep _ => exact id
  | grammar _ => exact id
  | piece h =>
    obtain ⟨t, -, h⟩ := h
    cases h with
    | emptyText _ _ _ _ => exact not_not_intro rfl
    | _ => exact id

theorem ValueRefusal.not_isStructural {source : String} {e : SyntaxError}
    (h : ValueRefusal source e) : ¬e.IsStructural := by
  cases h with
  | refused h => exact h.not_isStructural
  | afterValue _ => exact id

namespace RuleTree

/-- **Whoever builds a filter or a value from a tree never meets one of another shape.** Every text
is read as without a tree, and refused only because brackets nest too deep, the text does not follow
the grammar or goes on behind a value, or a range or a pattern in it has no meaning. -/
theorem refuses_only (limit : Nat) (op : Operator) (text : String) :
    (readNode limit text = Node.ofText limit text ∧
      ∀ e, readNode limit text = .error e →
        TextRefusal limit text (filterPieces text) e ∧ ¬e.IsStructural) ∧
    (readOperand op text = Operand.ofText op text ∧
      ∀ e, readOperand op text = .error e →
        ValueRefusal (trimmed text) e ∧ ¬e.IsStructural) := by
  refine ⟨⟨readNode_eq limit text, fun e he => ?_⟩, readOperand_eq op text, fun e he => ?_⟩
  · rw [readNode_eq] at he
    have hrefusal := Node.refusal_of_ofText he
    exact ⟨hrefusal, hrefusal.not_isStructural⟩
  · rw [readOperand_eq] at he
    have hrefusal := Operand.refusal_of_ofText he
    exact ⟨hrefusal, hrefusal.not_isStructural⟩

/-- A range that is open at both ends, in a set under negations. -/
theorem refuses_only_openRange :
    readNode defaultDepth "not (Height NEQ !\x7b1,[* to *]\x7d)" =
      .error (.malformed "not (Height NEQ !\x7b1,[* to *]\x7d)" ⟨20, 8⟩ .openRange) ∧
    Term.range ⟨20, 8⟩ none none ∈ filterPieces "not (Height NEQ !\x7b1,[* to *]\x7d)" := by
  have hfails : (match readNode defaultDepth "not (Height NEQ !\x7b1,[* to *]\x7d)" with
      | .ok _ => none
      | .error e => some e) =
      some (.malformed "not (Height NEQ !\x7b1,[* to *]\x7d)" ⟨20, 8⟩ .openRange) := by
    decide +kernel
  have hread : readNode defaultDepth "not (Height NEQ !\x7b1,[* to *]\x7d)" =
      .error (.malformed "not (Height NEQ !\x7b1,[* to *]\x7d)" ⟨20, 8⟩ .openRange) := by
    revert hfails
    cases readNode defaultDepth "not (Height NEQ !\x7b1,[* to *]\x7d)" with
    | ok n => intro hfails; cases hfails
    | error e => intro hfails; rw [Option.some.inj hfails]
  refine ⟨hread, ?_⟩
  -- among the ranges and patterns of the text is one that is refused with this error
  obtain ⟨⟨-, hrefused⟩, -⟩ :=
    refuses_only defaultDepth .eq "not (Height NEQ !\x7b1,[* to *]\x7d)"
  obtain ⟨hrefusal, -⟩ := hrefused _ hread
  cases hrefusal with
  | piece h =>
    obtain ⟨t, ht, h⟩ := h
    cases h
    exact ht

end RuleTree

end Sift
