import Mathlib.Data.List.Forall2
import Sift.Proofs.RuleWords

/-!
# Values read by way of a tree

* `Pair.IsTerm`, `Pair.IsValue`: what is built from the nodes of terms and values is what they mean,
  and the words that stand alone are recognized.
* `Pair.operand_eq`: what is built from a value behind an operator is what it means.
* `mimics_term`, `mimics_value`: the rules read these nodes, at every depth.
-/

namespace Sift

open Scan Grammar

/-! ## What is built from terms -/

namespace Pair

/-- **The node of a term**, from which its meaning is built, and which is recognized as a word alone
where the term is one. -/
structure IsTerm (t : Term) (p : Pair) : Prop where
  term : ∀ source, p.term source = t.expression source
  simple : p.simpleTerm? = (Value.word? ⟨t, []⟩).map fun w => (w.text, w.isBare)

/-- The node of what may stand in a term behind its negations. -/
structure IsAtom (t : Term) (p : Pair) : Prop where
  parts : ∀ source n, termParts source n none [p] = (fun e => (n, some e)) <$> t.expression source
  simple : ∀ rule span cs, (node rule span cs [p]).simpleTerm? =
    (Value.word? ⟨t, []⟩).map fun w => (w.text, w.isBare)

/-- **The node of a value.** -/
structure IsValue (v : Value) (p : Pair) : Prop where
  expression : ∀ source, p.valueExpression source = do
    let e ← v.first.expression source
    return alternative e (← Term.expressions source v.rest)
  simple : p.simpleLiteral? = v.word?.map fun w => (w.text, w.isBare)

variable {source : String} {t : Term} {ts : List Term} {p : Pair} {ps : List Pair}

theorem terms_eq (h : List.Forall₂ IsTerm ts ps) :
    terms source ps = Term.expressions source ts := by
  induction h with
  | nil => rfl
  | cons ht _ ih => rw [terms, Term.expressions, ht.term, ih]

theorem alternatives_eq (h : List.Forall₂ IsTerm ts ps) (left : Expression) :
    alternatives source left ps = alternative left <$> Term.expressions source ts := by
  induction h generalizing left with
  | nil => rfl
  | @cons t p ts ps ht _ ih =>
    rw [alternatives, Term.expressions, ht.term]
    cases t.expression source with
    | error e => rfl
    | ok e =>
      show alternatives source (.or left e) ps = _
      rw [ih]
      show _ = alternative left <$> (Term.expressions source ts >>= fun es => pure (e :: es))
      cases Term.expressions source ts <;> rfl

/-- What is built from a term is what stands behind its negations, negated as often. -/
theorem expression_negations (n : Nat) (t : Term) :
    (negations n t).expression source = negatedTimes n <$> t.expression source := by
  induction n with
  | zero => rw [negations]; cases t.expression source <;> rfl
  | succ n ih =>
    rw [negations, Term.expression, ih]
    cases t.expression source <;> rfl

theorem termParts_bangs {bangs : List Pair} (h : ∀ b ∈ bangs, b.rule = .bang) (n : Nat)
    (e? : Option Expression) (ps : List Pair) :
    termParts source n e? (bangs ++ ps) = termParts source (n + bangs.length) e? ps := by
  induction bangs generalizing n with
  | nil => rfl
  | cons b bangs ih =>
    obtain ⟨hb, hbangs⟩ := List.forall_mem_cons.1 h
    rw [List.cons_append, termParts, hb]
    show termParts source (n + 1) e? (bangs ++ ps) = _
    rw [ih hbangs, List.length_cons]
    congr 1
    omega

theorem IsAtom.isTerm (h : IsAtom t p) {bangs : List Pair} (hbangs : ∀ b ∈ bangs, b.rule = .bang)
    (span : Span) (cs : List Char) :
    IsTerm (negations bangs.length t) (node .term span cs (bangs ++ [p])) where
  term := by
    intro source
    rw [term, termParts_bangs hbangs, h.parts, expression_negations, Nat.zero_add]
    cases t.expression source <;> rfl
  simple := by
    cases bangs with
    | nil => exact h.simple .term span cs
    | cons b bangs =>
      obtain ⟨hb, -⟩ := List.forall_mem_cons.1 hbangs
      -- a negation in front is no pattern
      have hrule : ¬b.rule = .pattern := by rw [hb]; decide
      exact if_neg hrule

theorem isAtom_pattern {q : Pattern} {inner : List Pair} (h : ArePattern q inner) (span : Span)
    (cs : List Char) : IsAtom (.pattern span q) (node .pattern span cs inner) where
  parts := by
    intro source n
    show (patternExpression source (node .pattern span cs inner) >>= fun e =>
      termParts source n (some e) []) = _
    rw [patternExpression_eq h]
    rfl
  simple := by
    intro rule span' cs'
    cases h with
    | asterisk hstars => cases hstars; rfl
    | twoAsterisks hleading htrailing => cases hleading; cases htrailing; rfl
    | word hleading hword htrailing =>
      cases hleading <;> cases htrailing
      · show Pair.word? _ = _
        rw [hword.word?]
        rfl
      all_goals rfl

theorem isAtom_range {min max : Option Word} {low between high : Pair} (hlow : IsBound min low)
    (hbetween : between.rule = .kwTo) (hhigh : IsBound max high) (span : Span) (cs : List Char) :
    IsAtom (.range span min max) (node .range span cs [low, between, high]) where
  parts := by
    intro source n
    show (rangeExpression source (node .range span cs [low, between, high]) >>= fun e =>
      termParts source n (some e) []) = _
    rw [rangeExpression_eq hlow hbetween hhigh]
    rfl
  simple := fun _ _ _ => rfl

theorem isAtom_group {v : Value} (h : IsValue v p) (span : Span) (cs : List Char) :
    IsAtom (.group v.first v.rest) (node .group span cs [p]) where
  parts := by
    intro source n
    show (groupExpression source (node .group span cs [p]) >>= fun e =>
      termParts source n (some e) []) = _
    rw [groupExpression, h.expression, Term.expression]
    rfl
  simple := fun _ _ _ => rfl

theorem isAtom_oneOf {v : Value} (h : List.Forall₂ IsTerm (v.first :: v.rest) ps) (span : Span)
    (cs : List Char) : IsAtom (.oneOf v.first v.rest) (node .oneOf span cs ps) where
  parts := by
    intro source n
    show (setExpression source (node .oneOf span cs ps) >>= fun e =>
      termParts source n (some e) []) = _
    rw [setExpression, terms_eq h, Term.expressions, Term.expression]
    cases v.first.expression source with
    | error e => rfl
    | ok e => cases Term.expressions source v.rest <;> rfl
  simple := fun _ _ _ => rfl

theorem isValue_node {v : Value} (h : List.Forall₂ IsTerm (v.first :: v.rest) ps) (span : Span)
    (cs : List Char) : IsValue v (node .value span cs ps) := by
  obtain ⟨first, rest⟩ := v
  cases h with
  | cons hfirst hrest =>
    constructor
    · intro source
      rw [valueExpression, hfirst.term]
      cases first.expression source with
      | error e => rfl
      | ok e =>
        show alternatives source e _ = _
        rw [alternatives_eq hrest]
        rfl
    · cases hrest with
      | nil => exact hfirst.simple
      | cons _ _ =>
        -- more than one term is no word alone
        have hword (t : Term) (ts : List Term) : Value.word? ⟨first, t :: ts⟩ = none := by
          unfold Value.word?
          split <;> simp_all
        rw [hword]
        rfl

/-- **What is built from a value is what it means.** -/
theorem operand_eq {v : Value} (h : IsValue v p) (op : Operator) :
    p.operand source op = v.operand source op := by
  rw [operand, Value.operand, h.simple]
  cases hword : v.word? with
  | none =>
    show Operand.expression <$> p.valueExpression source = _
    rw [h.expression]
    cases v.first.expression source with
    | error e => rfl
    | ok e => cases Term.expressions source v.rest <;> rfl
  | some w =>
    show (if op.isText then _ else _) = (if op.isText then _ else _)
    cases op.isText with
    | true => rfl
    | false =>
      cases w with
      | bare cs =>
        show (if Text.sameIgnoringCase cs ['n', 'u', 'l', 'l'] then _ else _) = Except.ok _
        exact (apply_ite Except.ok _ _ _).symm
      | quoted inner => rfl

end Pair

/-! ## The rules of values -/

namespace RuleGrammar

open Pair

variable {term : Scan Term} {termNodes : Scan (List Pair)}

theorem mimics_separated (isMark : Char → Bool)
    (h : Mimics term termNodes fun t _ ps => IsOne IsTerm t ps) :
    Mimics (Grammar.separated isMark term) (separated isMark termNodes) fun v _ ps =>
      List.Forall₂ IsTerm (v.first :: v.rest) ps := by
  have hmark : Mimics (char isMark) (silent (char isMark)) fun _ _ ps => ps = [] :=
    (mimics_silent (takes_char isMark)).mono fun _ _ _ hps => hps.1
  refine (mimics_interleaved Value.mk h hmark (T := List.Forall₂ IsTerm) .nil ?_).mono ?_
  · rintro t p ts _ ps ht rfl hts
    exact .cons ht hts
  · rintro _ _ _ ⟨first, rest, p, ps, rfl, rfl, hfirst, hrest⟩
    exact .cons hfirst hrest

theorem mimics_alternatives (h : Mimics term termNodes fun t _ ps => IsOne IsTerm t ps) :
    Mimics (Grammar.alternatives term) (value termNodes) fun v cs ps =>
      IsOne (fun v p => p.text = cs ∧ IsValue v p) v ps := by
  refine (mimics_rule (mimics_separated (· == '|') h) .value).mono ?_
  rintro v cs _ ⟨span, inner, rfl, hinner⟩
  exact ⟨_, rfl, rfl, isValue_node hinner span cs⟩

theorem mimics_group (h : Mimics term termNodes fun t _ ps => IsOne IsTerm t ps) :
    Mimics (Grammar.group term) (group termNodes) fun v _ ps =>
      IsOne (fun v p => IsAtom (.group v.first v.rest) p) v ps := by
  have hvalue : Mimics (Grammar.alternatives term) (value termNodes) fun v _ ps =>
      IsOne IsValue v ps :=
    (mimics_alternatives h).mono fun _ _ _ ⟨p, hp, _, hv⟩ => ⟨p, hp, hv⟩
  refine (mimics_rule (mimics_bracketed '(' ')' hvalue) .group).mono ?_
  rintro v cs _ ⟨span, _, rfl, p, rfl, hv⟩
  exact ⟨_, rfl, isAtom_group hv span cs⟩

theorem mimics_oneOf (h : Mimics term termNodes fun t _ ps => IsOne IsTerm t ps) :
    Mimics (Grammar.oneOf term) (oneOf termNodes) fun v _ ps =>
      IsOne (fun v p => IsAtom (.oneOf v.first v.rest) p) v ps := by
  have hterms := mimics_separated (fun c => c == ',' || c == '|') h
  refine (mimics_rule (mimics_bracketed '\x7b' '\x7d' hterms) .oneOf).mono ?_
  rintro v cs _ ⟨span, inner, rfl, hv⟩
  exact ⟨_, rfl, isAtom_oneOf hv span cs⟩

theorem mimics_simpleTerm : Mimics simpleTerm (range <|> pattern) fun t _ ps =>
    IsOne IsAtom t ps := by
  refine Mimics.orElse ?_ ?_
  · refine (mimics_range.map_left fun x => Term.range ⟨x.2.1, x.2.2⟩ x.1.1 x.1.2).mono ?_
    rintro _ cs _ ⟨x, rfl, low, between, high, rfl, hlow, hbetween, hhigh⟩
    exact ⟨_, rfl, isAtom_range hlow hbetween hhigh _ cs⟩
  · refine (mimics_pattern.map_left fun x => Term.pattern ⟨x.2.1, x.2.2⟩ x.1).mono ?_
    rintro _ cs _ ⟨x, rfl, inner, rfl, hinner⟩
    exact ⟨_, rfl, isAtom_pattern hinner _ cs⟩

/-- **The rule of terms reads nodes from which their meaning is built**, at every depth. -/
theorem mimics_term (depth : Nat) : Mimics (Grammar.term depth) (RuleGrammar.term depth)
    fun t _ ps => IsOne IsTerm t ps := by
  induction depth with
  | zero => exact Mimics.fail
  | succ depth ih =>
    have hbangs := mimics_leaves ((mimics_leaf (takes_exactly '!') .bang).mono
      fun _ _ _ hleaf => hleaf.1)
    refine (mimics_rule (R := fun t _ ps => ∃ bangs t' p, t = negations bangs.length t' ∧
      ps = bangs ++ [p] ∧ (∀ b ∈ bangs, b.rule = .bang) ∧ IsAtom t' p) ?_ .term).mono ?_
    · refine hbangs.bind fun us _ a ha => ?_
      have hatom : Mimics (bareTerm (Grammar.term depth))
          (group (term depth) <|> oneOf (term depth) <|> range <|> pattern) fun t _ ps =>
          IsOne IsAtom t ps := by
        refine Mimics.orElse ?_ (Mimics.orElse ?_ mimics_simpleTerm)
        · refine ((mimics_group ih).map_left fun v => Term.group v.first v.rest).mono ?_
          rintro _ _ _ ⟨v, rfl, p, rfl, hp⟩
          exact ⟨p, rfl, hp⟩
        · refine ((mimics_oneOf ih).map_left fun v => Term.oneOf v.first v.rest).mono ?_
          rintro _ _ _ ⟨v, rfl, p, rfl, hp⟩
          exact ⟨p, rfl, hp⟩
      refine (((mimics_spaced hatom).map_left (negations us.length)).map_right (a ++ ·)).mono ?_
      rintro _ _ _ ⟨_, rfl, t, rfl, p, rfl, hp⟩
      exact ⟨a, t, p, by rw [ha.1], rfl, ha.2, hp⟩
    · rintro _ cs _ ⟨span, _, rfl, bangs, t, p, rfl, rfl, hbangs, hp⟩
      exact ⟨_, rfl, hp.isTerm hbangs span cs⟩

/-- **The rule of values reads a node of the whole text**, from which the meaning is built. -/
theorem mimics_value (depth : Nat) : Mimics (Grammar.value depth)
    (RuleGrammar.value (RuleGrammar.term depth)) fun v cs ps =>
      IsOne (fun v p => p.text = cs ∧ IsValue v p) v ps :=
  mimics_alternatives (mimics_term depth)

end RuleGrammar

end Sift
