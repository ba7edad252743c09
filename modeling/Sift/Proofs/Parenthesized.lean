import Sift.Proofs.Mirror
import Sift.Proofs.TreeText

/-!
# The grammar in front of what ends a piece

* `Term.Alike`, `Value.Alike`, `Phrase.Alike`: the same piece at another place of another text.
* `Grammar.mirrors_quoted`, `Grammar.mirrors_range`, …: what the grammar reads in front of what ends
  a term it reads as at the end of a text.
* `Grammar.mirrors_term`: the same where brackets are followed, by induction on the depth to which
  they are; following them deeper makes no difference.
* `Grammar.mirrors_member`: so are the members of filters in front of a closing parenthesis.
-/

namespace Sift

open Scan

/-! ## Pieces at other places -/

/-- **A term at another place** means what the term means, and is a single word where that is. -/
structure Term.Alike (t t' : Term) : Prop where
  expression : ∀ source source' e, t.expression source = .ok e ↔ t'.expression source' = .ok e
  word : Value.word? ⟨t', []⟩ = Value.word? ⟨t, []⟩

theorem Term.expressions_alike {ts ts' : List Term} (h : List.Forall₂ Term.Alike ts ts')
    (source source' : String) (es : List Expression) :
    Term.expressions source ts = .ok es ↔ Term.expressions source' ts' = .ok es := by
  induction h generalizing es with
  | nil => exact Iff.rfl
  | cons ht _ ih =>
    rw [Term.expressions, Term.expressions]
    simp only [bind_eq_ok, ht.expression source source', ih]

/-- The terms of a value, or of a set, at another place. -/
structure Value.Alike (v v' : Value) : Prop where
  first : v.first.Alike v'.first
  rest : List.Forall₂ Term.Alike v.rest v'.rest

theorem Value.Alike.word? {v v' : Value} (h : v.Alike v') : v'.word? = v.word? := by
  obtain ⟨first, rest⟩ := v
  obtain ⟨first', rest'⟩ := v'
  obtain ⟨hfirst, hrest⟩ := h
  cases hrest with
  | nil => exact hfirst.word
  | cons _ _ =>
    rw [Value.word?_of_rest_ne_nil (List.cons_ne_nil _ _),
      Value.word?_of_rest_ne_nil (List.cons_ne_nil _ _)]

/-- What the terms of a value mean together is the same elsewhere. -/
theorem Value.Alike.terms {α : Type} {v v' : Value} (h : v.Alike v') (source source' : String)
    (combine : Expression → List Expression → α) (a : α) :
    (do
      let e ← v.first.expression source
      return combine e (← Term.expressions source v.rest)) = Except.ok a ↔
    (do
      let e ← v'.first.expression source'
      return combine e (← Term.expressions source' v'.rest)) = Except.ok a := by
  simp only [bind_eq_ok, h.first.expression source source',
    Term.expressions_alike h.rest source source']

theorem Value.Alike.operand {v v' : Value} (h : v.Alike v') (source source' : String)
    (op : Operator) (o : Operand) :
    v.operand source op = .ok o ↔ v'.operand source' op = .ok o := by
  unfold Value.operand
  rw [h.word?]
  cases v.word? with
  | some w => exact Iff.rfl
  | none => exact h.terms source source' (fun e es => .expression (alternative e es)) o

theorem Value.Alike.group {v v' : Value} (h : v.Alike v') :
    (Term.group v.first v.rest).Alike (.group v'.first v'.rest) := by
  refine ⟨fun source source' e => ?_, rfl⟩
  rw [Term.expression, Term.expression]
  exact h.terms source source' alternative e

theorem Value.Alike.oneOf {v v' : Value} (h : v.Alike v') :
    (Term.oneOf v.first v.rest).Alike (.oneOf v'.first v'.rest) := by
  refine ⟨fun source source' e => ?_, rfl⟩
  rw [Term.expression, Term.expression]
  exact h.terms source source' (fun e es => .oneOf (e :: es)) e

theorem Term.alike_range (span span' : Span) (min max : Option Word) :
    (Term.range span min max).Alike (.range span' min max) := by
  refine ⟨fun source source' e => ?_, rfl⟩
  rw [Term.expression, Term.expression, rangeExpression, rangeExpression]
  cases Interval.ofEnds? (min.map Word.literal) (max.map Word.literal) with
  | some i => exact Iff.rfl
  | none => exact iff_of_false (by simp) (by simp)

theorem Term.alike_pattern (span span' : Span) (p : Pattern) :
    (Term.pattern span p).Alike (.pattern span' p) := by
  refine ⟨fun source source' e => ?_, ?_⟩
  · rw [Term.expression, Term.expression]
    cases p with
    | asterisk => exact Iff.rfl
    | twoAsterisks =>
      -- two asterisks are refused, wherever they stand
      exact iff_of_false (by simp [Pattern.expression]) (by simp [Pattern.expression])
    | word leading w trailing => cases leading <;> cases trailing <;> exact Iff.rfl
  · cases p with
    | word leading w trailing => cases leading <;> cases trailing <;> rfl
    | _ => rfl

theorem Term.Alike.negations {t t' : Term} (h : t.Alike t') :
    ∀ n : Nat, (Grammar.negations n t).Alike (Grammar.negations n t')
  | 0 => h
  | n + 1 => by
    refine ⟨fun source source' e => ?_, rfl⟩
    rw [Grammar.negations, Grammar.negations, Term.expression, Term.expression]
    simp only [map_eq_ok, (h.negations n).expression source source']

/-- **A phrase at another place** stands for the tree that the phrase stands for. -/
def Phrase.Alike (p p' : Phrase) : Prop :=
  ∀ source source' node, p.node source = .ok node ↔ p'.node source' = .ok node

theorem Phrase.nodes_alike {ps ps' : List Phrase} (h : List.Forall₂ Phrase.Alike ps ps')
    (source source' : String) (nodes : List Node) :
    Phrase.nodes source ps = .ok nodes ↔ Phrase.nodes source' ps' = .ok nodes := by
  induction h generalizing nodes with
  | nil => exact Iff.rfl
  | cons hp _ ih =>
    rw [Phrase.nodes, Phrase.nodes]
    simp only [bind_eq_ok, hp source source', ih]

theorem Phrase.Alike.combined {p p' : Phrase} {ps ps' : List Phrase} (h : p.Alike p')
    (hs : List.Forall₂ Phrase.Alike ps ps') (logic : Logic) :
    (Phrase.combined logic p ps).Alike (.combined logic p' ps') := by
  intro source source' node
  rw [Phrase.node_combined, Phrase.node_combined]
  simp only [bind_eq_ok, h source source', Phrase.nodes_alike hs source source']

theorem Phrase.Alike.negations {p p' : Phrase} (h : p.Alike p') :
    ∀ n : Nat, (Grammar.phraseNegations n p).Alike (Grammar.phraseNegations n p')
  | 0 => h
  | n + 1 => by
    intro source source' node
    rw [Grammar.phraseNegations, Grammar.phraseNegations, Phrase.node, Phrase.node]
    simp only [map_eq_ok, h.negations n source source']

theorem Phrase.alike_clause {path : FieldPath} {op : Operator} {value value' : Option Value}
    (h : Option.Rel Value.Alike value value') :
    (Phrase.clause path op value).Alike (.clause path op value') := by
  intro source source' node
  cases h with
  | none => exact Iff.rfl
  | some h =>
    rw [Phrase.node, Phrase.node, FieldPath.filter, FieldPath.filter]
    simp only [map_eq_ok, h.operand source source' op]

namespace Grammar

variable {behind tail : List Char} {room d depth depth' : Nat}

/-! ## Words -/

section Words

variable (hbehind : Stops behind)

include hbehind

/-- The letters of a name, in either case, do not stand behind the text. -/
theorem letters_of_isName {w : List Char} (hw : IsName w) :
    ∀ c ∈ w, ∀ b : Char, b.toLower = c.toLower → isFlat b = true ∧ b ∉ behind.head? := by
  intro c hc b hb
  have hword : Text.isWord b = true := by
    rw [← Text.isWord_toLower, hb, Text.isWord_toLower]
    exact hw c hc
  refine ⟨isFlat_of_isWord hword, fun hmem => ?_⟩
  have hnot : Text.isWord b = false := hbehind.eq_false (by decide) b hmem
  rw [hword] at hnot
  cases hnot

/-- A keyword takes at least its first letter. -/
theorem mirrors_keyword {w : String} (hw : IsName w.toList) (hne : w.toList ≠ []) :
    Mirrors behind 1 room d (keyword w) (keyword w) Eq d := by
  obtain ⟨c, cs, hcs⟩ := List.exists_cons_of_ne_nil hne
  have hletters := letters_of_isName hbehind hw
  rw [hcs, List.forall_mem_cons] at hletters
  refine Mirrors.named ?_
  rw [hcs]
  exact Mirrors.bind (R := Eq) (Mirrors.bind (R := Eq) (mirrors_letter hletters.1)
    fun _ _ _ => mirrors_word hletters.2)
    fun _ _ _ => mirrors_notBefore (hbehind.eq_false (by decide))

theorem mirrors_operator (accepts : Operator → Bool) :
    Mirrors behind 0 room d (operator accepts) (operator accepts) Eq d := by
  have hsome : ∀ ops : List Operator,
      Mirrors behind 0 room d (operatorOf ops) (operatorOf ops) Eq d := by
    intro ops
    induction ops with
    | nil => exact mirrors_fail
    | cons op ops ih =>
      have hword : Mirrors behind 0 room d (word op.token.toList) (word op.token.toList) Eq d :=
        mirrors_word (letters_of_isName hbehind (isName_token op))
      refine Mirrors.orElse (hword.bind fun _ _ _ => ?_) ih
      exact (mirrors_notBefore (hbehind.eq_false (by decide))).bind fun _ _ _ => mirrors_pure rfl
  exact (hsome _).named

/-- Characters of a class without brackets, as many as there are. -/
theorem mirrors_manyChar {accepts : Char → Bool} (h : ∀ c, accepts c = true → isFlat c = true)
    (hend : (['|', ',', ')', '\x7d'].all fun c => !accepts c) = true) :
    Mirrors behind 0 room d (many (char accepts)) (many (char accepts)) Eq d :=
  (mirrors_flat h (hbehind.eq_false hend)).many.mono fun _ _ hcs => by
    rwa [List.forall₂_eq_eq_eq] at hcs

theorem mirrors_identifier : Mirrors behind 1 room d identifier identifier Eq d := by
  refine Mirrors.named ((mirrors_flat (fun c hc =>
    isFlat_of_isWord (Text.isWord_of_isWordStart hc)) (hbehind.eq_false (by decide))).bind ?_)
  rintro c _ rfl
  refine (mirrors_manyChar hbehind (fun _ => isFlat_of_isWord) (by decide)).bind ?_
  rintro cs _ rfl
  exact mirrors_pure rfl

theorem mirrors_bare : Mirrors behind 1 room d bare bare Eq d := by
  refine Mirrors.named ((mirrors_flat (fun c hc => isFlat_of_isBareChar hc)
    (hbehind.eq_false (by decide))).bind ?_)
  rintro c _ rfl
  refine (mirrors_manyChar hbehind (fun _ => isFlat_of_isBareChar) (by decide)).bind ?_
  rintro cs _ rfl
  exact mirrors_pure rfl

/-- A quoted text ends inside of the text around it, which leaves no quote open. -/
theorem mirrors_quoted : Mirrors behind 1 room d quoted quoted Eq d := by
  intro here here' hrest hclosing _
  by_cases hquote : here.rest.head? = some '"'
  · obtain ⟨cs, hcs⟩ := List.head?_eq_some_iff.1 hquote
    rw [hcs] at hclosing
    obtain ⟨inner, rest, rfl, hinner, hclosing'⟩ := hclosing.quoted
    have hcs' : here'.rest = '"' :: (inner ++ '"' :: (rest ++ behind)) := by
      rw [hrest, hcs]
      simp
    obtain ⟨a, there, hfound, hthere, -, rfl⟩ := reads_quoted hinner rest here hcs
    obtain ⟨_, there', hfound', hthere', hstop, rfl⟩ := reads_quoted hinner _ here' hcs'
    rw [hfound, hfound']
    refine ⟨(fun hnone => nomatch hnone), ?_⟩
    rintro _ _ ⟨⟩
    refine ⟨_, there', rfl, by rw [hthere', hthere], hstop, hthere ▸ hclosing', ?_, rfl⟩
    rw [hthere, hcs]
    simp only [List.length_cons, List.length_append]
    omega
  · have hhead : ∀ c ∈ here.rest.head?, c ≠ '"' := by
      rintro c hc rfl
      exact hquote hc
    have hhead' : ∀ c ∈ here'.rest.head?, c ≠ '"' := by
      rw [hrest]
      cases hcs : here.rest with
      | nil =>
        rintro c hc rfl
        exact absurd (hbehind '"' hc) (by decide)
      | cons c cs => exact fun b hb => hhead b (hcs ▸ hb)
    rw [fails_quoted hhead here rfl, fails_quoted hhead' here' rfl]
    exact ⟨fun _ => rfl, fun _ _ h => nomatch h⟩

theorem mirrors_literal : Mirrors behind 1 room d literal literal Eq d := by
  refine Mirrors.orElse ((mirrors_quoted hbehind).map ?_) ((mirrors_bare hbehind).map ?_)
  · rintro inner _ rfl
    rfl
  · rintro cs _ rfl
    rfl

/-! ## Terms without brackets of their own inside -/

theorem mirrors_star : Mirrors behind 1 room d star star Eq d :=
  (mirrors_exactly hbehind (by decide) (by decide)).named

theorem mirrors_pattern : Mirrors behind 0 room d pattern pattern Eq d := by
  have hstar : Mirrors behind 0 room d (optional star) (optional star) Eq d :=
    (mirrors_star hbehind).optional
  have hliteral : Mirrors behind 0 room d (optional literal) (optional literal) Eq d :=
    (mirrors_literal hbehind).optional
  refine Mirrors.named (Mirrors.orElse ((mirrors_star hbehind).zero.bind fun _ _ _ => ?_)
    ((mirrors_literal hbehind).zero.bind ?_))
  · refine hliteral.bind ?_
    rintro w _ rfl
    refine hstar.bind ?_
    rintro trailing _ rfl
    exact mirrors_pure rfl
  · rintro w _ rfl
    refine hstar.bind ?_
    rintro trailing _ rfl
    exact mirrors_pure rfl

theorem mirrors_range : Mirrors behind 0 room d range range Eq d := by
  have hbound : ∀ {room}, Mirrors behind 0 room (d + 1) (spaced bound) (spaced bound) Eq
      (d + 1) := by
    intro room
    refine Mirrors.spaced hbehind (Mirrors.named (Mirrors.orElse
      ((mirrors_star hbehind).zero.bind fun _ _ _ => mirrors_pure rfl)
      ((mirrors_literal hbehind).zero.map ?_)))
    rintro w _ rfl
    rfl
  have hto : ∀ {room}, Mirrors behind 0 room (d + 1) (spaced (keyword "to"))
      (spaced (keyword "to")) Eq (d + 1) := by
    intro room
    exact (mirrors_keyword hbehind (forall_mem_of_all (by decide)) (by decide)).zero.spaced hbehind
  have hclose : ∀ {room}, Mirrors behind 0 room (d + 1) (spaced (exactly ']'))
      (spaced (exactly ']')) Eq d := by
    intro room
    exact (mirrors_closing (by simp)).zero.spaced hbehind
  refine Mirrors.named (Mirrors.zero ((mirrors_opening hbehind (by simp)).bind fun _ _ _ => ?_))
  refine hbound.bind ?_
  rintro min _ rfl
  refine hto.bind fun _ _ _ => hbound.bind ?_
  rintro max _ rfl
  exact hclose.bind fun _ _ _ => mirrors_pure rfl

theorem mirrors_simpleTerm : Mirrors behind 0 room d simpleTerm simpleTerm Term.Alike d := by
  refine Mirrors.orElse ((mirrors_range hbehind).withSpan.bind ?_)
    ((mirrors_pattern hbehind).withSpan.bind ?_)
  · rintro ⟨⟨min, max⟩, offset, length⟩ ⟨_, offset', length'⟩ rfl
    exact mirrors_pure (Term.alike_range _ _ min max)
  · rintro ⟨p, offset, length⟩ ⟨_, offset', length'⟩ rfl
    exact mirrors_pure (Term.alike_pattern _ _ p)

end Words

/-! ## Terms with brackets inside -/

section Terms

variable {t t' : Scan Term} (hbehind : Stops behind)

include hbehind

/-- A mark between terms may be what is behind the text only where a bracket is open. -/
theorem mirrors_separated {mark : Char → Bool} (hmark : ∀ c, mark c = true → isFlat c = true)
    (hend : ∀ c ∈ behind.head?, mark c = true → ¬Closing d [])
    (ht : Mirrors behind 0 room d t t' Term.Alike d) :
    Mirrors behind 0 room d (separated mark t) (separated mark t') Value.Alike d := by
  have hchar : Mirrors behind 1 room d (char mark) (char mark) Eq d :=
    mirrors_char (fun c cs hc hclosing => hclosing.flat (hmark c hc)) hend
  have hitem : Mirrors behind 1 room d (do let _ ← char mark; spaced t)
      (do let _ ← char mark; spaced t') Term.Alike d :=
    hchar.bind fun _ _ _ => (ht.shrink (Nat.sub_le room 1)).spaced hbehind
  refine ht.bind fun first first' hfirst => (mirrors_blanks hbehind).bind fun _ _ _ => ?_
  exact (hitem.manySpaced hbehind).bind fun rest rest' hrest => mirrors_pure ⟨hfirst, hrest⟩

theorem mirrors_alternatives (hend : '|' ∈ behind.head? → ¬Closing d [])
    (ht : Mirrors behind 0 room d t t' Term.Alike d) :
    Mirrors behind 0 room d (alternatives t) (alternatives t') Value.Alike d := by
  refine (mirrors_separated hbehind (fun c hc => ?_) (fun c hc hbar => ?_) ht).named
  · rw [beq_iff_eq.1 hc]
    decide
  · rw [beq_iff_eq.1 hbar] at hc
    exact hend hc

/-- What stands in brackets has one character less of room, and one bracket more to close. -/
theorem mirrors_group (ht : Mirrors behind 0 room (d + 1) t t' Term.Alike (d + 1)) :
    Mirrors behind 1 (room + 1) d (group t) (group t') Value.Alike d := by
  refine Mirrors.named ((mirrors_opening hbehind (by simp)).bind fun _ _ _ => ?_)
  have hinner := mirrors_alternatives hbehind (fun _ => not_closing_nil) ht
  refine (hinner.spaced hbehind).bind fun v v' hv => ?_
  exact ((mirrors_closing (by simp)).zero.spaced hbehind).bind fun _ _ _ => mirrors_pure hv

theorem mirrors_oneOf (ht : Mirrors behind 0 room (d + 1) t t' Term.Alike (d + 1)) :
    Mirrors behind 1 (room + 1) d (oneOf t) (oneOf t') Value.Alike d := by
  refine Mirrors.named ((mirrors_opening hbehind (by simp)).bind fun _ _ _ => ?_)
  have hmark : ∀ c, (c == ',' || c == '|') = true → isFlat c = true := by
    intro c hc
    rw [Bool.or_eq_true, beq_iff_eq, beq_iff_eq] at hc
    rcases hc with rfl | rfl <;> decide
  have hinner := mirrors_separated hbehind hmark (fun _ _ _ => not_closing_nil) ht
  refine (hinner.spaced hbehind).bind fun v v' hv => ?_
  exact ((mirrors_closing (by simp)).zero.spaced hbehind).bind fun _ _ _ => mirrors_pure hv

theorem mirrors_bareTerm (ht : Mirrors behind 0 room (d + 1) t t' Term.Alike (d + 1)) :
    Mirrors behind 0 (room + 1) d (bareTerm t) (bareTerm t') Term.Alike d := by
  refine Mirrors.orElse ((mirrors_group hbehind ht).zero.bind fun v v' hv =>
    mirrors_pure hv.group) ?_
  exact Mirrors.orElse ((mirrors_oneOf hbehind ht).zero.bind fun v v' hv => mirrors_pure hv.oneOf)
    (mirrors_simpleTerm hbehind)

end Terms

/-- **Terms are read alike**, to whatever depth their brackets are followed beyond the length of
the text. -/
theorem mirrors_term (hbehind : Stops behind) (hle : depth ≤ depth') :
    Mirrors behind 0 depth d (Grammar.term depth) (Grammar.term depth') Term.Alike d := by
  induction depth generalizing depth' d with
  | zero => exact fun _ _ _ _ hroom => absurd hroom (Nat.not_lt_zero _)
  | succ depth ih =>
    obtain ⟨depth', rfl⟩ : ∃ n, depth' = n + 1 := ⟨depth' - 1, by omega⟩
    have hbang : Mirrors behind 1 (depth + 1) d (named (exactly '!')) (named (exactly '!')) Eq d :=
      (mirrors_exactly hbehind (by decide) (by decide)).named
    rw [term_succ, term_succ]
    refine Mirrors.named ((hbang.manySpaced hbehind).bind fun bangs bangs' hbangs => ?_)
    have hbare := mirrors_bareTerm (d := d) hbehind (ih (d := d + 1) (Nat.le_of_succ_le_succ hle))
    refine (hbare.spaced hbehind).bind fun t t' ht => mirrors_pure ?_
    rw [← hbangs.length_eq]
    exact ht.negations bangs.length

/-- A closing parenthesis ends a piece. -/
theorem stops_parenthesis : Stops (')' :: tail) := stops_cons (by simp)

theorem mirrors_value (hle : depth ≤ depth') :
    Mirrors (')' :: tail) 0 depth d (value depth) (value depth') Value.Alike d :=
  mirrors_alternatives stops_parenthesis (by simp) (mirrors_term stops_parenthesis hle)

/-! ## Comparisons -/

theorem mirrors_pathStep : Mirrors (')' :: tail) 1 room d pathStep pathStep Eq d := by
  refine Mirrors.orElse ((mirrors_opening stops_parenthesis (by simp)).bind fun _ _ _ => ?_)
    ((mirrors_exactly stops_parenthesis (by decide) (by decide)).bind fun _ _ _ => ?_)
  · refine (mirrors_quoted stops_parenthesis).zero.bind ?_
    rintro inner _ rfl
    exact (mirrors_closing (by simp)).zero.bind fun _ _ _ => mirrors_pure rfl
  · refine (mirrors_identifier stops_parenthesis).zero.bind ?_
    rintro name _ rfl
    exact mirrors_pure rfl

theorem mirrors_field : Mirrors (')' :: tail) 0 room d field field Eq d := by
  refine Mirrors.named ((mirrors_identifier stops_parenthesis).zero.bind ?_)
  rintro first _ rfl
  refine mirrors_pathStep.many.bind fun steps steps' hsteps => mirrors_pure ?_
  rw [List.forall₂_eq_eq_eq] at hsteps
  rw [hsteps]

theorem mirrors_clause (hle : depth ≤ depth') :
    Mirrors (')' :: tail) 0 depth d (clause depth) (clause depth') Phrase.Alike d := by
  refine Mirrors.named (mirrors_field.bind ?_)
  rintro path _ rfl
  refine Mirrors.spaced stops_parenthesis (Mirrors.orElse
    ((mirrors_operator stops_parenthesis _).bind ?_)
    ((mirrors_operator stops_parenthesis _).bind ?_))
  · rintro op _ rfl
    exact mirrors_pure (Phrase.alike_clause .none)
  · rintro op _ rfl
    exact ((mirrors_value hle).spaced stops_parenthesis).bind fun v v' hv =>
      mirrors_pure (Phrase.alike_clause (.some hv))

/-! ## Conjunctions, disjunctions and negations -/

section Members

variable {member member' : Scan Phrase}

theorem mirrors_joinedBy {w : String} (hw : IsName w.toList) (hne : w.toList ≠ [])
    (hmember : Mirrors (')' :: tail) 0 room d member member' Phrase.Alike d) :
    Mirrors (')' :: tail) 0 room d (joinedBy w member) (joinedBy w member')
      (fun ps ps' => ps.1.Alike ps'.1 ∧ List.Forall₂ Phrase.Alike ps.2 ps'.2) d := by
  have hitem : Mirrors (')' :: tail) 1 room d (do keyword w; spaced member)
      (do keyword w; spaced member') Phrase.Alike d :=
    (mirrors_keyword stops_parenthesis hw hne).bind fun _ _ _ =>
      (hmember.shrink (Nat.sub_le room 1)).spaced stops_parenthesis
  refine hmember.bind fun first first' hfirst =>
    (mirrors_blanks stops_parenthesis).bind fun _ _ _ => ?_
  exact (hitem.manySpaced stops_parenthesis).bind fun rest rest' hrest =>
    mirrors_pure ⟨hfirst, hrest⟩

theorem mirrors_disjunction
    (hmember : Mirrors (')' :: tail) 0 room d member member' Phrase.Alike d) :
    Mirrors (')' :: tail) 0 room d (disjunction member) (disjunction member') Phrase.Alike d := by
  have hall : Mirrors (')' :: tail) 0 room d (conjunction member) (conjunction member')
      Phrase.Alike d :=
    Mirrors.named ((mirrors_joinedBy (isName_logic .and) (by decide) hmember).bind
      fun ps ps' hps => mirrors_pure (hps.1.combined hps.2 .and))
  rw [disjunction_eq, disjunction_eq]
  exact Mirrors.named ((mirrors_joinedBy (isName_logic .or) (by decide) hall).bind
    fun ps ps' hps => mirrors_pure (hps.1.combined hps.2 .or))

end Members

/-- **Members are read alike**, to whatever depth parentheses are followed beyond the length of the
text. -/
theorem mirrors_member (hle : depth ≤ depth') :
    Mirrors (')' :: tail) 0 depth d (member depth) (member depth') Phrase.Alike d := by
  induction depth generalizing depth' d with
  | zero => exact fun _ _ _ _ hroom => absurd hroom (Nat.not_lt_zero _)
  | succ depth ih =>
    obtain ⟨depth', rfl⟩ : ∃ n, depth' = n + 1 := ⟨depth' - 1, by omega⟩
    have hnot : Mirrors (')' :: tail) 1 (depth + 1) d (keyword "not") (keyword "not") Eq d :=
      mirrors_keyword stops_parenthesis (forall_mem_of_all (by decide)) (by decide)
    have hinner := mirrors_disjunction (ih (d := d + 1) (Nat.le_of_succ_le_succ hle))
    have hbody : Mirrors (')' :: tail) 0 (depth + 1) d (memberBody depth) (memberBody depth')
        Phrase.Alike d := by
      refine Mirrors.orElse (Mirrors.zero
        ((mirrors_opening stops_parenthesis (by simp)).bind fun _ _ _ => ?_)) (mirrors_clause hle)
      refine (hinner.spaced stops_parenthesis).bind fun p p' hp => ?_
      exact ((mirrors_closing (by simp)).zero.spaced stops_parenthesis).bind fun _ _ _ =>
        mirrors_pure hp
    rw [member_succ, member_succ]
    refine Mirrors.named ((hnot.manySpaced stops_parenthesis).bind fun nots nots' hnots => ?_)
    refine (hbody.spaced stops_parenthesis).bind fun p p' hp => mirrors_pure ?_
    rw [← hnots.length_eq]
    exact hp.negations nots.length

end Grammar

end Sift
