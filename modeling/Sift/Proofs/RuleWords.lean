import Sift.Proofs.NormalForm
import Sift.Proofs.RuleTrees

/-!
# Words, patterns and paths as nodes

* `mimics_operator`: operators as a choice of words with one look at what follows.
* `Pair.IsWord`, `Pair.ArePattern`, `Pair.IsBound`: the nodes of words, patterns and ends of ranges.
* `Pair.patternExpression_eq`, `Pair.rangeExpression_eq`: what is built from them is what they mean.
* `mimics_pattern`, `mimics_range`, `mimics_field`: the rules read these nodes.
-/

namespace Sift

open Scan Grammar

namespace RuleGrammar

/-! ## Operators -/

/-- One of some words, with one look at what follows. -/
def oneWord (words : List String) : Scan Unit := do
  choose (words.map fun w => word w.toList)
  notBefore Text.isWord

theorem takes_words (words : List String) : Takes (choose (words.map fun w => word w.toList))
    fun _ cs => ∃ w ∈ words, cs.map Char.toLower = w.toList.map Char.toLower := by
  induction words with
  | nil => exact takes_fail
  | cons w words ih =>
    refine TakesFrom.orElse ((takes_word _).mono fun _ cs hcs => ⟨w, List.mem_cons_self, hcs⟩)
      (ih.mono fun _ cs => ?_)
    rintro ⟨w', hw', hcs⟩
    exact ⟨w', List.mem_cons_of_mem w hw', hcs⟩

variable {words : List String} {name rest : List Char}

/-- No word is read where another name is. -/
theorem fails_oneWord (hwords : ∀ w ∈ words, IsName w.toList) (hname : IsName name)
    (hne : ∀ w ∈ words, name.map Char.toLower ≠ w.toList.map Char.toLower)
    (hrest : EndsName rest) : Fails (oneWord words) (name ++ rest) := by
  intro here hhere
  cases hfound : (oneWord words here).found with
  | none => rfl
  | some x =>
    exfalso
    obtain ⟨_, there, hchosen, hends⟩ := found_bind_eq_some.1 hfound
    obtain ⟨cs, hcs, -, w, hw, hlower⟩ := takes_words words here () there trivial hchosen
    -- what has been read is the whole name, for nothing of a name follows it
    have hends : EndsName there.rest := by
      intro c hc
      cases hstop : Text.isWord c with
      | false => rfl
      | true =>
        obtain ⟨ds, hds⟩ : ∃ ds, there.rest = c :: ds := List.head?_eq_some_iff.1 hc
        rw [fails_notBefore hstop there hds] at hends
        cases hends
    rw [hhere] at hcs
    have hcsname : IsName cs := (hwords w hw).of_lower hlower
    have hprefix := hcsname.prefix_of_append hrest hcs
    have hprefix' := hname.prefix_of_append hends hcs.symm
    have hlength : cs.length = name.length := le_antisymm hprefix.length_le hprefix'.length_le
    have hsame : cs = name := hprefix.eq_of_length hlength
    exact hne w hw (hsame ▸ hlower)

/-- **A word is read where it stands**, if no word before it is the beginning of it. -/
theorem reads_oneWord (hwords : ∀ w ∈ words, IsName w.toList)
    (hpair : words.Pairwise fun a b =>
      ¬a.toList.map Char.toLower <+: b.toList.map Char.toLower) {w : String} (hw : w ∈ words)
    (hlower : name.map Char.toLower = w.toList.map Char.toLower) (hrest : EndsName rest) :
    Reads (oneWord words) (fun _ => True) (name ++ rest) rest := by
  refine Reads.bind (P := fun _ => True) ?_ fun _ _ => Reads.notBefore hrest trivial
  induction words with
  | nil => cases hw
  | cons a words ih =>
    by_cases ha : name.map Char.toLower = a.toList.map Char.toLower
    · exact Reads.orElse_left (reads_word trivial ha)
    · have hmem : w ∈ words := (List.mem_cons.1 hw).resolve_left fun heq => ha (heq ▸ hlower)
      rw [List.pairwise_cons] at hpair
      have hothers : ∀ w ∈ words, IsName w.toList :=
        fun w hw => hwords w (List.mem_cons_of_mem a hw)
      refine Reads.orElse_right ?_ (ih hothers hpair.2 hmem)
      intro here hhere
      cases hfound : (word a.toList here).found with
      | none => rfl
      | some x =>
        obtain ⟨cs, hcs, -, hlower'⟩ := takes_word _ here x.1 x.2 trivial hfound
        rw [hhere] at hcs
        have hname : IsName cs := (hwords a List.mem_cons_self).of_lower hlower'
        have hprefix := hname.prefix_of_append hrest hcs
        have hstart := hprefix.map Char.toLower
        rw [hlower', hlower] at hstart
        exact absurd hstart (hpair.1 w hmem)

theorem ofToken?_of_lower {op : Operator} {cs : List Char}
    (h : cs.map Char.toLower = op.token.toList.map Char.toLower) :
    Operator.ofToken? (String.ofList cs) = some op := by
  have hsame (o : Operator) : Text.sameWord o.token (String.ofList cs) = true ↔ o = op := by
    rw [Text.sameWord, Text.sameIgnoringCase, String.toList_ofList, beq_iff_eq, h]
    exact ⟨token_injective, fun ho => ho ▸ rfl⟩
  cases hfind : Operator.ofToken? (String.ofList cs) with
  | none =>
    have hnot := List.find?_eq_none.1 hfind op (mem_all op)
    exact absurd ((hsame op).2 rfl) hnot
  | some o =>
    have ho := List.find?_some (l := Operator.all) hfind
    rw [(hsame o).1 ho]

/-- **Operators are read by their words**, of which none goes on as a later one does. -/
theorem mimics_operator {accepts : Operator → Bool} (r : Rule)
    (hwords : ∀ op, accepts op = true ↔ op.token ∈ words)
    (htokens : ∀ w ∈ words, w ∈ Operator.all.map Operator.token)
    (hpair : words.Pairwise fun a b =>
      ¬a.toList.map Char.toLower <+: b.toList.map Char.toLower) :
    Mimics (Grammar.operator accepts) (operator r words) fun op cs ps =>
      accepts op = true ∧ Operator.ofToken? (String.ofList cs) = some op ∧
        ∃ span, ps = [.node r span cs []] := by
  have hnames : ∀ w ∈ words, IsName w.toList := by
    intro w hw
    obtain ⟨op, -, rfl⟩ := List.mem_map.1 (htokens w hw)
    exact isName_token op
  have hops (op : Operator) : op ∈ Operator.all.filter accepts ↔ op.token ∈ words := by
    rw [List.mem_filter, ← hwords]
    exact and_iff_right (mem_all op)
  have hchoice : Mimics (operatorOf (Operator.all.filter accepts)) (oneWord words) fun op cs _ =>
      accepts op = true ∧ Operator.ofToken? (String.ofList cs) = some op := by
    refine Mimics.of_quiet ?_ ((quiet_choose ?_).bind fun _ => quiet_notBefore _) fun before => ?_
    · refine quiet_choose fun p hp => ?_
      obtain ⟨op, -, rfl⟩ := List.mem_map.1 hp
      exact (quiet_word _).bind fun _ => (quiet_notBefore _).bind fun _ => quiet_pure _
    · intro p hp
      obtain ⟨w, -, rfl⟩ := List.mem_map.1 hp
      exact quiet_word _
    -- the name ahead is the word of an operator, or of none
    have hsplit := List.takeWhile_append_dropWhile (p := Text.isWord) (l := before)
    have hname : IsName (before.takeWhile Text.isWord) := fun c hc => List.mem_takeWhile_imp hc
    have hends : EndsName (before.dropWhile Text.isWord) := head?_dropWhile Text.isWord before
    generalize before.takeWhile Text.isWord = name at hsplit hname
    generalize before.dropWhile Text.isWord = rest at hsplit hends
    subst hsplit
    by_cases hop : ∃ op ∈ Operator.all.filter accepts,
        name.map Char.toLower = op.token.toList.map Char.toLower
    · obtain ⟨op, hop, hlower⟩ := hop
      have haccepts : accepts op = true := (List.mem_filter.1 hop).2
      exact Or.inr ⟨op, name, rest, rfl, reads_operatorOf hop hlower hends,
        (reads_oneWord hnames hpair ((hops op).1 hop) hlower hends).mono fun _ _ =>
          ⟨haccepts, ofToken?_of_lower hlower⟩⟩
    · simp only [not_exists, not_and] at hop
      refine Or.inl ⟨fails_operatorOf hname hop hends, fails_oneWord hnames hname ?_ hends⟩
      intro w hw
      obtain ⟨op, -, rfl⟩ := List.mem_map.1 (htokens w hw)
      exact hop op ((hops op).2 hw)
  refine (mimics_rule (mimics_silent_of hchoice) r).mono ?_
  rintro op cs ps ⟨span, inner, rfl, rfl, _, haccepts, htoken⟩
  exact ⟨haccepts, htoken, span, rfl⟩

/-! ## Names and words -/

theorem mimics_keyword (r : Rule) (w : String) : Mimics (Grammar.keyword w) (keyword r w)
    fun _ cs ps => IsLeaf r cs ps := by
  have htakes : Takes (do word w.toList; notBefore Text.isWord) fun _ _ => True :=
    (takes_word _).bind fun _ _ _ => (takes_notBefore _).mono fun _ _ _ => trivial
  exact (mimics_leaf htakes r).mono fun _ _ _ h => h.1

theorem mimics_star : Mimics Grammar.star star fun _ cs ps => IsLeaf .star cs ps :=
  (mimics_leaf (takes_exactly '*') .star).mono fun _ _ _ h => h.1

/-- A first character and more of them, of which the one scanner makes a list. -/
theorem mimics_run (first more : Char → Bool) (r : Rule) :
    Mimics (named do
        let c ← char first
        let rest ← many (char more)
        return c :: rest)
      (rule r (silent do
        let _ ← char first
        many (char more))) fun name cs ps => IsLeaf r cs ps ∧ name = cs := by
  have hrun : Mimics (do
        let c ← char first
        let rest ← many (char more)
        return c :: rest)
      (do
        let _ ← char first
        many (char more)) fun name cs _ => name = cs := by
    refine (Mimics.refl (takes_char first)).bind fun c cs d hc => ?_
    refine ((Mimics.refl (takes_manyChar more)).map_left (c :: ·)).mono ?_
    rintro name cs' rest ⟨rest', rfl, -, rfl, -⟩
    rw [hc.2.2, List.singleton_append]
  refine (mimics_rule (mimics_silent_of hrun) r).mono ?_
  rintro name cs ps ⟨span, inner, rfl, rfl, _, rfl⟩
  exact ⟨⟨span, rfl⟩, rfl⟩

theorem mimics_identifier : Mimics Grammar.identifier identifier fun name cs ps =>
    IsLeaf .identifier cs ps ∧ name = cs :=
  mimics_run Text.isWordStart Text.isWord .identifier

theorem mimics_bare : Mimics Grammar.bare bare fun cs' cs ps => IsLeaf .bare cs ps ∧ cs' = cs :=
  mimics_run Grammar.isBareChar Grammar.isBareChar .bare

theorem mimics_quotedInner : Mimics Grammar.quotedInner quotedInner fun inner cs ps =>
    IsLeaf .quotedInner cs ps ∧ inner = cs := by
  have hpieces : Takes (many quotedPiece) fun pieces cs => pieces.flatten = cs := by
    refine takes_quotedPiece.many rfl ?_
    rintro piece pieces cs cs' ⟨rfl, -⟩ rfl
    rfl
  have hinner : Mimics (List.flatten <$> many quotedPiece) (many quotedPiece)
      fun inner cs _ => inner = cs := by
    refine ((Mimics.refl hpieces).map_left List.flatten).mono ?_
    rintro _ _ _ ⟨pieces, rfl, -, rfl⟩
    rfl
  refine (mimics_rule (mimics_silent_of hinner) .quotedInner).mono ?_
  rintro inner cs ps ⟨span, _, rfl, rfl, _, rfl⟩
  exact ⟨⟨span, rfl⟩, rfl⟩

end RuleGrammar

/-! ## What is built from words -/

/-- The node of a word. -/
inductive Pair.IsWord : Word → Pair → Prop
  | bare (span : Span) (cs : List Char) : IsWord (.bare cs) (.node .bare span cs [])
  | quoted (span inside : Span) (cs inner : List Char) :
    IsWord (.quoted inner) (.node .quoted span cs [.node .quotedInner inside inner []])

/-- Whether a word has no quotes. -/
def Word.isBare : Word → Bool
  | bare _ => true
  | quoted _ => false

/-- Nothing, or an asterisk. -/
inductive Pair.AreStars : Bool → List Pair → Prop
  | none : AreStars false []
  | one (span : Span) (cs : List Char) : AreStars true [.node .star span cs []]

/-- The nodes of a pattern. -/
inductive Pair.ArePattern : Pattern → List Pair → Prop
  | asterisk {stars : List Pair} : AreStars true stars → ArePattern .asterisk stars
  | twoAsterisks {leading trailing : List Pair} : AreStars true leading → AreStars true trailing →
    ArePattern .twoAsterisks (leading ++ trailing)
  | word {isLeading isTrailing : Bool} {leading trailing : List Pair} {w : Word} {p : Pair} :
    AreStars isLeading leading → IsWord w p → AreStars isTrailing trailing →
    ArePattern (.word isLeading w isTrailing) (leading ++ p :: trailing)

/-- The node of an end of a range. -/
inductive Pair.IsBound : Option Word → Pair → Prop
  | opened (span star : Span) (cs cs' : List Char) :
    IsBound none (.node .bound span cs [.node .star star cs' []])
  | word (span : Span) (cs : List Char) {w : Word} {p : Pair} :
    IsWord w p → IsBound (some w) (.node .bound span cs [p])

namespace Pair

variable {source : String} {span : Span} {cs : List Char} {w : Word} {p : Pair}

theorem IsWord.word? (h : IsWord w p) : p.word? = some (w.text, w.isBare) := by
  cases h <;> rfl

/-- **What is built from a pattern is what it means.** -/
theorem patternExpression_eq {q : Pattern} {inner : List Pair} (h : ArePattern q inner) :
    (node .pattern span cs inner).patternExpression source = q.expression source span := by
  cases h with
  | asterisk hstars => cases hstars; rfl
  | twoAsterisks hleading htrailing => cases hleading; cases htrailing; rfl
  | word hleading hword htrailing =>
    cases hleading <;> cases hword <;> cases htrailing <;> rfl

theorem boundExpression_eq {end? : Option Word} (h : IsBound end? p) :
    p.boundExpression source = .ok (end?.map fun w => .literal w.literal) := by
  cases h with
  | opened => rfl
  | word _ _ hword => cases hword <;> rfl

theorem IsBound.rule {end? : Option Word} (h : IsBound end? p) : p.rule = .bound := by
  cases h <;> rfl

/-- The ends of a range are literals, so that nothing but both being open is refused. -/
theorem rangeOf_literals (min max : Option Literal) :
    Expression.rangeOf (min.map .literal) (max.map .literal) =
      match Interval.ofEnds? min max with
      | some i => .ok (.range i)
      | none => .error (.missing "min/max") := by
  cases min <;> cases max <;> rfl

/-- **What is built from a range is what it means.** -/
theorem rangeExpression_eq {min max : Option Word} {low between high : Pair}
    (hlow : IsBound min low) (hto : between.rule = .kwTo) (hhigh : IsBound max high) :
    (node .range span cs [low, between, high]).rangeExpression source =
      Sift.rangeExpression source span min max := by
  have hbounds : [low, between, high].filter (·.rule == .bound) = [low, high] := by
    simp [hlow.rule, hto, hhigh.rule]
  rw [Pair.rangeExpression, Pair.inner, hbounds]
  show (low.boundExpression source >>= fun min => high.boundExpression source >>= fun max =>
    (Expression.rangeOf min max).mapError fun e =>
      (node .range span cs [low, between, high]).refusal source (.ofRange e)) = _
  rw [boundExpression_eq hlow, boundExpression_eq hhigh]
  show (Expression.rangeOf (min.map fun w => .literal w.literal)
    (max.map fun w => .literal w.literal)).mapError _ = _
  have hmap (end? : Option Word) : (end?.map fun w => Expression.literal w.literal) =
      (end?.map Word.literal).map .literal := by rw [Option.map_map]; rfl
  rw [hmap, hmap, rangeOf_literals, Sift.rangeExpression]
  cases Interval.ofEnds? (min.map Word.literal) (max.map Word.literal) <;> rfl

end Pair

/-! ## Patterns, ranges and paths -/

namespace RuleGrammar

open Pair

theorem mimics_quoted : Mimics Grammar.quoted quoted fun inner _ ps =>
    ∃ p, ps = [p] ∧ IsWord (.quoted inner) p := by
  refine (mimics_rule (R := fun inner _ ps => ∃ span, ps = [.node .quotedInner span inner []])
    ?_ .quoted).mono ?_
  · refine (mimics_silent (takes_exactly '"')).bind fun _ _ a ha => ?_
    refine mimics_quotedInner.bind fun inner cs b hb => ?_
    refine (((mimics_silent (takes_exactly '"')).map_left fun _ => inner).map_right
      (a ++ b ++ ·)).mono ?_
    rintro _ cs' ps ⟨c, rfl, _, rfl, rfl, -⟩
    obtain ⟨⟨span, rfl⟩, rfl⟩ := hb
    exact ⟨span, by rw [ha.1, List.nil_append, List.append_nil]⟩
  · rintro inner cs ps ⟨span, _, rfl, inside, rfl⟩
    exact ⟨_, rfl, .quoted span inside cs inner⟩

theorem mimics_literal : Mimics Grammar.literal literal fun w _ ps =>
    ∃ p, ps = [p] ∧ IsWord w p := by
  refine Mimics.orElse ((mimics_quoted.map_left Word.quoted).mono ?_)
    ((mimics_bare.map_left Word.bare).mono ?_)
  · rintro _ cs ps ⟨inner, rfl, h⟩
    exact h
  · rintro _ cs ps ⟨_, rfl, ⟨span, rfl⟩, rfl⟩
    exact ⟨_, rfl, .bare span _⟩

theorem areStars_of_isLeaf {cs : List Char} {ps : List Pair} (h : IsLeaf .star cs ps) :
    AreStars true ps := by
  obtain ⟨span, rfl⟩ := h
  exact .one span cs

theorem mimics_stars : Mimics (Scan.optional Grammar.star) (perhaps star) fun o _ ps =>
    AreStars o.isSome ps :=
  mimics_perhaps mimics_star (fun _ _ _ h => areStars_of_isLeaf h) .none

/-- The children of a pattern. -/
theorem mimics_pattern : Mimics (withSpan Grammar.pattern) pattern fun x cs ps =>
    ∃ inner, ps = [.node .pattern ⟨x.2.1, x.2.2⟩ cs inner] ∧ ArePattern x.1 inner := by
  refine mimics_rule_withSpan (R := fun q _ ps => ArePattern q ps) ?_ .pattern
  refine Mimics.orElse ?_ ?_
  · refine mimics_star.bind fun _ _ a ha => ?_
    have hword : Mimics (Scan.optional Grammar.literal) (perhaps literal) fun o _ ps =>
        o = none ∧ ps = [] ∨ ∃ w p, o = some w ∧ ps = [p] ∧ IsWord w p :=
      mimics_perhaps mimics_literal (S := fun o ps =>
        o = none ∧ ps = [] ∨ ∃ w p, o = some w ∧ ps = [p] ∧ IsWord w p)
        (fun w _ ps ⟨p, hp, hw⟩ => Or.inr ⟨w, p, rfl, hp, hw⟩) (Or.inl ⟨rfl, rfl⟩)
    refine hword.bind fun word _ b hb => ?_
    refine ((mimics_stars.map_left _).map_right (a ++ b ++ ·)).mono ?_
    rintro _ cs ps ⟨c, rfl, trailing, rfl, hc⟩
    have hleading := areStars_of_isLeaf ha
    rcases hb with ⟨rfl, rfl⟩ | ⟨w, p, rfl, rfl, hw⟩
    · rw [List.append_nil]
      cases trailing with
      | none =>
        cases hc
        rw [List.append_nil]
        exact .asterisk hleading
      | some star => exact .twoAsterisks hleading hc
    · rw [List.append_assoc]
      exact .word hleading hw hc
  · refine mimics_literal.bind fun w _ a ha => ?_
    refine ((mimics_stars.map_left _).map_right (a ++ ·)).mono ?_
    rintro _ cs ps ⟨c, rfl, trailing, rfl, hc⟩
    obtain ⟨p, rfl, hw⟩ := ha
    exact .word .none hw hc

theorem mimics_bound : Mimics Grammar.bound bound fun o _ ps => ∃ p, ps = [p] ∧ IsBound o p := by
  refine (mimics_rule (R := fun o _ ps => o = none ∧ (∃ cs, IsLeaf .star cs ps) ∨
    ∃ w p, o = some w ∧ ps = [p] ∧ IsWord w p) (Mimics.orElse ?_ ?_) .bound).mono ?_
  · refine (mimics_star.map_left fun _ => none).mono ?_
    rintro _ cs ps ⟨_, rfl, h⟩
    exact Or.inl ⟨rfl, cs, h⟩
  · refine (mimics_literal.map_left some).mono ?_
    rintro _ cs ps ⟨w, rfl, p, hp, hw⟩
    exact Or.inr ⟨w, p, rfl, hp, hw⟩
  · rintro o cs ps ⟨span, inner, rfl, ⟨rfl, cs', star, rfl⟩ | ⟨w, p, rfl, rfl, hw⟩⟩
    · exact ⟨_, rfl, .opened span star cs cs'⟩
    · exact ⟨_, rfl, .word span cs hw⟩

theorem mimics_range : Mimics (withSpan Grammar.range) range fun x cs ps =>
    ∃ low between high, ps = [.node .range ⟨x.2.1, x.2.2⟩ cs [low, between, high]] ∧
      IsBound x.1.1 low ∧ between.rule = .kwTo ∧ IsBound x.1.2 high := by
  refine (mimics_rule_withSpan (R := fun ends _ ps => ∃ low between high,
    ps = [low, between, high] ∧ IsBound ends.1 low ∧ between.rule = .kwTo ∧ IsBound ends.2 high)
    ?_ .range).mono ?_
  · refine (mimics_silent (takes_exactly '[')).bind fun _ _ a ha => ?_
    refine (mimics_spaced mimics_bound).bind fun min _ b hb => ?_
    have hto : Mimics (Grammar.keyword "to") (keyword .kwTo "to") fun _ _ ps =>
        ∃ p, ps = [p] ∧ p.rule = .kwTo :=
      (mimics_keyword .kwTo "to").mono fun _ _ _ ⟨_, h⟩ => ⟨_, h, rfl⟩
    refine (mimics_spaced hto).bind fun _ _ c hc => ?_
    refine (mimics_spaced mimics_bound).bind fun max _ d hd => ?_
    refine (((mimics_mark ']').map_left fun _ => (min, max)).map_right
      (a ++ b ++ c ++ d ++ ·)).mono ?_
    rintro _ cs ps ⟨e, rfl, _, rfl, rfl⟩
    obtain ⟨low, rfl, hlow⟩ := hb
    obtain ⟨between, rfl, hbetween⟩ := hc
    obtain ⟨high, rfl, hhigh⟩ := hd
    rw [ha.1]
    exact ⟨low, between, high, rfl, hlow, hbetween, hhigh⟩
  · rintro x cs ps ⟨_, rfl, low, between, high, rfl, h⟩
    exact ⟨low, between, high, rfl, h⟩

theorem mimics_pathStep : Mimics Grammar.pathStep pathStep fun _ _ _ => True := by
  refine Mimics.orElse ?_ ?_
  · refine (mimics_silent (takes_exactly '[')).bind fun _ _ a _ => ?_
    refine mimics_quoted.bind fun inner _ b _ => ?_
    have hclose := mimics_silent (takes_exactly ']')
    exact ((hclose.map_left fun _ => PathStep.bracketed inner).map_right (a ++ b ++ ·)).mono
      fun _ _ _ _ => trivial
  · refine (mimics_silent (takes_exactly '.')).bind fun _ _ a _ => ?_
    exact ((mimics_identifier.map_left PathStep.dotted).map_right (a ++ ·)).mono
      fun _ _ _ _ => trivial

/-- **The text of a field is its path as it is written.** -/
theorem mimics_field : Mimics Grammar.field field fun path cs ps =>
    ∃ span inner, ps = [.node .field span cs inner] ∧ String.ofList cs = path.written := by
  have hsteps : Mimics (many Grammar.pathStep) (repeated pathStep) fun _ _ _ => True :=
    ((mimics_pathStep.many (T := fun _ _ _ => True) trivial fun _ _ _ _ _ _ _ _ =>
      trivial).map_right List.flatten).mono fun _ _ _ _ => trivial
  refine ((mimics_rule (R := fun _ _ _ => True) ?_ .field).and_takes takes_field_written).mono ?_
  · refine mimics_identifier.bind fun first _ a _ => ?_
    exact ((hsteps.map_left (FieldPath.mk first)).map_right (a ++ ·)).mono fun _ _ _ _ => trivial
  · rintro path cs ps ⟨⟨span, inner, rfl, -⟩, -, hwritten⟩
    exact ⟨span, inner, rfl, by rw [← hwritten, String.ofList_toList]⟩

end RuleGrammar

end Sift
