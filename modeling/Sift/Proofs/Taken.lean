import Sift.Proofs.Consumed
import Sift.Proofs.Terms
import Sift.Proofs.ValueText

/-!
# What the grammar takes from a text

* `Grammar.takes_value`: the brackets of a value are those of its terms.
* `FieldPath.Valid`, `Phrase.Valid`: the paths and phrases that are read.
* `Phrase.nesting`, `Phrase.groups`: how deep the brackets of a phrase nest, and the groups that it
  makes.
* `Grammar.takes_field`: no path begins with the word for a negation.
* `Grammar.takes_whole`: a text is read as a valid phrase with the brackets of the text.
-/

namespace Sift

/-! ## Words and values of a text -/

theorem Nests.blanks {n : Nat} {bs cs : List Char} (hbs : Scan.AllBlank bs) (h : Nests n cs) :
    Nests n (bs ++ cs) := by
  have hflat : Nests 0 bs := nests_flat fun c hc =>
    forall_mem_of_all (P := (isFlat · = true)) (by decide) c (Scan.mem_of_isBlank (hbs c hc))
  simpa using hflat.append h

theorem isFlat_of_isWord {c : Char} (h : Text.isWord c = true) : isFlat c = true := by
  unfold isFlat
  rw [contains_eq_false_of_all (by decide) h]
  rfl

namespace Grammar

open Scan

theorem takes_manyChar (accepts : Char → Bool) : Takes (many (char accepts)) fun as cs =>
    as = cs ∧ ∀ c ∈ cs, accepts c = true := by
  refine (takes_char accepts).many ⟨rfl, by simp⟩ ?_
  rintro a as _ cs ⟨ha, rfl⟩ ⟨rfl, hcs⟩
  exact ⟨rfl, List.forall_mem_cons.2 ⟨ha, hcs⟩⟩

/-- A name: a letter or an underscore, then letters, digits and underscores. -/
def IsIdentifier (cs : List Char) : Prop :=
  ∃ c rest, cs = c :: rest ∧ Text.isWordStart c = true ∧ ∀ d ∈ rest, Text.isWord d = true

theorem IsIdentifier.isWord {cs : List Char} (h : IsIdentifier cs) :
    ∀ c ∈ cs, Text.isWord c = true := by
  obtain ⟨c, rest, rfl, hc, hrest⟩ := h
  exact List.forall_mem_cons.2 ⟨Text.isWord_of_isWordStart hc, hrest⟩

theorem takes_identifier : Takes identifier fun name cs => name = cs ∧ IsIdentifier cs := by
  refine TakesFrom.named ((takes_char _).bind fun c _ hc => (takes_manyChar _).bind
    fun as cs has => takes_pure ?_)
  obtain ⟨hstart, rfl⟩ := hc
  obtain ⟨rfl, has⟩ := has
  rw [List.append_nil]
  exact ⟨rfl, c, as, rfl, hstart, has⟩

theorem takes_bare : Takes bare fun name cs => name = cs ∧ Nests 0 cs := by
  refine TakesFrom.named ((takes_char _).bind fun c _ hc => (takes_manyChar _).bind
    fun as cs has => takes_pure ?_)
  obtain ⟨hstart, rfl⟩ := hc
  obtain ⟨rfl, has⟩ := has
  rw [List.append_nil]
  exact ⟨rfl, nests_bare (List.forall_mem_cons.2 ⟨hstart, has⟩)⟩

theorem takes_quotedPiece : Takes quotedPiece fun piece cs =>
    piece = cs ∧ ∀ rest, QuotedInner rest → QuotedInner (piece ++ rest) := by
  refine TakesFrom.orElse ((takes_char _).bind fun c cs hc => takes_pure ?_)
    ((takes_exactly _).bind fun _ cs hcs => (takes_char _).bind fun c cs' hc => takes_pure ?_)
  · obtain ⟨hc, rfl⟩ := hc
    simp only [Bool.and_eq_true, bne_iff_ne] at hc
    exact ⟨rfl, fun rest hrest => .plain hc.1 hc.2 hrest⟩
  · obtain ⟨-, rfl⟩ := hc
    rw [hcs]
    exact ⟨rfl, fun rest hrest => .kept c hrest⟩

theorem takes_quoted : Takes quoted fun inner cs =>
    QuotedInner inner ∧ cs = '"' :: (inner ++ ['"']) := by
  have hinner : Takes quotedInner fun inner cs => inner = cs ∧ QuotedInner inner := by
    refine TakesFrom.named (TakesFrom.bind (R := fun pieces cs =>
      pieces.flatten = cs ∧ QuotedInner cs) (takes_quotedPiece.many ⟨rfl, .nil⟩ ?_)
      fun pieces cs h => takes_pure ?_)
    · rintro piece pieces _ cs ⟨rfl, hpiece⟩ ⟨rfl, hrest⟩
      exact ⟨rfl, hpiece _ hrest⟩
    · rw [List.append_nil]
      exact ⟨h.1, h.1 ▸ h.2⟩
  refine TakesFrom.named ((takes_exactly _).bind fun _ cs hcs => hinner.bind fun inner cs' hin =>
    (takes_exactly _).bind fun _ cs'' hcs'' => takes_pure ?_)
  obtain ⟨rfl, hin⟩ := hin
  rw [hcs, hcs'', List.append_nil]
  exact ⟨hin, rfl⟩

theorem takes_literal : Takes literal fun _ cs => Nests 0 cs := by
  refine TakesFrom.orElse (takes_quoted.map fun inner cs h => ?_) (takes_bare.map fun _ _ h => h.2)
  rw [h.2]
  exact nests_quoted h.1

theorem takes_keyword (w : String) : Takes (keyword w) fun _ cs =>
    cs.map Char.toLower = w.toList.map Char.toLower := by
  refine TakesFrom.named ((takes_word _).bind fun _ cs hcs =>
    (takes_notBefore _).mono fun _ cs' hcs' => ?_)
  rw [hcs', List.append_nil, hcs]

/-- What is a name up to case has no brackets. -/
theorem nests_of_lower {w cs : List Char} (hw : IsName w)
    (h : cs.map Char.toLower = w.map Char.toLower) : Nests 0 cs :=
  nests_flat fun c hc => isFlat_of_isWord (hw.of_lower h c hc)

theorem takes_operatorOf (ops : List Operator) :
    Takes (operatorOf ops) fun op cs => op ∈ ops ∧ Nests 0 cs := by
  induction ops with
  | nil => exact takes_fail
  | cons o ops ih =>
    refine TakesFrom.orElse ((takes_word _).bind fun _ cs hcs => (takes_notBefore _).bind
      fun _ cs' hcs' => takes_pure ?_) (ih.mono fun op cs h => ⟨List.mem_cons_of_mem o h.1, h.2⟩)
    rw [hcs', List.append_nil, List.append_nil]
    exact ⟨List.mem_cons_self, nests_of_lower (isName_token o) hcs⟩

theorem takes_operator (accepts : Operator → Bool) :
    Takes (operator accepts) fun op cs => accepts op = true ∧ Nests 0 cs :=
  TakesFrom.named ((takes_operatorOf _).mono fun _ _ h => ⟨(List.mem_filter.1 h.1).2, h.2⟩)

theorem nests_star : Nests 0 ['*'] := nests_flat (forall_mem_of_all (by decide))

theorem takes_star : Takes star fun _ cs => Nests 0 cs :=
  TakesFrom.named ((takes_exactly _).mono fun _ _ h => h ▸ nests_star)

theorem takes_pattern : Takes pattern fun _ cs => Nests 0 cs := by
  have hstar : Takes (optional star) fun _ cs => Nests 0 cs :=
    takes_star.optional (fun _ _ h => h) nests_nil
  have hword : Takes (optional literal) fun _ cs => Nests 0 cs :=
    takes_literal.optional (fun _ _ h => h) nests_nil
  refine TakesFrom.named (TakesFrom.orElse ?_ ?_)
  · exact takes_star.bind fun _ a ha => hword.bind fun _ b hb => hstar.bind fun _ c hc =>
      takes_pure (ha.append (hb.append (hc.append nests_nil)))
  · exact takes_literal.bind fun _ a ha => hstar.bind fun _ b hb =>
      takes_pure (ha.append (hb.append nests_nil))

theorem takes_bound : Takes bound fun _ cs => Nests 0 cs := by
  refine TakesFrom.named (TakesFrom.orElse (takes_star.bind fun _ a ha => takes_pure ?_)
    (takes_literal.map fun _ _ h => h))
  rw [List.append_nil]
  exact ha

/-- White space in front adds no brackets. -/
theorem takes_spaced_nests {α : Type} {p : Scan α} {n : α → Nat}
    (h : Takes p fun a cs => Nests (n a) cs) : Takes (spaced p) fun a cs => Nests (n a) cs :=
  TakesFrom.spaced h.from fun _ _ _ hbs ha => ha.blanks hbs

/-- A closing bracket after white space. -/
theorem takes_closing (c : Char) : Takes (spaced (exactly c)) fun _ cs =>
    ∃ bs, AllBlank bs ∧ cs = bs ++ [c] :=
  TakesFrom.spaced (takes_exactly c).from fun _ bs _ hbs h => ⟨bs, hbs, by rw [h]⟩

/-- What stands between an opening bracket and a closing one after white space. -/
theorem nests_closed {n : Nat} {a b : Char} {cs bs : List Char} (ha : a ∈ ['(', '[', '\x7b'])
    (hb : b ∈ [')', ']', '\x7d']) (hbs : AllBlank bs) (h : Nests n cs) :
    Nests (n + 1) ([a] ++ (cs ++ ((bs ++ [b]) ++ []))) := by
  have hblank : Nests 0 bs := by
    have := nests_nil.blanks hbs
    rwa [List.append_nil] at this
  have hinner := (h.append hblank).brackets ha hb
  simpa only [List.singleton_append, List.append_nil, List.append_assoc, Nat.max_zero] using hinner

theorem takes_range : Takes range fun _ cs => Nests 1 cs := by
  have hbound := takes_spaced_nests (n := fun _ => 0) takes_bound
  have hto : Takes (spaced (keyword "to")) fun _ cs => Nests 0 cs :=
    takes_spaced_nests (n := fun _ => 0) ((takes_keyword "to").mono fun _ _ h =>
      nests_of_lower (forall_mem_of_all (by decide)) h)
  refine TakesFrom.named ((takes_exactly _).bind fun _ a ha => hbound.bind fun _ b hb =>
    hto.bind fun _ c hc => hbound.bind fun _ d hd => (takes_closing ']').bind fun _ e he =>
      takes_pure ?_)
  obtain ⟨bs, hbs, rfl⟩ := he
  have hinner := nests_closed (a := '[') (b := ']') (by simp) (by simp) hbs
    (hb.append (hc.append hd))
  rw [ha]
  simpa only [List.append_assoc, Nat.max_self] using hinner

theorem takes_simpleTerm : Takes simpleTerm fun t cs => Nests t.nesting cs := by
  refine TakesFrom.orElse (takes_range.withSpan.bind ?_) (takes_pattern.withSpan.bind ?_)
  · rintro ⟨⟨min, max⟩, offset, length⟩ cs h
    exact takes_pure (by rw [List.append_nil]; exact h)
  · rintro ⟨p, offset, length⟩ cs h
    exact takes_pure (by rw [List.append_nil]; exact h)

variable {term : Scan Term} {mark : Char → Bool}

theorem takes_separated (hmark : ∀ c, mark c = true → isFlat c = true)
    (hterm : Takes term fun t cs => Nests t.nesting cs) :
    Takes (separated mark term) fun v cs => Nests v.nesting cs := by
  have hitem : Takes (do let _ ← char mark; spaced term) fun t cs => Nests t.nesting cs := by
    refine (takes_char _).bind fun c _ hc => (takes_spaced_nests hterm).mono fun t cs ht => ?_
    rw [hc.2]
    exact ht.cons (hmark c hc.1)
  have hrest := hitem.manySpaced (T := fun ts cs => Nests (Term.listNesting ts) cs) nests_nil
    (fun _ _ _ hbs h => h.blanks hbs) fun _ _ _ _ h hs => h.append hs
  refine hterm.bind fun t a ha => takes_blanks.bind fun _ b hb => hrest.bind fun ts c hc =>
    takes_pure ?_
  rw [List.append_nil]
  exact ha.append (hc.blanks hb)

theorem takes_alternatives (hterm : Takes term fun t cs => Nests t.nesting cs) :
    Takes (alternatives term) fun v cs => Nests v.nesting cs :=
  TakesFrom.named (takes_separated (by simp [isFlat]) hterm)

theorem takes_group (hterm : Takes term fun t cs => Nests t.nesting cs) :
    Takes (group term) fun v cs => Nests (v.nesting + 1) cs := by
  refine TakesFrom.named ((takes_exactly _).bind fun _ a ha =>
    (takes_spaced_nests (takes_alternatives hterm)).bind fun v b hb =>
      (takes_closing ')').bind fun _ c hc => takes_pure ?_)
  obtain ⟨bs, hbs, rfl⟩ := hc
  rw [ha]
  exact nests_closed (by simp) (by simp) hbs hb

theorem takes_oneOf (hterm : Takes term fun t cs => Nests t.nesting cs) :
    Takes (oneOf term) fun v cs => Nests (v.nesting + 1) cs := by
  refine TakesFrom.named ((takes_exactly _).bind fun _ a ha =>
    (takes_spaced_nests (takes_separated (by simp [isFlat]) hterm)).bind fun v b hb =>
      (takes_closing '\x7d').bind fun _ c hc => takes_pure ?_)
  obtain ⟨bs, hbs, rfl⟩ := hc
  rw [ha]
  exact nests_closed (by simp) (by simp) hbs hb

theorem nesting_negations (n : Nat) (t : Term) : (negations n t).nesting = t.nesting := by
  induction n with
  | zero => rfl
  | succ n ih => exact ih

/-- The brackets of a term are those that it is read from. -/
theorem takes_term (depth : Nat) : Takes (Grammar.term depth) fun t cs => Nests t.nesting cs := by
  induction depth with
  | zero => exact takes_fail
  | succ depth ih =>
    have hbang : Takes (named (exactly '!')) fun _ cs => Nests 0 cs :=
      TakesFrom.named ((takes_exactly _).mono fun _ _ h =>
        h ▸ nests_flat (forall_mem_of_all (by decide)))
    have hbangs := hbang.manySpaced (T := fun _ cs => Nests 0 cs) nests_nil
      (fun _ _ _ hbs h => h.blanks hbs) fun _ _ _ _ h hs => h.append hs
    have hbare : Takes (bareTerm (Grammar.term depth)) fun t cs => Nests t.nesting cs := by
      -- a value in parentheses, a set, or a term without others inside
      refine TakesFrom.orElse ((takes_group ih).bind fun v cs h => takes_pure ?_)
        (TakesFrom.orElse ((takes_oneOf ih).bind fun v cs h => takes_pure ?_) takes_simpleTerm)
      · rw [List.append_nil]; exact h
      · rw [List.append_nil]; exact h
    rw [term_succ]
    refine TakesFrom.named (hbangs.bind fun bangs a ha => (takes_spaced_nests hbare).bind
      fun t b hb => takes_pure ?_)
    rw [nesting_negations, List.append_nil]
    have hnests := ha.append hb
    rwa [Nat.zero_max] at hnests

/-- **The brackets of a value are those that it is read from.** -/
theorem takes_value (depth : Nat) : Takes (value depth) fun v cs => Nests v.nesting cs :=
  takes_alternatives (takes_term depth)

end Grammar

/-! ## Paths and phrases of a text -/

/-- The steps that are read: names, and quoted texts that end. -/
def PathStep.Valid : PathStep → Prop
  | dotted name => Grammar.IsIdentifier name
  | bracketed inner => QuotedInner inner

/-- **The paths that are read by themselves.** -/
structure FieldPath.Readable (p : FieldPath) : Prop where
  first : Grammar.IsIdentifier p.first
  steps : ∀ s ∈ p.steps, s.Valid

/-- **The paths that are read.** No path begins with the word for a negation. -/
structure FieldPath.Valid (p : FieldPath) : Prop where
  first : Grammar.IsIdentifier p.first
  first_ne : p.first.map Char.toLower ≠ ['n', 'o', 't']
  steps : ∀ s ∈ p.steps, s.Valid

theorem FieldPath.Valid.readable {p : FieldPath} (h : p.Valid) : p.Readable := ⟨h.first, h.steps⟩

/-- Whether the name of a step stands in brackets. -/
def PathStep.isBracketed : PathStep → Bool
  | dotted _ => false
  | bracketed _ => true

theorem toNat_or (a b : Bool) : (a || b).toNat = max a.toNat b.toNat := by
  cases a <;> cases b <;> rfl

/-- Whether a name of a path stands in brackets. -/
def FieldPath.isBracketed (p : FieldPath) : Bool := p.steps.any PathStep.isBracketed

mutual

/-- **The phrases that are read**, with values whose brackets nest at most `n` deep. -/
def Phrase.Valid (n : Nat) : Phrase → Prop
  | .clause path op value => path.Valid ∧ op.requiresValue = value.isSome ∧
      ∀ v ∈ value, v.nesting ≤ n
  | .negated p => p.Valid n
  | .all first rest | .any first rest => first.Valid n ∧ Phrase.AllValid n rest

/-- Several such phrases. -/
def Phrase.AllValid (n : Nat) : List Phrase → Prop
  | [] => True
  | p :: rest => p.Valid n ∧ Phrase.AllValid n rest

end

mutual

theorem Phrase.Valid.mono {n m : Nat} (hle : n ≤ m) : ∀ {p : Phrase}, p.Valid n → p.Valid m
  | .clause _ _ _, h => ⟨h.1, h.2.1, fun v hv => Nat.le_trans (h.2.2 v hv) hle⟩
  | .negated p, h => by
    rw [Phrase.Valid] at h ⊢
    exact h.mono hle
  | .all first rest, h | .any first rest, h => by
    rw [Phrase.Valid] at h ⊢
    exact ⟨h.1.mono hle, h.2.mono hle⟩

theorem Phrase.AllValid.mono {n m : Nat} (hle : n ≤ m) : ∀ {ps : List Phrase},
    Phrase.AllValid n ps → Phrase.AllValid m ps
  | [], _ => trivial
  | _ :: _, h => ⟨h.1.mono hle, Phrase.AllValid.mono hle h.2⟩

end

mutual

/-- How deep the brackets of a phrase nest, with parentheses around each disjunction. -/
def Phrase.nesting : Phrase → Nat
  | .clause path _ value => max path.isBracketed.toNat (value.elim 0 Value.nesting)
  | .negated p => p.nesting
  | .all first rest => max first.nesting (Phrase.listNesting rest)
  | .any first rest => max first.nesting (Phrase.listNesting rest) + 1

/-- How deep the brackets of several phrases nest. -/
def Phrase.listNesting : List Phrase → Nat
  | [] => 0
  | p :: rest => max p.nesting (Phrase.listNesting rest)

end

mutual

/-- How many conjunctions and disjunctions of a phrase stand inside each other. -/
def Phrase.groups : Phrase → Nat
  | .clause _ _ _ => 0
  | .negated p => p.groups
  | .all first rest | .any first rest => max first.groups (Phrase.listGroups rest) + 1

/-- How many conjunctions and disjunctions of several phrases stand inside each other. -/
def Phrase.listGroups : List Phrase → Nat
  | [] => 0
  | p :: rest => max p.groups (Phrase.listGroups rest)

end

namespace Grammar

open Scan

theorem nests_isIdentifier {cs : List Char} (h : IsIdentifier cs) : Nests 0 cs :=
  nests_flat fun c hc => isFlat_of_isWord (h.isWord c hc)

theorem takes_pathStep : Takes pathStep fun s cs => s.Valid ∧ Nests s.isBracketed.toNat cs := by
  refine TakesFrom.orElse ((takes_exactly _).bind fun _ a ha => takes_quoted.bind fun inner b hb =>
    (takes_exactly _).bind fun _ c hc => takes_pure ?_)
    ((takes_exactly _).bind fun _ a ha => takes_identifier.bind fun name b hb => takes_pure ?_)
  · rw [ha, hc, hb.2, List.append_nil]
    exact ⟨hb.1, (nests_quoted hb.1).brackets (by simp) (by simp)⟩
  · obtain ⟨rfl, hname⟩ := hb
    rw [ha, List.append_nil]
    exact ⟨hname, (nests_isIdentifier hname).cons (by decide)⟩

/-- After a name no name goes on. -/
theorem endsName_of_identifier {here there : Cursor} {name : List Char}
    (h : (identifier here).found = some (name, there)) : EndsName there.rest := by
  unfold identifier at h
  rw [found_named] at h
  obtain ⟨c, next, -, h⟩ := found_bind_eq_some.1 h
  obtain ⟨as, last, hmany, h⟩ := found_bind_eq_some.1 h
  cases h
  -- the repetition takes every letter, digit and underscore
  obtain ⟨_, _, hfound, hrest, -⟩ := (readsMany_char Text.isWord next.rest).many next rfl
  rw [hmany] at hfound
  cases hfound
  unfold EndsName
  rw [hrest]
  exact head?_dropWhile Text.isWord next.rest

/-- A name where no `not` is ahead is another one. -/
theorem takes_identifier_from : TakesFrom (fun here => (keyword "not" here).found = none) identifier
    fun name cs => name = cs ∧ IsIdentifier cs ∧ name.map Char.toLower ≠ ['n', 'o', 't'] := by
  intro here name there hnot hfound
  obtain ⟨cs, hcs, hstop, rfl, hname⟩ := takes_identifier here name there trivial hfound
  refine ⟨name, hcs, hstop, rfl, hname, fun hlower => ?_⟩
  -- a name that is the word up to case would have been read as the word
  have hreads := reads_keyword (P := fun _ => True) (w := "not") trivial hlower
    (endsName_of_identifier hfound)
  obtain ⟨_, _, hkeyword, -⟩ := hreads here hcs
  rw [hnot] at hkeyword
  cases hkeyword

theorem takes_field : TakesFrom (fun here => (keyword "not" here).found = none) field
    fun path cs => path.Valid ∧ Nests path.isBracketed.toNat cs := by
  have hsteps := takes_pathStep.many (T := fun steps cs =>
    (∀ s ∈ steps, s.Valid) ∧ Nests (steps.any PathStep.isBracketed).toNat cs)
    ⟨by simp, nests_nil⟩ (by
      rintro s steps cs cs' ⟨hs, hn⟩ ⟨hsteps, hm⟩
      have hany : (s :: steps).any PathStep.isBracketed =
          (s.isBracketed || steps.any PathStep.isBracketed) := List.any_cons
      rw [hany, toNat_or]
      exact ⟨List.forall_mem_cons.2 ⟨hs, hsteps⟩, hn.append hm⟩)
  refine TakesFrom.named (takes_identifier_from.bind fun name a ha => hsteps.bind fun steps b hb =>
    takes_pure ?_)
  obtain ⟨rfl, hname, hnot⟩ := ha
  obtain ⟨hsteps, hn⟩ := hb
  have hnests := (nests_isIdentifier hname).append hn
  rw [Nat.zero_max] at hnests
  rw [List.append_nil]
  exact ⟨⟨hname, hnot, hsteps⟩, hnests⟩

/-! ## Phrases of a text -/

/-- **Phrases that are read from a text**: all of them are valid, with the brackets of the text.
Each pair of parentheses adds a conjunction and a disjunction, beside `extra` others. -/
structure AllTakenFrom (extra : Nat) (ps : List Phrase) (cs : List Char) : Prop where
  nests : Nests (Phrase.listNesting ps) cs
  valid : Phrase.AllValid (Phrase.listNesting ps) ps
  groups : Phrase.listGroups ps ≤ 2 * Phrase.listNesting ps + extra

/-- A phrase that is read from a text. -/
def TakenFrom (extra : Nat) (p : Phrase) (cs : List Char) : Prop := AllTakenFrom extra [p] cs

variable {extra : Nat} {p : Phrase} {ps : List Phrase} {bs cs cs' : List Char}

theorem takenFrom_iff : TakenFrom extra p cs ↔
    Nests p.nesting cs ∧ p.Valid p.nesting ∧ p.groups ≤ 2 * p.nesting + extra := by
  have hnesting : Phrase.listNesting [p] = p.nesting := Nat.max_zero _
  have hgroups : Phrase.listGroups [p] = p.groups := Nat.max_zero _
  constructor
  · rintro ⟨hnests, hvalid, hle⟩
    rw [hnesting] at hnests hvalid hle
    rw [hgroups] at hle
    exact ⟨hnests, hvalid.1, hle⟩
  · rintro ⟨hnests, hvalid, hle⟩
    refine ⟨?_, ?_, ?_⟩
    · rwa [hnesting]
    · rw [hnesting]
      exact ⟨hvalid, trivial⟩
    · rwa [hnesting, hgroups]

theorem allTakenFrom_nil : AllTakenFrom extra [] [] := ⟨nests_nil, trivial, Nat.zero_le _⟩

theorem AllTakenFrom.prepend (hbs : Nests 0 bs) (h : AllTakenFrom extra ps cs) :
    AllTakenFrom extra ps (bs ++ cs) := by
  have hnests := hbs.append h.nests
  rw [Nat.zero_max] at hnests
  exact ⟨hnests, h.valid, h.groups⟩

theorem AllTakenFrom.blanks (hbs : AllBlank bs) (h : AllTakenFrom extra ps cs) :
    AllTakenFrom extra ps (bs ++ cs) :=
  ⟨h.nests.blanks hbs, h.valid, h.groups⟩

/-- A phrase and others behind it. -/
theorem TakenFrom.cons (h : TakenFrom extra p cs) (hs : AllTakenFrom extra ps cs') :
    AllTakenFrom extra (p :: ps) (cs ++ cs') := by
  obtain ⟨hnests, hvalid, hgroups⟩ := takenFrom_iff.1 h
  have hfirst := Nat.le_max_left p.nesting (Phrase.listNesting ps)
  have hrest := Nat.le_max_right p.nesting (Phrase.listNesting ps)
  have hothers := hs.groups
  refine ⟨hnests.append hs.nests, ⟨hvalid.mono hfirst, hs.valid.mono hrest⟩, ?_⟩
  rw [Phrase.listGroups, Phrase.listNesting]
  omega

theorem takes_clause (depth : Nat) : TakesFrom (fun here => (keyword "not" here).found = none)
    (clause depth) (TakenFrom 0) := by
  refine TakesFrom.named (takes_field.bind fun path a ha => ?_)
  obtain ⟨hpath, hnests⟩ := ha
  -- an operator without a value, or one with a value, whose brackets are those behind the path
  have hvalue : Takes ((do
      let op ← operator fun op => !op.requiresValue
      return Phrase.clause path op none) <|> (do
      let op ← operator Operator.requiresValue
      let v ← spaced (value depth)
      return Phrase.clause path op (some v)))
      fun p cs => ∃ op v, p = .clause path op v ∧ op.requiresValue = v.isSome ∧
        Nests (v.elim 0 Value.nesting) cs := by
    refine TakesFrom.orElse ?_ ?_
    · refine (takes_operator _).bind fun op b hb => takes_pure ?_
      simp only [Bool.not_eq_true'] at hb
      rw [List.append_nil]
      exact ⟨op, none, rfl, hb.1, hb.2⟩
    · refine (takes_operator _).bind fun op b hb =>
        (takes_spaced_nests (takes_value depth)).bind fun v c hc => takes_pure ?_
      have hboth := hb.2.append hc
      rw [Nat.zero_max] at hboth
      rw [List.append_nil]
      exact ⟨op, some v, rfl, hb.1, hboth⟩
  refine TakesFrom.spaced hvalue.from ?_
  rintro p bs cs hbs ⟨op, v, rfl, hop, hv⟩
  refine takenFrom_iff.2 ⟨hnests.append (hv.blanks hbs), ⟨hpath, hop, ?_⟩, Nat.zero_le _⟩
  rintro w rfl
  exact Nat.le_max_right _ _

theorem takes_joinedBy {w : String} {member : Scan Phrase} (hw : IsName w.toList)
    (hmember : TakesFrom NoBlank member (TakenFrom extra)) :
    TakesFrom NoBlank (joinedBy w member) fun ps cs => AllTakenFrom extra (ps.1 :: ps.2) cs := by
  have hspaced : Takes (spaced member) (TakenFrom extra) :=
    TakesFrom.spaced hmember fun _ _ _ hbs h => h.blanks hbs
  have hitem : Takes (do keyword w; spaced member) (TakenFrom extra) :=
    (takes_keyword w).bind fun _ a ha =>
      hspaced.mono fun _ _ h => h.prepend (nests_of_lower hw ha)
  have hrest := hitem.manySpaced (T := AllTakenFrom extra) allTakenFrom_nil
    (fun _ _ _ hbs h => h.blanks hbs) fun _ _ _ _ h hs => h.cons hs
  refine hmember.bind fun p a ha => takes_blanks.bind fun _ b hb => hrest.bind fun ps c hc =>
    takes_pure ?_
  rw [List.append_nil]
  exact ha.cons (hc.blanks hb)

/-- The members of a conjunction. -/
def conjunction (member : Scan Phrase) : Scan Phrase := named do
  let (first, rest) ← joinedBy "and" member
  return .all first rest

theorem disjunction_eq (member : Scan Phrase) : disjunction member = named (do
    let (first, rest) ← joinedBy "or" (conjunction member)
    return .any first rest) := rfl

theorem takes_conjunction {member : Scan Phrase}
    (hmember : TakesFrom NoBlank member (TakenFrom 0)) :
    TakesFrom NoBlank (conjunction member) (TakenFrom 1) := by
  refine TakesFrom.named ((takes_joinedBy (forall_mem_of_all (by decide)) hmember).bind ?_)
  rintro ⟨first, rest⟩ cs h
  refine takes_pure ?_
  rw [List.append_nil]
  exact takenFrom_iff.2 ⟨h.nests, h.valid, Nat.succ_le_succ h.groups⟩

/-- A disjunction that is read from a text without parentheses around it. -/
def TakenOpen (p : Phrase) (cs : List Char) : Prop :=
  ∃ first rest, p = .any first rest ∧ AllTakenFrom 1 (first :: rest) cs

theorem takes_disjunction {member : Scan Phrase}
    (hmember : TakesFrom NoBlank member (TakenFrom 0)) :
    TakesFrom NoBlank (disjunction member) TakenOpen := by
  have hall := takes_conjunction hmember
  rw [disjunction_eq]
  refine TakesFrom.named ((takes_joinedBy (forall_mem_of_all (by decide)) hall).bind ?_)
  rintro ⟨first, rest⟩ cs h
  refine takes_pure ?_
  rw [List.append_nil]
  exact ⟨first, rest, rfl, h⟩

theorem TakenOpen.blanks (hbs : AllBlank bs) (h : TakenOpen p cs) : TakenOpen p (bs ++ cs) := by
  obtain ⟨first, rest, rfl, h⟩ := h
  exact ⟨first, rest, rfl, h.blanks hbs⟩

/-- In parentheses a disjunction is a member again. -/
theorem TakenOpen.parenthesized (hbs : AllBlank bs) (h : TakenOpen p cs) :
    TakenFrom 0 p (['('] ++ (cs ++ ((bs ++ [')']) ++ []))) := by
  obtain ⟨first, rest, rfl, h⟩ := h
  have hnests := nests_closed (a := '(') (b := ')') (by simp) (by simp) hbs h.nests
  have hvalid := h.valid.mono (Nat.le_succ _)
  have hgroups : Phrase.listGroups (first :: rest) + 1 ≤
      2 * (Phrase.listNesting (first :: rest) + 1) := by
    have hle := h.groups
    omega
  exact takenFrom_iff.2 ⟨hnests, hvalid, hgroups⟩

theorem TakenFrom.negations (n : Nat) (h : TakenFrom extra p cs) :
    TakenFrom extra (phraseNegations n p) cs := by
  induction n with
  | zero => exact h
  | succ n ih =>
    obtain ⟨hnests, hvalid, hgroups⟩ := takenFrom_iff.1 ih
    exact takenFrom_iff.2 ⟨hnests, hvalid, hgroups⟩

theorem takes_not : Takes (keyword "not") fun _ cs => Nests 0 cs ∧ cs ≠ [] := by
  refine (takes_keyword "not").mono fun _ cs h => ?_
  have hname : IsName "not".toList := forall_mem_of_all (by decide)
  refine ⟨nests_of_lower hname h, ?_⟩
  rintro rfl
  exact absurd h (by decide)

/-- A member of a conjunction is read as a valid phrase. -/
theorem takes_member (depth : Nat) : TakesFrom NoBlank (member depth) (TakenFrom 0) := by
  induction depth with
  | zero => exact takes_fail
  | succ depth ih =>
    have hnots : Takes (manySpaced (keyword "not")) fun _ cs => Nests 0 cs :=
      takes_not.manySpaced nests_nil (fun _ _ _ hbs h => ⟨h.1.blanks hbs, by simp [h.2]⟩)
        fun _ _ _ _ h hs => h.1.append hs
    -- the repetition stops only where no other `not` is ahead, so no path begins with one
    refine TakesFrom.named (TakesFrom.bind_from (B := fun here =>
      (spaced (keyword "not") here).found = none) hnots.from
      (fun _ _ _ hhere hfound => found_manySpaced (takes_not.mono fun _ _ h => h.2) hhere hfound)
      fun nots a ha => ?_)
    have hinner : TakesFrom (fun here => (keyword "not" here).found = none)
        ((do
          exactly '('
          let p ← spaced (disjunction (member depth))
          spaced (exactly ')')
          return p) <|> clause (depth + 1)) (TakenFrom 0) := by
      refine TakesFrom.orElse (Takes.from ?_) (takes_clause _)
      refine (takes_exactly _).bind fun _ a ha =>
        (TakesFrom.spaced (takes_disjunction ih) fun _ _ _ hbs h => h.blanks hbs).bind fun p b hb =>
          (takes_closing ')').bind fun _ c hc => takes_pure ?_
      obtain ⟨bs, hbs, rfl⟩ := hc
      rw [ha]
      exact hb.parenthesized hbs
    -- what was known before the white space is known behind it
    have hspaced : TakesFrom (fun here => (spaced (keyword "not") here).found = none)
        (spaced _) (TakenFrom 0) :=
      takes_blanks.from.bind_from (fun here u there hnone hblanks => by
        change ((blanks >>= fun _ => keyword "not") here).found = none at hnone
        rw [found_bind, hblanks, Option.bind_some] at hnone
        exact hnone) fun _ bs hbs => hinner.mono fun _ _ h => h.blanks hbs
    refine hspaced.bind fun p b hb => takes_pure ?_
    rw [List.append_nil]
    exact TakenFrom.negations nots.length (hb.prepend ha)

/-- What is found in a whole text: a phrase with its brackets, or nothing but white space. -/
def TakenWhole : Option Phrase → List Char → Prop
  | some p, cs => TakenOpen p cs
  | none, cs => Nests 0 cs

/-- **A text is read as a valid phrase** with the brackets of the text. -/
theorem takes_whole (depth : Nat) : Takes (input depth) TakenWhole := by
  have hopen : Takes (spaced (optional (disjunction (member depth)))) TakenWhole := by
    refine TakesFrom.spaced (R := TakenWhole)
      ((takes_disjunction (takes_member depth)).optional (fun _ _ h => h) nests_nil) ?_
    intro found bs cs hbs h
    cases found with
    | none => exact Nests.blanks hbs h
    | some p => exact TakenOpen.blanks hbs h
  have hending : Takes (spaced (named ending)) fun _ cs => Nests 0 cs :=
    takes_spaced_nests (n := fun _ => 0)
      (TakesFrom.named ((takes_notBefore _).mono fun _ _ h => h ▸ nests_nil))
  refine TakesFrom.named (hopen.bind fun found a ha => hending.bind fun _ b hb => takes_pure ?_)
  rw [List.append_nil]
  cases found with
  | none => exact Nests.append ha hb
  | some p =>
    obtain ⟨first, rest, rfl, h⟩ := ha
    have hnests := h.nests.append hb
    rw [Nat.max_zero] at hnests
    exact ⟨first, rest, rfl, hnests, h.valid, h.groups⟩

end Grammar

end Sift
