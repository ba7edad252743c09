import Sift.Proofs.Meaning
import Sift.Proofs.SingleComparison

/-!
# Three spellings of alternatives

    Name eq Bat*|!*man      Name eq (Bat*|!*man)      Name eq {Bat*,!*man}

The first value is read as a disjunction of its terms, combined from the left; the second as a
group, which is one term; the third as a set, whose terms stay apart. All three are read by
different rules of the grammar, and compiled by different rules.

* `expressionTest_alternative`: a disjunction is passed by what passes one of its operands.
* `Grammar.IsTerm`, `Grammar.IsTerm.piece`: the texts that are a term, and what they are read as in
  front of a mark or of a closing bracket.
* `Grammar.reads_value_bars`, `Grammar.reads_value_group`, `Grammar.reads_value_set`: what the three
  spellings are read as.
* `Grammar.fails_member_not`: with one of the last two no path begins with the word for a negation.
* `Node.meansSame_spellings`: **the three spellings of alternatives mean the same.**
-/

namespace Sift

open Scan

/-! ## What alternatives mean -/

/-- **Alternatives are passed by what passes one of them**, although they are combined from the
left. -/
theorem expressionTest_alternative (field : String) (kind : Kind) (place : Option Placement)
    (e : Expression) (es : List Expression) :
    Agree Test.SameAny (expressionTest field kind place (alternative e es))
      (expressionTests field kind place (e :: es)) := by
  induction es generalizing e with
  | nil => exact expressionTests_single field kind place e
  | cons x es ih =>
    -- the first two are one disjunction for those after them
    have hsplit : Agree (fun ts ts' => ∀ ignoreCase v, Test.anyHolds ignoreCase ts v =
        Test.anyHolds ignoreCase ts' v) (expressionTests field kind place (.or e x :: es))
        (expressionTests field kind place (e :: x :: es)) := by
      simp only [expressionTests, expressionTest]
      cases expressionTest field kind place e with
      | error err => exact .error err err
      | ok t =>
        cases expressionTest field kind place x with
        | error err => exact .error err err
        | ok t' =>
          cases expressionTests field kind place es with
          | error err => exact .error err err
          | ok ts =>
            refine .ok fun ignoreCase v => ?_
            simp only [Test.anyHolds, Test.holds, Bool.or_assoc]
    exact (ih (.or e x)).trans hsplit fun _ _ _ h hs ignoreCase v =>
      (h ignoreCase v).trans (hs ignoreCase v)

theorem Agree.sameAny_any {x : Except QueryError Test} {y : Except QueryError (List Test)}
    (h : Agree Test.SameAny x y) : Agree Test.Same x (Test.any <$> y) := by
  cases h with
  | error e e' => exact .error e e'
  | ok h =>
    refine .ok fun ignoreCase v => ?_
    rw [Test.holds, h]

theorem exists_alternative_eq_or (e : Expression) {es : List Expression} (hne : es ≠ []) :
    ∃ l r, alternative e es = .or l r := by
  obtain ⟨init, last, rfl⟩ := (List.eq_nil_or_concat es).resolve_left hne
  refine ⟨alternative e init, last, ?_⟩
  rw [alternative, List.concat_eq_append, List.foldl_append]
  rfl

/-- Several alternatives and the set of them are alike: neither is a value by itself, and a value
passes both or neither. -/
theorem Operand.alike_alternatives (op : Operator) (e : Expression) {es : List Expression}
    (hne : es ≠ []) :
    (Operand.expression (alternative e es)).Alike op (.expression (.oneOf (e :: es))) := by
  have hsame : ∀ field kind place, Agree Test.Same
      (expressionTest field kind place (alternative e es))
      (expressionTest field kind place (.oneOf (e :: es))) := by
    intro field kind place
    have hset : expressionTest field kind place (.oneOf (e :: es)) =
        Test.any <$> expressionTests field kind place (e :: es) := by rw [expressionTest]
    rw [hset]
    exact (expressionTest_alternative field kind place e es).sameAny_any
  have has : ∀ kind, (Operand.expression (alternative e es)).as? kind =
      (Operand.expression (.oneOf (e :: es))).as? kind := by
    intro kind
    obtain ⟨l, r, hor⟩ := exists_alternative_eq_or e hne
    rw [hor]
    rfl
  exact ⟨rfl, fun _ field kind => hsame field kind none,
    fun _ field kind => operandValue_of_as? (has kind),
    fun place _ field => hsame field .string (some place)⟩

/-! ## Terms in front of other text -/

namespace Grammar

variable {cs : List Char} {depth : Nat} {t t' : Term}

/-- **A text is a term**, from its first character to its end. -/
structure IsTerm (cs : List Char) : Prop where
  head : ∀ c ∈ cs.head?, isBlank c = false
  found : ∃ t there, (Grammar.term (cs.length + 1) (Cursor.start cs)).found = some (t, there) ∧
    there.rest = []

instance (cs : List Char) : Decidable (IsTerm cs) :=
  decidable_of_iff ((cs.head?.all fun c => !isBlank c) = true ∧
      ((Grammar.term (cs.length + 1) (Cursor.start cs)).found.any (·.2.rest.isEmpty)) = true) (by
    have hhead : (cs.head?.all fun c => !isBlank c) = true ↔ ∀ c ∈ cs.head?, isBlank c = false := by
      simp [Option.all_eq_true]
    rw [hhead, Option.any_eq_true]
    constructor
    · rintro ⟨hhead, ⟨t, there⟩, hfound, hend⟩
      exact ⟨hhead, t, there, hfound, List.isEmpty_iff.1 hend⟩
    · rintro ⟨hhead, t, there, hfound, hend⟩
      exact ⟨hhead, (t, there), hfound, List.isEmpty_iff.2 hend⟩)

/-- A term means what a text means that is read as a term by itself. -/
def Spells (cs : List Char) (t : Term) : Prop :=
  ∃ t₀ there, (Grammar.term (cs.length + 1) (Cursor.start cs)).found = some (t₀, there) ∧ t₀.Alike t

theorem Spells.alike (h : Spells cs t) (h' : Spells cs t') : t.Alike t' := by
  obtain ⟨t₀, there, hfound, halike⟩ := h
  obtain ⟨_, _, hfound', halike'⟩ := h'
  rw [hfound] at hfound'
  cases hfound'
  refine ⟨fun source source' e => ?_, halike'.word.trans halike.word.symm⟩
  exact (halike.expression source source e).symm.trans (halike'.expression source source' e)

/-- **A term is read alike in front of whatever ends it.** -/
theorem IsTerm.piece (h : IsTerm cs) (hdepth : cs.length < depth) :
    ReadsPiece Stops (Grammar.term depth) cs (Spells cs) := by
  obtain ⟨hhead, t, there, hfound, hend⟩ := h
  have hclosing : Closing 0 cs := by
    obtain ⟨cs', hcs, -, hnests⟩ := takes_term _ _ t there trivial hfound
    rw [hend, List.append_nil] at hcs
    rw [show cs = cs' from hcs]
    exact hnests.closing
  refine ⟨fun rest hrest => ?_, fun rest hrest here hhere => ?_⟩
  · cases cs with
    | nil => exact hrest.eq_false (by decide)
    | cons c cs => exact hhead
  · obtain ⟨-, hsome⟩ := mirrors_term hrest hdepth (Cursor.start cs) here hhere hclosing
      (Nat.lt_succ_self _)
    obtain ⟨t', there', hfound', hrest', hstop, -, -, halike⟩ := hsome t there hfound
    rw [hend, List.nil_append] at hrest'
    exact ⟨t', there', hfound', hrest', hstop, t, there, hfound, halike⟩

/-! ## The three spellings -/

/-- The terms of a value mean what texts mean that are terms by themselves. -/
structure SpellsAll (first : List Char) (others : List (List Char)) (v : Value) : Prop where
  first : Spells first v.first
  rest : List.Forall₂ Spells others v.rest

variable {first : List Char} {others : List (List Char)} {marked : List (Char × List Char)}
  {v v' : Value}

theorem SpellsAll.alike (h : SpellsAll first others v) (h' : SpellsAll first others v') :
    v.Alike v' := by
  obtain ⟨hfirst, hrest⟩ := h
  obtain ⟨hfirst', hrest'⟩ := h'
  refine ⟨hfirst.alike hfirst', ?_⟩
  generalize v.rest = ts at hrest
  generalize v'.rest = ts' at hrest'
  induction hrest generalizing ts' with
  | nil =>
    cases hrest'
    exact .nil
  | cons ht _ ih =>
    cases hrest' with
    | cons ht' hrest' => exact .cons (ht.alike ht') (ih _ hrest')

theorem SpellsAll.rest_ne_nil (h : SpellsAll first others v) (hne : others ≠ []) :
    v.rest ≠ [] := by
  intro hnil
  have hrest := h.rest
  rw [hnil] at hrest
  cases hrest
  exact hne rfl

/-- Terms with marks between them. -/
def markedTerms (first : List Char) (marked : List (Char × List Char)) : List Char :=
  first ++ markedPieces id marked

theorem markedTerms_append (first : List Char) (marked : List (Char × List Char))
    (rest : List Char) :
    markedTerms first marked ++ rest = first ++ (markedPieces id marked ++ rest) :=
  List.append_assoc _ _ _

/-- The same terms with a bar before each. -/
def barred (marked : List (Char × List Char)) : List (Char × List Char) :=
  marked.map fun m => ('|', m.2)

theorem map_snd_barred (marked : List (Char × List Char)) :
    (barred marked).map Prod.snd = marked.map Prod.snd := by
  simp [barred]

theorem fst_of_mem_barred {m : Char × List Char} (h : m ∈ barred marked) : m.1 = '|' := by
  obtain ⟨_, -, rfl⟩ := List.mem_map.1 h
  rfl

theorem isTerm_of_mem_barred (h : ∀ m ∈ marked, IsTerm m.2) : ∀ m ∈ barred marked, IsTerm m.2 :=
  List.forall_mem_map.2 h

/-- A term is no longer than the text that it stands in. -/
theorem length_lt_of_mem (first : List Char) {m : Char × List Char} (hm : m ∈ marked) :
    m.2.length < (markedTerms first marked).length + 1 := by
  have hsub : (m.1 :: m.2).Sublist (markedPieces id marked) := by
    rw [markedPieces, List.flatMap_def]
    exact List.sublist_flatten_of_mem (List.mem_map_of_mem hm)
  have hle := hsub.length_le
  rw [List.length_cons] at hle
  rw [markedTerms, List.length_append]
  omega

theorem stops_mark (c : Char) (cs : List Char) (h : c = '|' ∨ c = ',') : Stops (c :: cs) := by
  rcases h with rfl | rfl <;> exact stops_cons (by simp)

/-- They begin with no white space. -/
theorem isBlank_head_markedTerms (hmarks : ∀ m ∈ marked, m.1 = '|' ∨ m.1 = ',')
    (hfirst : IsTerm first) {rest : List Char} (hrest : Stops rest) :
    ∀ c ∈ (markedTerms first marked ++ rest).head?, isBlank c = false := by
  rw [markedTerms_append]
  exact (hfirst.piece (Nat.lt_succ_self _)).head _ (ends_markedPieces stops_mark hmarks hrest)

/-- **Terms with marks between them are read as they are by themselves**, up to what follows. -/
theorem reads_markedTerms (mark : Char → Bool) (hmarks : ∀ m ∈ marked, m.1 = '|' ∨ m.1 = ',')
    (haccepts : ∀ m ∈ marked, mark m.1 = true) (hfirst : IsTerm first)
    (hterms : ∀ m ∈ marked, IsTerm m.2) (hdepth : (markedTerms first marked).length < depth)
    {rest : List Char} (hrest : Stops rest)
    (hstop : ∀ c ∈ (afterBlanks rest).head?, mark c = false) :
    ReadsUpTo (separated mark (Grammar.term depth)) (SpellsAll first (marked.map Prod.snd))
      (markedTerms first marked ++ rest) rest := by
  have hlength : first.length < depth := by
    rw [markedTerms, List.length_append] at hdepth
    omega
  have hpieces : ∀ m ∈ marked, ReadsPiece Stops (Grammar.term depth) (id m.2) (Spells m.2) := by
    intro m hm
    have hlt := length_lt_of_mem first hm
    exact (hterms m hm).piece (by omega)
  rw [markedTerms_append]
  exact (reads_markedPieces id stops_mark hmarks haccepts (hfirst.piece hlength) hpieces hrest
    hstop).mono fun v hv => ⟨hv.1, hv.2⟩

/-- At the end of a text nothing is left to be taken. -/
theorem reads_of_upTo_end {α : Type} {p : Scan α} {P : α → Prop} (h : ReadsUpTo p P cs []) :
    Reads p P cs [] :=
  h.elim id id

/-- With bars between them terms are the terms of a value. -/
theorem reads_value_bars (hmarks : ∀ m ∈ marked, m.1 = '|') (hfirst : IsTerm first)
    (hterms : ∀ m ∈ marked, IsTerm m.2) (hdepth : (markedTerms first marked).length < depth) :
    Reads (value depth) (SpellsAll first (marked.map Prod.snd)) (markedTerms first marked) [] := by
  have hread := reads_markedTerms (· == '|') (fun m hm => Or.inl (hmarks m hm))
    (fun m hm => beq_iff_eq.2 (hmarks m hm)) hfirst hterms hdepth stops_nil (by simp)
  rw [List.append_nil] at hread
  exact reads_of_upTo_end hread.named

/-- A single term without negations is a value. -/
theorem reads_value_bareTerm (P : Term → Prop) {c : Char} (hblank : isBlank c = false)
    (hbang : c ≠ '!') (h : Reads (bareTerm (Grammar.term depth)) P (c :: cs) []) :
    Reads (value (depth + 1)) (fun v => P v.first ∧ v.rest = []) (c :: cs) [] := by
  have hterm : Reads (Grammar.term (depth + 1)) P (c :: cs) [] :=
    reads_term_bareTerm (by simpa using hblank) (by simpa using hbang) h
  exact reads_of_upTo_end (reads_separated_single hterm (by simp)).named

theorem length_lt_of_brackets {a b : Char} (h : (a :: (cs ++ [b])).length < depth + 1) :
    cs.length < depth := by
  simp only [List.length_cons, List.length_append] at h
  omega

/-- In parentheses they are the terms of a group. -/
theorem reads_value_group (hmarks : ∀ m ∈ marked, m.1 = '|') (hfirst : IsTerm first)
    (hterms : ∀ m ∈ marked, IsTerm m.2)
    (hdepth : ('(' :: (markedTerms first marked ++ [')'])).length < depth) :
    Reads (value depth) (fun v => (∃ w, SpellsAll first (marked.map Prod.snd) w ∧
      v.first = .group w.first w.rest) ∧ v.rest = [])
      ('(' :: (markedTerms first marked ++ [')'])) [] := by
  obtain ⟨depth, rfl⟩ : ∃ n, depth = n + 1 := ⟨depth - 1, by omega⟩
  have hlength := length_lt_of_brackets hdepth
  have hstops : Stops [')'] := stops_cons (by simp)
  have hstop : ∀ c ∈ (afterBlanks [')']).head?, (c == '|') = false := by
    rintro _ ⟨⟩
    rfl
  have hread := reads_markedTerms (· == '|') (fun m hm => Or.inl (hmarks m hm))
    (fun m hm => beq_iff_eq.2 (hmarks m hm)) hfirst hterms hlength hstops hstop
  have hhead := isBlank_head_markedTerms (fun m hm => Or.inl (hmarks m hm)) hfirst hstops
  refine reads_value_bareTerm (fun t => ∃ w, SpellsAll first (marked.map Prod.snd) w ∧
    t = .group w.first w.rest) (by decide) (by decide) (Reads.orElse_left ?_)
  have hgroup : Reads (group (Grammar.term depth)) (SpellsAll first (marked.map Prod.snd))
      ('(' :: (markedTerms first marked ++ [')'])) [] :=
    Reads.named (Reads.exactly_bind (reads_closed hhead (by decide) hread.named))
  exact hgroup.bind fun w hw => Reads.pure ⟨w, hw, rfl⟩

/-- In braces they are the terms of a set, whichever marks stand between them. -/
theorem reads_value_set (hmarks : ∀ m ∈ marked, m.1 = '|' ∨ m.1 = ',') (hfirst : IsTerm first)
    (hterms : ∀ m ∈ marked, IsTerm m.2)
    (hdepth : ('\x7b' :: (markedTerms first marked ++ ['\x7d'])).length < depth) :
    Reads (value depth) (fun v => (∃ w, SpellsAll first (marked.map Prod.snd) w ∧
      v.first = .oneOf w.first w.rest) ∧ v.rest = [])
      ('\x7b' :: (markedTerms first marked ++ ['\x7d'])) [] := by
  obtain ⟨depth, rfl⟩ : ∃ n, depth = n + 1 := ⟨depth - 1, by omega⟩
  have hlength := length_lt_of_brackets hdepth
  have hstops : Stops ['\x7d'] := stops_cons (by simp)
  have hstop : ∀ c ∈ (afterBlanks ['\x7d']).head?, (c == ',' || c == '|') = false := by
    rintro _ ⟨⟩
    rfl
  have hread := reads_markedTerms (fun c => c == ',' || c == '|') hmarks
    (fun m hm => by rcases hmarks m hm with h | h <;> simp [h]) hfirst hterms hlength hstops hstop
  have hhead := isBlank_head_markedTerms hmarks hfirst hstops
  refine reads_value_bareTerm (fun t => ∃ w, SpellsAll first (marked.map Prod.snd) w ∧
    t = .oneOf w.first w.rest) (by decide) (by decide) (Reads.orElse_right ?_ ?_)
  · exact (fails_exactly (by simp)).bind.named.bind
  refine Reads.orElse_left ?_
  have hset : Reads (oneOf (Grammar.term depth)) (SpellsAll first (marked.map Prod.snd))
      ('\x7b' :: (markedTerms first marked ++ ['\x7d'])) [] :=
    Reads.named (Reads.exactly_bind (reads_closed hhead (by decide) hread))
  exact hset.bind fun w hw => Reads.pure ⟨w, hw, rfl⟩

/-! ## What they mean -/

/-- What texts mean one by one that are terms by themselves. -/
def Denote (first : List Char) (others : List (List Char)) (e : Expression)
    (es : List Expression) : Prop :=
  ∃ v source, SpellsAll first others v ∧ v.first.expression source = .ok e ∧
    Term.expressions source v.rest = .ok es

variable {e e' : Expression} {es es' : List Expression} {source : String} {op : Operator}
  {x : Operand}

theorem Denote.unique (h : Denote first others e es) (h' : Denote first others e' es') :
    e = e' ∧ es = es' := by
  obtain ⟨v, source, hv, he, hes⟩ := h
  obtain ⟨v', source', hv', he', hes'⟩ := h'
  have halike := hv.alike hv'
  rw [halike.first.expression source source', he'] at he
  rw [Term.expressions_alike halike.rest source source', hes'] at hes
  cases he
  cases hes
  exact ⟨rfl, rfl⟩

theorem Denote.ne_nil (h : Denote first others e es) (hne : others ≠ []) : es ≠ [] := by
  obtain ⟨v, source, hv, -, hes⟩ := h
  rintro rfl
  cases hrest : v.rest with
  | nil => exact hv.rest_ne_nil hne hrest
  | cons t ts =>
    rw [hrest, Term.expressions] at hes
    obtain ⟨_, -, hes⟩ := bind_eq_ok.1 hes
    obtain ⟨_, -, hes⟩ := bind_eq_ok.1 hes
    cases hes

/-- The terms of a value are combined from the left. -/
theorem denote_of_bars (hne : others ≠ []) (hv : SpellsAll first others v)
    (h : v.operand source op = .ok x) :
    ∃ e es, Denote first others e es ∧ x = .expression (alternative e es) := by
  unfold Value.operand at h
  rw [Value.word?_of_rest_ne_nil (hv.rest_ne_nil hne)] at h
  obtain ⟨e, he, h⟩ := bind_eq_ok.1 h
  obtain ⟨es, hes, h⟩ := bind_eq_ok.1 h
  cases h
  exact ⟨e, es, ⟨v, source, hv, he, hes⟩, rfl⟩

/-- So are the terms of a group. -/
theorem denote_of_group (hv : (∃ w, SpellsAll first others w ∧ v.first = .group w.first w.rest) ∧
    v.rest = []) (h : v.operand source op = .ok x) :
    ∃ e es, Denote first others e es ∧ x = .expression (alternative e es) := by
  obtain ⟨_, _⟩ := v
  obtain ⟨⟨w, hw, rfl⟩, rfl⟩ := hv
  obtain ⟨_, h', h⟩ := bind_eq_ok.1 h
  cases h
  rw [Term.expression] at h'
  obtain ⟨e, he, h'⟩ := bind_eq_ok.1 h'
  obtain ⟨es, hes, h'⟩ := bind_eq_ok.1 h'
  cases h'
  exact ⟨e, es, ⟨w, source, hw, he, hes⟩, rfl⟩

/-- The terms of a set stay apart. -/
theorem denote_of_set (hv : (∃ w, SpellsAll first others w ∧ v.first = .oneOf w.first w.rest) ∧
    v.rest = []) (h : v.operand source op = .ok x) :
    ∃ e es, Denote first others e es ∧ x = .expression (.oneOf (e :: es)) := by
  obtain ⟨_, _⟩ := v
  obtain ⟨⟨w, hw, rfl⟩, rfl⟩ := hv
  obtain ⟨_, h', h⟩ := bind_eq_ok.1 h
  cases h
  rw [Term.expression] at h'
  obtain ⟨e, he, h'⟩ := bind_eq_ok.1 h'
  obtain ⟨es, hes, h'⟩ := bind_eq_ok.1 h'
  cases h'
  exact ⟨e, es, ⟨w, source, hw, he, hes⟩, rfl⟩

/-! ## Paths that begin with the word for a negation -/

variable {path : FieldPath}

theorem valid_token (op : Operator) : (FieldPath.ofName op.token).Valid := by
  cases op <;>
    exact FieldPath.valid_ofName ⟨_, _, rfl, by decide, forall_mem_of_all (by decide)⟩ (by decide)

/-- Behind the word for a negation the word of an operator is read as a path, and then no operator
follows it. -/
theorem fails_clause_token {c : Char} (hblank : isBlank c = false) (hword : Text.isWord c = false) :
    Fails (clause depth) (op.token.toList ++ ' ' :: c :: cs) := by
  have hfield : Reads field (· = FieldPath.ofName op.token) (op.token.toList ++ ' ' :: c :: cs)
      (' ' :: c :: cs) := by
    have hends : EndsPath (' ' :: c :: cs) := endsPath_space
    have hread := reads_field (valid_token op).readable hends
    rwa [FieldPath.written_ofName] at hread
  have hskip : afterBlanks (' ' :: c :: cs) = c :: cs := by
    rw [afterBlanks_space, afterBlanks_of_head (by simpa using hblank)]
  have hname : EndsName (c :: cs) := endsName_cons hword
  refine Fails.named (hfield.bind_fails fun path _ => Fails.spaced ?_)
  rw [hskip]
  exact Fails.orElse (fails_operator_nil _ hname).bind (fails_operator_nil _ hname).bind

/-- Behind a path's first name, if it is the word for a negation, no other such word is read and no
member of a conjunction. -/
theorem fails_behind_not (depth : Nat) {c : Char} (hblank : isBlank c = false)
    (hword : Text.isWord c = false) (steps : List PathStep) {rest : List Char}
    (hrest : rest = steps.flatMap PathStep.written ++ ' ' :: (op.token.toList ++ ' ' :: c :: cs)) :
    EndsName rest ∧ Fails (spaced (keyword "not")) rest ∧
      Fails (spaced (memberBody depth)) rest := by
  have hends : EndsName rest := hrest ▸ endsName_steps steps endsPath_space
  refine ⟨hends, ?_⟩
  cases steps with
  | nil =>
    have hname : EndsName (' ' :: c :: cs) := endsName_cons (by decide)
    have hskip : afterBlanks rest = op.token.toList ++ ' ' :: c :: cs := by
      rw [hrest]
      exact afterBlanks_token_append op (' ' :: c :: cs)
    have hparenthesis : Fails (exactly '(') (op.token.toList ++ ' ' :: c :: cs) :=
      fails_exactly (by cases op <;> simp [Operator.token])
    have hkeyword : Fails (keyword "not") (op.token.toList ++ ' ' :: c :: cs) :=
      fails_keyword (forall_mem_of_all (by decide)) (isName_token op)
        (by cases op <;> decide) hname
    constructor
    · refine Fails.spaced ?_
      rwa [hskip]
    · refine Fails.spaced ?_
      rw [hskip]
      exact hparenthesis.bind.orElse (fails_clause_token hblank hword)
  | cons s steps =>
    -- a step begins with a point or with a bracket
    have hhead : ∀ d ∈ rest.head?, isBlank d = false ∧ d ≠ '(' := by
      rw [hrest]
      cases s <;> rintro d ⟨⟩ <;> decide
    have hskip := afterBlanks_of_head fun d hd => (hhead d hd).1
    constructor
    · refine Fails.spaced ?_
      rw [hskip]
      exact fails_keyword_nil (forall_mem_of_all (by decide)) (by decide) hends
    · refine Fails.spaced ?_
      rw [hskip]
      exact (fails_exactly fun d hd => (hhead d hd).2).bind.orElse (fails_clause hends)

/-- **No path begins with the word for a negation** where a value begins with a mark: the word is
taken for a negation, and what is left of the comparison is none. -/
theorem fails_member_not {c : Char} (hblank : isBlank c = false) (hword : Text.isWord c = false)
    (hnot : path.first.map Char.toLower = ['n', 'o', 't']) :
    Fails (member (depth + 1)) (comparisonText path op (c :: cs)) := by
  obtain ⟨first, steps⟩ := path
  rw [comparisonText, FieldPath.written, String.toList_ofList, List.append_assoc, member_succ]
  generalize hrest : steps.flatMap PathStep.written ++
    ' ' :: (op.token.toList ++ ' ' :: c :: cs) = rest
  obtain ⟨hends, hagain, hbody⟩ := fails_behind_not depth hblank hword steps hrest.symm
  have hfirst := reads_keyword (P := fun _ => True) (w := "not") trivial hnot hends
  have hnots : Reads (manySpaced (keyword "not")) (fun _ => True) (first ++ rest) rest :=
    hfirst.manySpaced_cons (ReadsMany.nil (R := fun _ => True) hagain trivial)
      fun _ _ _ _ => trivial
  exact Fails.named (hnots.bind_fails fun _ _ => hbody.bind)

end Grammar

/-! ## Comparisons with alternatives -/

namespace Node

variable {path : FieldPath} {op : Operator} {limit : Nat} {cs : List Char} {node : Node}

/-- **A comparison that is read is one with the meaning of its value**, where all of a text is known
to be a value. -/
theorem exists_operand {Q : Value → Prop} (hpath : path.Valid) (hop : op.requiresValue = true)
    (hhead : ∀ c ∈ cs.head?, isBlank c = false)
    (hreads : ∀ depth, cs.length < depth → Reads (Grammar.value depth) Q cs [])
    (h : ofText limit (comparison path.written op (String.ofList cs)) = .ok node) :
    ∃ v source x, Q v ∧ v.operand source op = .ok x ∧ node = .leaf (.on path.written op x) := by
  have htext := toList_comparison_written path op (String.ofList cs)
  have hlength := length_lt_comparison path.written op (String.ofList cs)
  rw [String.toList_ofList] at htext hlength
  have hgoesOn := Grammar.member_goesOn (comparison path.written op (String.ofList cs)).length hpath
    hop cs
  rw [afterBlanks_of_head hhead, ← htext] at hgoesOn
  have hmember := hgoesOn.reads (P := fun p => ∃ v, Q v ∧ ∀ source, p.node source =
    (Phrase.clause path op (some v)).node source)
    ((hreads _ hlength).bind fun v hv => Reads.pure ⟨v, hv, fun _ => rfl⟩)
  have hblank : ∀ c ∈ (comparison path.written op (String.ofList cs)).toList.head?,
      isBlank c = false := by
    rw [htext]
    exact Grammar.isBlank_head_comparisonText hpath.first
  have hdisjunction := Grammar.reads_disjunction_of_member (fun logic p hp => ?_) hmember
  · obtain ⟨p, ⟨v, hv, hp⟩, hnode⟩ := node_of_reads hblank hdisjunction h
    rw [hp, Phrase.node, FieldPath.filter, map_eq_ok] at hnode
    obtain ⟨f, hf, rfl⟩ := hnode
    obtain ⟨x, hx, rfl⟩ := map_eq_ok.1 hf
    exact ⟨v, _, x, hv, hx, rfl⟩
  · obtain ⟨v, hv, hp⟩ := hp
    refine ⟨v, hv, fun source => ?_⟩
    rw [Phrase.node_combined, hp source]
    cases (Phrase.clause path op (some v)).node source <;> rfl

/-- The path of a comparison that is read is no word for a negation if its value begins with a
mark. -/
theorem ne_not_of_ofText_comparison {c : Char} (hname : Grammar.IsIdentifier path.first)
    (hblank : isBlank c = false) (hword : Text.isWord c = false)
    (h : ofText limit (comparison path.written op (String.ofList (c :: cs))) = .ok node) :
    path.first.map Char.toLower ≠ ['n', 'o', 't'] := by
  intro hnot
  have htext := toList_comparison_written path op (String.ofList (c :: cs))
  rw [String.toList_ofList] at htext
  obtain ⟨d, hd, -⟩ := Grammar.head?_comparisonText hname op (c :: cs)
  have hspace : ∀ b ∈ (Grammar.comparisonText path op (c :: cs)).head?, isBlank b = false :=
    Grammar.isBlank_head_comparisonText hname
  rw [← htext] at hd hspace
  have hnonblank : ¬AllBlank (comparison path.written op (String.ofList (c :: cs))).toList := by
    intro hall
    have hnot := hspace d hd
    rw [hall d (List.mem_of_head? hd)] at hnot
    cases hnot
  obtain ⟨-, p, there, -, -, -, -, hfound, -⟩ := exists_phrase h hnonblank
  have hstart :
      NoBlank (Cursor.start (comparison path.written op (String.ofList (c :: cs))).toList) :=
    hspace
  rw [found_spaced hstart, Grammar.fails_disjunction_of_member
    (Grammar.fails_member_not hblank hword hnot) _ htext] at hfound
  cases hfound

variable {first : List Char} {marked : List (Char × List Char)} {a b c : Node}

/-- **The three spellings of alternatives mean the same**: with bars between them, in parentheses,
and as a set, in which every mark may be a bar or a comma.

Whatever the terms are, if all three comparisons are read, then for every type either all of them
compile or none does, and then they accept the same records. -/
theorem meansSame_spellings (hop : op.requiresValue = true)
    (hname : Grammar.IsIdentifier path.first) (hsteps : ∀ s ∈ path.steps, s.Valid)
    (hmarks : ∀ m ∈ marked, m.1 = '|' ∨ m.1 = ',') (hne : marked ≠ [])
    (hfirst : Grammar.IsTerm first) (hterms : ∀ m ∈ marked, Grammar.IsTerm m.2)
    (ha : ofText limit (comparison path.written op
      (String.ofList (Grammar.markedTerms first (Grammar.barred marked)))) = .ok a)
    (hb : ofText limit (comparison path.written op
      (String.ofList ('(' :: (Grammar.markedTerms first (Grammar.barred marked) ++ [')'])))) =
        .ok b)
    (hc : ofText limit (comparison path.written op
      (String.ofList ('\x7b' :: (Grammar.markedTerms first marked ++ ['\x7d'])))) = .ok c) :
    a.MeansSame b ∧ a.MeansSame c := by
  have hnot := ne_not_of_ofText_comparison hname (by decide) (by decide) hb
  have hpath : path.Valid := ⟨hname, hnot, hsteps⟩
  have hothers : marked.map Prod.snd ≠ [] := by simpa using hne
  have hbar : ∀ m ∈ Grammar.barred marked, m.1 = '|' := fun _ => Grammar.fst_of_mem_barred
  have hbarred := Grammar.isTerm_of_mem_barred hterms
  have hhead := Grammar.isBlank_head_markedTerms (fun m hm => Or.inl (hbar m hm)) hfirst stops_nil
  rw [List.append_nil] at hhead
  -- each of the three is read as a comparison with what the terms mean one by one
  obtain ⟨v, _, x, hv, hx, rfl⟩ := exists_operand hpath hop hhead
    (fun depth => Grammar.reads_value_bars hbar hfirst hbarred) ha
  obtain ⟨v', _, x', hv', hx', rfl⟩ := exists_operand hpath hop (by simp [isBlank])
    (fun depth => Grammar.reads_value_group hbar hfirst hbarred) hb
  obtain ⟨v'', _, x'', hv'', hx'', rfl⟩ := exists_operand hpath hop (by simp [isBlank])
    (fun depth => Grammar.reads_value_set hmarks hfirst hterms) hc
  rw [Grammar.map_snd_barred] at hv hv'
  obtain ⟨e, es, hdenote, rfl⟩ := Grammar.denote_of_bars hothers hv hx
  obtain ⟨e', es', hdenote', rfl⟩ := Grammar.denote_of_group hv' hx'
  obtain ⟨e'', es'', hdenote'', rfl⟩ := Grammar.denote_of_set hv'' hx''
  obtain ⟨rfl, rfl⟩ := hdenote.unique hdenote'
  obtain ⟨rfl, rfl⟩ := hdenote.unique hdenote''
  refine ⟨MeansSame.refl _, meansSame_of_agree fun n s => ?_⟩
  exact s.compileFilter_alike (f := .on path.written op _)
    (Operand.alike_alternatives _ e (hdenote.ne_nil hothers))

/-- A negated pattern, a range and a group of a set and a quoted text, behind a quoted name. -/
theorem meansSame_spellings_sets : ∃ a b c,
    ofText defaultDepth "Team[\"Name\"] neq !Bat*|[a to \"z|\"]|(\x7bx,*y\x7d|\"q,\")" = .ok a ∧
    ofText defaultDepth "Team[\"Name\"] neq (!Bat*|[a to \"z|\"]|(\x7bx,*y\x7d|\"q,\"))" = .ok b ∧
    ofText defaultDepth
      "Team[\"Name\"] neq \x7b!Bat*,[a to \"z|\"]|(\x7bx,*y\x7d|\"q,\")\x7d" = .ok c ∧
    a.MeansSame b ∧ a.MeansSame c := by
  let path : FieldPath := ⟨"Team".toList, [.bracketed "Name".toList]⟩
  let first := "!Bat*".toList
  let marked := [(',', "[a to \"z|\"]".toList), ('|', "(\x7bx,*y\x7d|\"q,\")".toList)]
  have hread : ∀ text ∈ ["Team[\"Name\"] neq !Bat*|[a to \"z|\"]|(\x7bx,*y\x7d|\"q,\")",
      "Team[\"Name\"] neq (!Bat*|[a to \"z|\"]|(\x7bx,*y\x7d|\"q,\"))",
      "Team[\"Name\"] neq \x7b!Bat*,[a to \"z|\"]|(\x7bx,*y\x7d|\"q,\")\x7d"],
      (ofText defaultDepth text).toOption.isSome = true := by decide +kernel
  simp only [List.forall_mem_cons, Option.isSome_iff_exists, toOption_eq_some] at hread
  obtain ⟨⟨a, ha⟩, ⟨b, hb⟩, ⟨c, hc⟩, -⟩ := hread
  have hbars : comparison path.written .neq (String.ofList
      (Grammar.markedTerms first (Grammar.barred marked))) =
        "Team[\"Name\"] neq !Bat*|[a to \"z|\"]|(\x7bx,*y\x7d|\"q,\")" := by decide +kernel
  have hgroup : comparison path.written .neq (String.ofList
      ('(' :: (Grammar.markedTerms first (Grammar.barred marked) ++ [')']))) =
        "Team[\"Name\"] neq (!Bat*|[a to \"z|\"]|(\x7bx,*y\x7d|\"q,\"))" := by decide +kernel
  have hset : comparison path.written .neq (String.ofList
      ('\x7b' :: (Grammar.markedTerms first marked ++ ['\x7d']))) =
        "Team[\"Name\"] neq \x7b!Bat*,[a to \"z|\"]|(\x7bx,*y\x7d|\"q,\")\x7d" := by
    decide +kernel
  have hname : Grammar.IsIdentifier path.first :=
    ⟨'T', ['e', 'a', 'm'], rfl, by decide, forall_mem_of_all (by decide)⟩
  have hsteps : ∀ s ∈ path.steps, s.Valid := by
    have hescape : Text.Quoted.escape "Name".toList = "Name".toList := by decide
    intro s hs
    rw [List.mem_singleton.1 hs, ← hescape]
    exact quotedInner_escape _
  exact ⟨a, b, c, ha, hb, hc, meansSame_spellings rfl hname hsteps
    (by decide) (by decide) (by decide +kernel) (by decide +kernel) (hbars ▸ ha) (hgroup ▸ hb)
    (hset ▸ hc)⟩

end Node

end Sift
