import Sift.Proofs.Alternatives
import Sift.Proofs.Conformance
import Sift.Proofs.DateShape
import Sift.Proofs.Traced

/-!
# Sets of literals

    Name eq {Bruce,"Clark Kent"}      Name eq Bruce or Name eq "Clark Kent"

In a set a bare word may be a date or a time; behind an operator it is a text. Both are read as a
value of the field's kind then, but where the field holds texts the date is written out anew.

* `Word.written`, `Word.Valid`: the words of a text.
* `Word.Shown`: a bare date is written as it is shown.
* `Word.literal_as?`: a word is the same value of every kind, by itself and in a set.
* `expressionTest_word`: a word in a set and behind an operator stand for the same test.
* `Schema.compileAll_words`: a set is passed by what passes one of the comparisons.
* `Node.agree_literalSet`: **a set of literals means the disjunction of its literals**;
  `Schema.exists_unlike_literalSet`: unless a date in it is not written as it is shown.
-/

namespace Sift

open Scan

/-! ## Words -/

namespace Word

/-- The word as it stands in a text. -/
def written : Word → List Char
  | bare cs => cs
  | quoted inner => '"' :: (inner ++ ['"'])

/-- The words that can stand in a text. -/
def Valid : Word → Prop
  | bare cs => cs ≠ [] ∧ ∀ c ∈ cs, Grammar.isBareChar c = true
  | quoted inner => QuotedInner inner

/-- **A bare date or time is written as it is shown.** -/
def Shown : Word → Prop
  | bare cs => ∀ l ∈ Literal.temporal? cs, l.written = cs
  | quoted _ => True

instance : DecidablePred Shown
  | bare cs => inferInstanceAs (Decidable (∀ l ∈ Literal.temporal? cs, l.written = cs))
  | quoted _ => inferInstanceAs (Decidable True)

/-- A term that is a word and nothing more. -/
def IsTerm (w : Word) (t : Term) : Prop := ∃ span, t = .pattern span (.word false w false)

/-- The meaning of a word behind an operator. -/
def behind (op : Operator) (w : Word) : Except SyntaxError Operand :=
  if op.isText then (fun f => .expression (op.textExpression f)) <$> w.fragment
  else .ok w.operand

end Word

theorem Value.operand_of_word {v : Value} {w : Word} (hv : w.IsTerm v.first ∧ v.rest = [])
    (source : String) (op : Operator) : v.operand source op = w.behind op := by
  obtain ⟨first, rest⟩ := v
  obtain ⟨⟨span, rfl⟩, rfl⟩ := hv
  rfl

namespace Grammar

variable {w : Word} {rest : List Char} {depth : Nat}

/-- A word begins with a quote or with a character of a bare word. -/
theorem head_word (hw : w.Valid) (rest : List Char) :
    ∃ c cs, w.written ++ rest = c :: cs ∧ (isBareChar c = true ∨ c = '"') := by
  cases w with
  | bare cs =>
    obtain ⟨c, cs, rfl⟩ := List.exists_cons_of_ne_nil hw.1
    exact ⟨c, cs ++ rest, rfl, Or.inl (hw.2 c List.mem_cons_self)⟩
  | quoted inner => exact ⟨'"', _, rfl, Or.inr rfl⟩

/-- So it begins with no mark of the value grammar. -/
theorem head_word_ne (hw : w.Valid) (rest : List Char) : ∀ c ∈ (w.written ++ rest).head?,
    Scan.isBlank c = false ∧ c ≠ '*' ∧ c ≠ '!' ∧ c ≠ '(' ∧ c ≠ '\x7b' ∧ c ≠ '[' := by
  obtain ⟨d, ds, htext, hd⟩ := head_word hw rest
  rw [htext]
  rintro c ⟨⟩
  rcases hd with hd | rfl
  · refine ⟨isBlank_of_isBareChar hd, ?_⟩
    refine ⟨?_, ?_, ?_, ?_, ?_⟩
    all_goals
      rintro rfl
      exact absurd hd (by decide)
  · decide

theorem reads_word (hw : w.Valid) (hrest : EndsWord rest) :
    Reads literal (· = w) (w.written ++ rest) rest := by
  cases w with
  | bare cs =>
    have hquote : ∀ c ∈ (cs ++ rest).head?, c ≠ '"' := by
      obtain ⟨c, cs, rfl⟩ := List.exists_cons_of_ne_nil hw.1
      rintro d ⟨⟩ rfl
      exact absurd (hw.2 '"' List.mem_cons_self) (by decide)
    refine Reads.orElse_right (fails_quoted hquote).map ((reads_bare hw.1 hw.2 hrest).map ?_)
    rintro _ rfl
    rfl
  | quoted inner =>
    have hquoted := reads_quoted hw rest
    rw [show (Word.quoted inner).written ++ rest = '"' :: (inner ++ '"' :: rest) by
      simp [Word.written]]
    refine Reads.orElse_left (hquoted.map ?_)
    rintro _ rfl
    rfl

/-- **A word is read as a term by itself**, in front of whatever ends it. -/
theorem reads_term_word (depth : Nat) (hw : w.Valid) (hrest : EndsTerm rest) :
    Reads (term (depth + 1)) w.IsTerm (w.written ++ rest) rest := by
  have hhead := head_word_ne hw rest
  have hpattern : Reads pattern (· = .word false w false) (w.written ++ rest) rest := by
    have hstar : ∀ c ∈ (w.written ++ rest).head?, c ≠ '*' := fun c hc => (hhead c hc).2.1
    refine Reads.named (Reads.orElse_right (fails_star hstar).bind ?_)
    refine (reads_word hw hrest.word).bind_eq ?_
    refine (Reads.optional_none (P := (· = none)) (fails_star hrest.star) rfl).bind_eq ?_
    exact Reads.pure rfl
  refine reads_term_bareTerm (fun c hc => (hhead c hc).1) (fun c hc => (hhead c hc).2.2.1)
    (reads_bareTerm_simple (fun c hc => ⟨(hhead c hc).2.2.2.1, (hhead c hc).2.2.2.2.1⟩)
      (reads_simpleTerm_pattern (fun c hc => (hhead c hc).2.2.2.2.2) hpattern ?_))
  rintro _ rfl span
  exact ⟨span, rfl⟩

theorem endsTerm_nil : EndsTerm [] := by simp [EndsTerm]

theorem isTerm_written (hw : w.Valid) : IsTerm w.written := by
  have hread := reads_term_word w.written.length hw endsTerm_nil
  have hhead := head_word_ne hw []
  rw [List.append_nil] at hread hhead
  obtain ⟨t, there, hfound, hend, -⟩ := hread (Cursor.start w.written) rfl
  exact ⟨fun c hc => (hhead c hc).1, t, there, hfound, hend⟩

/-- In a set it stands for a literal. -/
theorem Spells.expression_word {t : Term} {e : Expression} {source : String} (hw : w.Valid)
    (h : Spells w.written t) (he : t.expression source = .ok e) : e = .literal w.literal := by
  have hread := reads_term_word w.written.length hw endsTerm_nil
  rw [List.append_nil] at hread
  obtain ⟨_, there, hfound, -, -, span, rfl⟩ := hread (Cursor.start w.written) rfl
  obtain ⟨_, _, hfound', halike⟩ := h
  rw [hfound] at hfound'
  cases hfound'
  have hliteral := (halike.expression source source e).2 he
  cases hliteral
  rfl

theorem Denote.literals {first : Word} {others : List Word} {e : Expression}
    {es : List Expression} (hfirst : first.Valid) (hothers : ∀ w ∈ others, w.Valid)
    (h : Denote first.written (others.map Word.written) e es) :
    e = .literal first.literal ∧ es = others.map fun w => .literal w.literal := by
  obtain ⟨v, source, hv, he, hes⟩ := h
  refine ⟨hv.first.expression_word hfirst he, ?_⟩
  have hrest := hv.rest
  generalize v.rest = ts at hrest hes
  clear hv he
  induction others generalizing ts es with
  | nil =>
    cases hrest
    cases hes
    rfl
  | cons w others ih =>
    rw [List.forall_mem_cons] at hothers
    cases hrest with
    | cons ht hts =>
      rw [Term.expressions] at hes
      obtain ⟨_, he, hes⟩ := bind_eq_ok.1 hes
      obtain ⟨_, hes', hes⟩ := bind_eq_ok.1 hes
      cases hes
      rw [List.map_cons, ht.expression_word hothers.1 he, ih hothers.2 _ hts hes']

end Grammar

/-! ## Values -/

namespace Word

variable {w : Word}

theorem operand_of_ne_null (h : w.operand ≠ .null) :
    w.operand = .string (String.ofList w.text) := by
  cases w with
  | bare cs =>
    rw [operand] at h ⊢
    split at h
    · exact absurd rfl h
    · next hnull => rw [if_neg hnull, text]
  | quoted inner => rfl

/-- A date that is written as it is shown is looked for as it is written. -/
theorem plainText_of_shown (h : w.Shown) : w.literal.plainText = w.text := by
  cases w with
  | bare cs =>
    rw [literal, Literal.ofText]
    cases htemporal : Literal.temporal? cs with
    | none => simp [Literal.plainText, text]
    | some l =>
      rw [Option.getD_some, plainText_of_ne_text (Literal.legible_of_temporal? htemporal).2]
      exact h l htemporal
  | quoted inner => simp [literal, Literal.plainText, text]

/-- **A word is the same value of every kind, by itself and in a set**, unless it is a date that is
shown as another text. -/
theorem literal_as? {kind : Kind} (h : kind = .string → w.Shown) :
    w.literal.as? kind = readScalar? (String.ofList w.text) kind := by
  cases w with
  | bare cs =>
    rw [literal, Literal.ofText, text]
    cases htemporal : Literal.temporal? cs with
    | none => rfl
    | some l =>
      have hne := (Literal.legible_of_temporal? htemporal).2
      have hdashed := Literal.dashed_of_temporal? htemporal
      rw [Option.getD_some, Literal.as?_of_ne_text hne]
      cases kind with
      | string => rw [Literal.temporalAs?, if_pos rfl, h rfl l htemporal, readScalar?]
      | integer | float | boolean =>
        have hdashed' : Dashed (Text.trim (String.ofList cs).toList) := by
          rwa [String.toList_ofList]
        rw [Literal.temporalAs?_eq_none (by simp), hdashed'.readScalar?_eq_none (by simp)]
      | date | dateTime | offsetDateTime =>
        simp [readScalar?, Literal.temporal?_trim htemporal]
  | quoted inner => rfl

end Word

/-! ## Tests -/

section Tests

variable {n : Nat} {s : Schema n} {type : FieldType n} {op : Operator} {w : Word} {x : Operand}
  {kind : Kind} {place : Option Placement}

/-- The operators that ask for a value or for a piece of text. -/
def Operator.looksFor : Operator → Bool
  | eq | contains | startsWith | endsWith => true
  | _ => false

/-- Where such an operator looks for an expression: the kind of the values, and the place of a
text. -/
def sought (s : Schema n) (field : String) (type : FieldType n) (op : Operator) :
    Except QueryError (Kind × Option Placement) :=
  match op.placement? with
  | some place =>
    if type.kind? = some .string then .ok (.string, some place)
    else refuse field (.notText op.token (s.typeName type))
  | none => (·, none) <$> comparedKind s field type

theorem operatorTest_expression (hop : op.looksFor = true) (field : String) (e : Expression) :
    operatorTest s field type op (.expression e) =
      (do let (kind, place) ← sought s field type op; expressionTest field kind place e) := by
  have hplaced : ∀ place : Placement, (if type.kind? = some .string then
        placedTest field place (.expression e)
      else refuse field (.notText op.token (s.typeName type))) = (do
        let (kind, place) ← (if type.kind? = some .string then .ok (.string, some place)
          else refuse field (.notText op.token (s.typeName type)))
        expressionTest field kind place e) := by
    intro place
    split <;> rfl
  cases op with
  | eq =>
    show (comparedKind s field type >>= _) = _
    simp only [sought, Operator.placement?]
    cases comparedKind s field type <;> rfl
  | contains => exact hplaced .anywhere
  | startsWith => exact hplaced .atStart
  | endsWith => exact hplaced .atEnd
  | _ => cases hop

/-- A field whose values are compared is of the kind that they are read as. -/
theorem kind?_of_sought {field : String} (h : sought s field type op = .ok (kind, place)) :
    type.kind? = some kind := by
  unfold sought at h
  split at h
  · split at h
    · next hkind =>
      cases h
      exact hkind
    · cases h
  · obtain ⟨k, hk, heq⟩ := map_eq_ok.1 h
    cases heq
    unfold comparedKind at hk
    split at hk <;> cases hk
    assumption

theorem Operator.positive_of_looksFor (hop : op.looksFor = true) : op.positive = (op, false) := by
  cases op <;> first | rfl | cases hop

theorem Operator.isText_of_looksFor (hop : op.looksFor = true) :
    op.isText = op.placement?.isSome := by
  rw [op.isText_positive, positive_of_looksFor hop]

theorem Operator.eq_of_looksFor (hop : op.looksFor = true) (hplace : op.placement? = none) :
    op = .eq := by
  cases op <;> first | rfl | simp [placement?, looksFor] at hop hplace

/-- **A word in a set and behind an operator stand for the same test.** -/
theorem expressionTest_word {field : String} (hop : op.looksFor = true)
    (hsought : sought s field type op = .ok (kind, place)) (hx : w.behind op = .ok x)
    (hnull : w.operand ≠ .null) (hshown : kind = .string → w.Shown) :
    Agree Test.Same (expressionTest field kind place (.literal w.literal))
      (operatorTest s field type op x) := by
  have htext := Operator.isText_of_looksFor hop
  cases hplace : op.placement? with
  | none =>
    -- a value is compared with
    obtain rfl := Operator.eq_of_looksFor hop hplace
    obtain ⟨k, hk, heq⟩ :=
      map_eq_ok.1 (show (·, none) <$> comparedKind s field type = _ from hsought)
    cases heq
    rw [Word.behind, if_neg (by decide), Word.operand_of_ne_null hnull] at hx
    cases hx
    have hsame := equalityTest_string (Word.literal_as? hshown) field
    simp only [operatorTest, hk]
    exact hsame
  | some p =>
    -- a piece of text is looked for
    rw [hplace, Option.isSome_some] at htext
    rw [Word.behind, if_pos htext] at hx
    obtain ⟨f, hf, rfl⟩ := map_eq_ok.1 hx
    have hsame : sought s field type op = .ok (.string, some p) := by
      simp only [sought, hplace] at hsought ⊢
      split at hsought
      · next hkind => rw [if_pos hkind]
      · cases hsought
    rw [hsought] at hsame
    cases hsame
    rw [operatorTest_expression hop, hsought]
    have hpositive : op.positive.1.placement? = some p := by
      rw [Operator.positive_of_looksFor hop, hplace]
    have hpattern := expressionTest_textExpression hpositive field f
    have hplain : f.text.toList = w.literal.plainText := by
      rw [Fragment.text_of_of hf, String.toList_ofList, Word.plainText_of_shown (hshown rfl)]
    rw [hplain] at hpattern
    show Agree _ (textTest field p w.literal.plainText) (expressionTest field .string (some p) _)
    rw [hpattern]
    exact Agree.refl (fun _ _ _ => rfl) _

/-- Where no expression is looked for, no word is looked for behind the operator. -/
theorem operatorTest_of_unsought {field : String} {err : QueryError} (hop : op.looksFor = true)
    (hsought : sought s field type op = .error err) (hx : w.behind op = .ok x)
    (hnull : w.operand ≠ .null) : operatorTest s field type op x = .error err := by
  have htext := Operator.isText_of_looksFor hop
  cases hplace : op.placement? with
  | none =>
    obtain rfl := Operator.eq_of_looksFor hop hplace
    rw [Word.behind, if_neg (by decide), Word.operand_of_ne_null hnull] at hx
    cases hx
    simp only [sought, Operator.placement?] at hsought
    show (comparedKind s field type >>= _) = _
    cases hkind : comparedKind s field type with
    | error e =>
      rw [hkind] at hsought
      cases hsought
      rfl
    | ok kind =>
      rw [hkind] at hsought
      cases hsought
  | some p =>
    rw [hplace, Option.isSome_some] at htext
    rw [Word.behind, if_pos htext] at hx
    obtain ⟨f, -, rfl⟩ := map_eq_ok.1 hx
    rw [operatorTest_expression hop, hsought]
    rfl

end Tests

/-! ## Predicates -/

/-- A value at the end of a path passes one of several tests where one of the tests is passed by a
value there. -/
theorem Predicate.accepts_any_cons (names : List String) (lifted : Bool) (t : Test) (ts : List Test)
    (ignoreCase : Bool) (r : Record) :
    (field names (.any (t :: ts)) lifted false).accepts ignoreCase r =
      ((field names t lifted false).accepts ignoreCase r ||
        (field names (.any ts) lifted false).accepts ignoreCase r) := by
  simp only [accepts, anyValue_leafTest, Test.holds, Test.anyHolds, Bool.bne_false]
  rw [Bool.eq_iff_iff]
  simp only [Bool.or_eq_true, List.any_eq_true, and_or_left, exists_or]

theorem Predicate.accepts_any_nil (names : List String) (lifted ignoreCase : Bool) (r : Record) :
    (field names (.any []) lifted false).accepts ignoreCase r = false := by
  simp [accepts, anyValue_leafTest, Test.holds, Test.anyHolds]

namespace Schema

variable {n : Nat} (s : Schema n) {path : String} {op : Operator}

/-- The field at the end of a path holds texts. -/
def HoldsText (path : String) : Prop :=
  ∃ segments leaf, s.resolve path = .ok segments ∧ segments.getLast? = some leaf ∧
    leaf.type.kind? = some .string

/-- The members on a path, and the last one. -/
def target (path : String) : Except QueryError (List (PathSegment n) × PathSegment n) := do
  let segments ← s.resolve path
  match segments.getLast? with
  | none => throw { cause := .internal s!"`{path}` resolved to an empty path" }
  | some leaf => return (segments, leaf)

theorem compileFilter_on (hpath : path ≠ "") (hop : op.looksFor = true) (x : Operand) :
    s.compileFilter (.on path op x) = (do
      let (segments, leaf) ← s.target path
      let test ← (operatorTest s path leaf.type op x).mapError (·.withType s.rootShape.name)
      return .field (segments.map (·.name)) test (leaf.type.isList && op.looksInside) false) := by
  have hsome : (Filter.on path op x).path? = some path := by simp [Filter.path?, Filter.on, hpath]
  unfold compileFilter target
  rw [hsome]
  simp only [show (Filter.on path op x).operator = op from rfl, Operator.positive_of_looksFor hop]
  cases s.resolve path with
  | error e => rfl
  | ok segments =>
    cases hlast : segments.getLast? with
    | none =>
      simp only [Bind.bind, Except.bind, hlast]
      rfl
    | some leaf =>
      simp only [Bind.bind, Except.bind, hlast]
      rfl

variable {s} {segments : List (PathSegment n)} {leaf : PathSegment n} {kind : Kind}
  {place : Option Placement}

/-- A field whose values are read as texts holds texts. -/
theorem holdsText_of_sought (htarget : s.target path = .ok (segments, leaf))
    (hsought : sought s path leaf.type op = .ok (.string, place)) : s.HoldsText path := by
  unfold target at htarget
  obtain ⟨_, hresolve, htarget⟩ := bind_eq_ok.1 htarget
  split at htarget
  · cases htarget
  · next hlast =>
    cases htarget
    exact ⟨segments, leaf, hresolve, hlast, kind?_of_sought hsought⟩

/-- A word in a set stands for a test that is passed at the end of a path where the comparison with
the word accepts the record. -/
theorem compile_word {w : Word} {x : Operand} (hpath : path ≠ "") (hop : op.looksFor = true)
    (htarget : s.target path = .ok (segments, leaf))
    (hsought : sought s path leaf.type op = .ok (kind, place)) (hx : w.behind op = .ok x)
    (hnull : w.operand ≠ .null) (hshown : kind = .string → w.Shown) :
    Agree (fun t p => (Predicate.field (segments.map (·.name)) t
        (leaf.type.isList && op.looksInside) false).Same p)
      (expressionTest path kind place (.literal w.literal))
      (s.compile (.leaf (.on path op x))) := by
  have hword := expressionTest_word hop hsought hx hnull hshown
  rw [compile, s.compileFilter_on hpath hop, htarget]
  show Agree _ _ ((operatorTest s path leaf.type op x).mapError _ >>= _)
  generalize expressionTest path kind place (.literal w.literal) = t at hword ⊢
  generalize operatorTest s path leaf.type op x = t' at hword ⊢
  cases hword with
  | error e e' => exact .error _ _
  | ok h => exact .ok (Predicate.same_field h _ _ _)

/-- **Several words in a set** stand for tests one of which is passed where one of the comparisons
with the words accepts the record. -/
theorem compileAll_words {words : List Word} {operands : List Operand} (hpath : path ≠ "")
    (hop : op.looksFor = true) (htarget : s.target path = .ok (segments, leaf))
    (hsought : sought s path leaf.type op = .ok (kind, place))
    (hoperands : List.Forall₂ (fun w x => Word.behind op w = .ok x) words operands)
    (hnull : ∀ w ∈ words, w.operand ≠ .null) (hshown : kind = .string → ∀ w ∈ words, w.Shown) :
    Agree (fun ts ps => ∀ ignoreCase r, (Predicate.field (segments.map (·.name)) (.any ts)
        (leaf.type.isList && op.looksInside) false).accepts ignoreCase r =
          Predicate.anyAccepts ignoreCase ps r)
      (expressionTests path kind place (words.map fun w => .literal w.literal))
      (s.compileAll (operands.map fun x => .leaf (.on path op x))) := by
  induction hoperands with
  | nil =>
    refine .ok fun ignoreCase r => ?_
    rw [Predicate.accepts_any_nil]
    rfl
  | cons hx _ ih =>
    rw [List.forall_mem_cons] at hnull
    have hfirst := compile_word hpath hop htarget hsought hx hnull.1
      fun hkind => hshown hkind _ List.mem_cons_self
    have hrest := ih hnull.2 fun hkind w hw => hshown hkind w (List.mem_cons_of_mem _ hw)
    rw [List.map_cons, List.map_cons, expressionTests, compileAll]
    refine hfirst.bind fun t p hp => hrest.bind fun ts ps hps => .ok fun ignoreCase r => ?_
    rw [Predicate.accepts_any_cons, Predicate.anyAccepts, hp, hps]

/-- A disjunction accepts what one of its members accepts, also if there is only one. -/
theorem compile_combine_or (node : Node) (nodes : List Node) :
    Agree
      (fun ps p => ∀ ignoreCase r, Predicate.anyAccepts ignoreCase ps r = p.accepts ignoreCase r)
      (s.compileAll (node :: nodes)) (s.compile (.combine .or (node :: nodes))) := by
  cases nodes with
  | nil =>
    rw [compileAll, Node.combine]
    cases s.compile node with
    | error e => exact .error e e
    | ok p =>
      refine .ok fun ignoreCase r => ?_
      rw [Predicate.anyAccepts, Predicate.anyAccepts, Bool.or_false]
  | cons second nodes =>
    rw [show Node.combine .or (node :: second :: nodes) =
      .group .multi .or (node :: second :: nodes) from rfl, compile]
    cases s.compileAll (node :: second :: nodes) with
    | error e => exact .error e e
    | ok ps =>
      refine .ok fun ignoreCase r => ?_
      rw [Predicate.accepts]

/-- **A set of words and the disjunction of the comparisons with them** accept the same records. -/
theorem compile_literalSet {w : Word} {words : List Word} {x : Operand} {operands : List Operand}
    (hpath : path ≠ "") (hop : op.looksFor = true)
    (hoperands : List.Forall₂ (fun w x => Word.behind op w = .ok x) (w :: words) (x :: operands))
    (hnull : ∀ v ∈ w :: words, v.operand ≠ .null)
    (hshown : s.HoldsText path → ∀ v ∈ w :: words, v.Shown) :
    Agree Predicate.Same
      (s.compile (.leaf (.on path op (.expression (.oneOf
        ((w :: words).map fun v => .literal v.literal))))))
      (s.compile (.combine .or ((x :: operands).map fun y => .leaf (.on path op y)))) := by
  refine Agree.trans (R := fun p ps => ∀ ignoreCase r, p.accepts ignoreCase r =
    Predicate.anyAccepts ignoreCase ps r) ?_
    (compile_combine_or (.leaf (.on path op x)) (operands.map fun y => .leaf (.on path op y)))
    fun p ps q hp hq ignoreCase r => (hp ignoreCase r).trans (hq ignoreCase r)
  rw [compile, s.compileFilter_on hpath hop]
  cases htarget : s.target path with
  | error e =>
    rw [compileAll, compile, s.compileFilter_on hpath hop, htarget]
    exact .error e e
  | ok found =>
    obtain ⟨segments, leaf⟩ := found
    show Agree _ ((operatorTest s path leaf.type op _).mapError _ >>= _) _
    rw [operatorTest_expression hop]
    cases hsought : sought s path leaf.type op with
    | error e =>
      -- the first comparison is refused as the set is
      cases hoperands with
      | cons hx _ =>
        have hfirst := operatorTest_of_unsought hop hsought hx (hnull w List.mem_cons_self)
        rw [compileAll, compile, s.compileFilter_on hpath hop, htarget]
        show Agree _ _ (((operatorTest s path leaf.type op x).mapError _ >>= _) >>= _)
        rw [hfirst]
        exact .error _ _
    | ok found =>
      obtain ⟨kind, place⟩ := found
      have hall := compileAll_words hpath hop htarget hsought hoperands hnull fun hkind =>
        hshown (holdsText_of_sought htarget (hkind ▸ hsought))
      simp only [List.map_cons] at hall ⊢
      show Agree _ ((expressionTest path kind place _).mapError _ >>= _) _
      rw [expressionTest]
      generalize expressionTests path kind place _ = ts at hall ⊢
      generalize s.compileAll _ = ps at hall ⊢
      cases hall with
      | error e e' => exact .error _ _
      | ok h => exact .ok h

end Schema

/-! ## Texts -/

/-- The words as a set. -/
def Word.setOf (words : List Word) : String :=
  "\x7b" ++ ",".intercalate (words.map fun w => String.ofList w.written) ++ "\x7d"

/-- A comparison with each of the words, with the word for a disjunction between them. -/
def Node.eitherOf (path : FieldPath) (op : Operator) (words : List Word) : String :=
  " or ".intercalate (words.map fun w => comparison path.written op (String.ofList w.written))

variable {path : FieldPath} {op : Operator} {w : Word} {words : List Word}

theorem Word.setOf_cons (w : Word) (words : List Word) :
    setOf (w :: words) = String.ofList ('\x7b' :: (Grammar.markedTerms w.written
      (words.map fun v => (',', v.written)) ++ ['\x7d'])) := by
  have hwritten : List.map (String.toList ∘ fun v : Word => String.ofList v.written) (w :: words) =
      (w :: words).map Word.written := by
    simp
  rw [← String.toList_inj, setOf, String.toList_append, String.toList_append,
    String.toList_intercalate, List.map_map, hwritten, intercalate_cons, String.toList_ofList]
  simp [Grammar.markedTerms, Grammar.markedPieces, List.flatMap_map]

theorem Node.toList_eitherOf (path : FieldPath) (op : Operator) (w : Word) (words : List Word) :
    (eitherOf path op (w :: words)).toList = Grammar.comparisonText path op w.written ++
      Grammar.joinedTexts .or (fun v => Grammar.comparisonText path op v.written) words := by
  have hwritten : List.map (String.toList ∘ fun v : Word =>
      comparison path.written op (String.ofList v.written)) (w :: words) =
      (w :: words).map fun v => Grammar.comparisonText path op v.written := by
    simp [toList_comparison_written]
  rw [eitherOf, String.toList_intercalate, List.map_map, hwritten, intercalate_cons]
  rfl

/-- A phrase stands for the comparison of a field with a word. -/
def Phrase.Compares (path : FieldPath) (op : Operator) (w : Word) (p : Phrase) : Prop :=
  ∀ source, p.node source = (fun x => .leaf (.on path.written op x)) <$> w.behind op

theorem Phrase.Compares.combined {p : Phrase} (logic : Logic) (h : p.Compares path op w) :
    (Phrase.combined logic p []).Compares path op w := by
  intro source
  rw [Phrase.node_combined, h source]
  cases w.behind op <;> rfl

theorem Phrase.nodes_of_compares {ps : List Phrase} {source : String} {nodes : List Node}
    (hps : List.Forall₂ (Phrase.Compares path op) words ps)
    (h : Phrase.nodes source ps = .ok nodes) :
    ∃ operands, List.Forall₂ (fun v y => Word.behind op v = .ok y) words operands ∧
      nodes = operands.map fun y => .leaf (.on path.written op y) := by
  induction hps generalizing nodes with
  | nil =>
    cases h
    exact ⟨[], .nil, rfl⟩
  | cons hp _ ih =>
    rw [Phrase.nodes] at h
    obtain ⟨first, hfirst, h⟩ := bind_eq_ok.1 h
    obtain ⟨rest, hrest, h⟩ := bind_eq_ok.1 h
    cases h
    rw [hp source] at hfirst
    obtain ⟨x, hx, rfl⟩ := map_eq_ok.1 hfirst
    obtain ⟨operands, hoperands, rfl⟩ := ih hrest
    exact ⟨x :: operands, .cons hx hoperands, rfl⟩

/-- The disjunction of phrases that stand for comparisons is the disjunction of the comparisons. -/
theorem Phrase.node_any_of_compares {p : Phrase} {ps : List Phrase} {source : String} {node : Node}
    (hps : List.Forall₂ (Phrase.Compares path op) words (p :: ps))
    (h : (Phrase.any p ps).node source = .ok node) :
    ∃ operands, List.Forall₂ (fun v y => Word.behind op v = .ok y) words operands ∧
      node = .combine .or (operands.map fun y => .leaf (.on path.written op y)) := by
  have hnodes : ∃ nodes, Phrase.nodes source (p :: ps) = .ok nodes ∧ node = .combine .or nodes := by
    rw [Phrase.node] at h
    obtain ⟨first, hfirst, h⟩ := bind_eq_ok.1 h
    obtain ⟨rest, hrest, h⟩ := bind_eq_ok.1 h
    cases h
    refine ⟨first :: rest, ?_, rfl⟩
    rw [Phrase.nodes, hfirst, hrest]
    rfl
  obtain ⟨nodes, hnodes, rfl⟩ := hnodes
  obtain ⟨operands, hoperands, rfl⟩ := Phrase.nodes_of_compares hps hnodes
  exact ⟨operands, hoperands, rfl⟩

namespace Grammar

variable {depth : Nat}

/-- A word is read as a value by itself where no other alternative follows. -/
theorem reads_value_word (depth : Nat) (hw : w.Valid) {rest : List Char} (hrest : EndsTerm rest)
    (hbar : ∀ c ∈ (afterBlanks rest).head?, c ≠ '|') :
    ReadsUpTo (value (depth + 1)) (fun v => w.IsTerm v.first ∧ v.rest = [])
      (w.written ++ rest) rest :=
  (reads_separated_single (reads_term_word depth hw hrest) fun c hc =>
    beq_eq_false_iff_ne.2 (hbar c hc)).named

/-- **A comparison with a word** is read as a member of a conjunction. -/
theorem reads_member_word (depth : Nat) (hpath : path.Valid) (hop : op.requiresValue = true)
    (hw : w.Valid) : ReadsMemberText EndsClause (member (depth + 1))
      (comparisonText path op w.written) (Phrase.Compares path op w) := by
  have hbehind : ∀ rest, comparisonText path op w.written ++ rest =
      comparisonText path op (w.written ++ rest) := by simp [comparisonText]
  refine ⟨fun rest => hbehind rest ▸ isBlank_head_comparisonText hpath.first, fun rest hrest => ?_⟩
  have hvalue := reads_value_word depth hw hrest.term hrest.bar
  have hgoesOn := member_goesOn depth hpath hop (w.written ++ rest)
  rw [afterBlanks_of_head fun c hc => (head_word_ne hw rest c hc).1] at hgoesOn
  rw [hbehind]
  refine hgoesOn.readsUpTo (hvalue.map fun v hv source => ?_)
  rw [Phrase.node, FieldPath.filter, Value.operand_of_word hv source op]
  cases w.behind op <;> rfl

/-- **Comparisons with several words** are read as their disjunction. -/
theorem reads_eitherOf (depth : Nat) (hpath : path.Valid) (hop : op.requiresValue = true)
    (hw : w.Valid) (hwords : ∀ v ∈ words, v.Valid) :
    Reads (disjunction (member (depth + 1))) (fun p => ∃ q qs, p = .any q qs ∧
        List.Forall₂ (Phrase.Compares path op) (w :: words) (q :: qs))
      (comparisonText path op w.written ++
        joinedTexts .or (fun v => comparisonText path op v.written) words) [] := by
  have hconjunction : ∀ v : Word, v.Valid → ReadsMemberText EndsConjunction
      (conjunction (member (depth + 1))) (comparisonText path op v.written)
      (Phrase.Compares path op v) := fun v hv =>
    ⟨(reads_member_word depth hpath hop hv).head, fun rest hrest =>
      reads_conjunction_of_member (fun _ hp => hp.combined .and)
        ((reads_member_word depth hpath hop hv).reads rest hrest.1) hrest⟩
  have hends : EndsConjunction
      (joinedTexts .or (fun v => comparisonText path op v.written) words ++ []) :=
    ends_joinedTexts endsConjunction_or endsFilter_nil.1 words
  have hjoined := reads_joinedTexts .or ((hconjunction w hw).reads _ hends)
    (fun v hv => hconjunction v (hwords v hv)) endsConjunction_or endsFilter_nil.1 endsFilter_nil.2
  rw [List.append_nil] at hjoined
  rw [disjunction_eq]
  exact reads_of_upTo_end (ReadsUpTo.named (hjoined.map fun ps hps =>
    ⟨ps.1, ps.2, rfl, .cons hps.1 hps.2⟩))

end Grammar

namespace Node

variable {n limit : Nat} {s : Schema n} {a b : Node}

/-- A set of words behind an operator is read as the set of what the words stand for. -/
theorem ofText_setOf (hop : op.requiresValue = true) (hpath : path.Valid) (hw : w.Valid)
    (hwords : ∀ v ∈ words, v.Valid)
    (h : ofText limit (comparison path.written op (Word.setOf (w :: words))) = .ok a) :
    a = .leaf (.on path.written op (.expression (.oneOf
      ((w :: words).map fun v => .literal v.literal)))) := by
  rw [Word.setOf_cons] at h
  have hmarks : ∀ m ∈ words.map (fun v => (',', v.written)), m.1 = '|' ∨ m.1 = ',' := by
    intro m hm
    obtain ⟨v, -, rfl⟩ := List.mem_map.1 hm
    exact Or.inr rfl
  have hterms : ∀ m ∈ words.map (fun v => (',', v.written)), Grammar.IsTerm m.2 := by
    intro m hm
    obtain ⟨v, hv, rfl⟩ := List.mem_map.1 hm
    exact Grammar.isTerm_written (hwords v hv)
  obtain ⟨v, _, x, hv, hx, rfl⟩ := exists_operand hpath hop (by simp [isBlank])
    (fun depth => Grammar.reads_value_set hmarks (Grammar.isTerm_written hw) hterms) h
  obtain ⟨e, es, hdenote, rfl⟩ := Grammar.denote_of_set hv hx
  have hsnd : (words.map fun v => (',', v.written)).map Prod.snd = words.map Word.written := by
    simp
  rw [hsnd] at hdenote
  obtain ⟨rfl, rfl⟩ := hdenote.literals hw hwords
  rfl

/-- Comparisons with several words are read as their disjunction. -/
theorem ofText_eitherOf (hop : op.requiresValue = true) (hpath : path.Valid) (hw : w.Valid)
    (hwords : ∀ v ∈ words, v.Valid)
    (h : ofText limit (eitherOf path op (w :: words)) = .ok b) :
    ∃ operands, List.Forall₂ (fun v y => Word.behind op v = .ok y) (w :: words) operands ∧
      b = .combine .or (operands.map fun y => .leaf (.on path.written op y)) := by
  have htext := toList_eitherOf path op w words
  have hhead : ∀ c ∈ (eitherOf path op (w :: words)).toList.head?, isBlank c = false := by
    rw [htext]
    exact (Grammar.reads_member_word 0 hpath hop hw).head _
  have hread := Grammar.reads_eitherOf (eitherOf path op (w :: words)).length hpath hop hw hwords
  rw [← htext] at hread
  obtain ⟨_, ⟨q, qs, rfl, hqs⟩, hnode⟩ := node_of_reads hhead hread h
  exact Phrase.node_any_of_compares hqs hnode

/-- **A set of literals means the disjunction of its literals**: for every type both comparisons
compile or neither does, and then they accept the same records.

On a field that holds texts a bare word that reads as a date or a time has to be written as it is
shown, for in a set it is written out anew. -/
theorem agree_literalSet (hop : op.looksFor = true) (hname : Grammar.IsIdentifier path.first)
    (hsteps : ∀ step ∈ path.steps, step.Valid) (hne : words ≠ []) (hwords : ∀ v ∈ words, v.Valid)
    (hnull : ∀ v ∈ words, v.operand ≠ .null)
    (hshown : s.HoldsText path.written → ∀ v ∈ words, v.Shown)
    (ha : ofText limit (comparison path.written op (Word.setOf words)) = .ok a)
    (hb : ofText limit (eitherOf path op words) = .ok b) :
    Agree Predicate.Same (s.compile a) (s.compile b) := by
  obtain ⟨w, words, rfl⟩ := List.exists_cons_of_ne_nil hne
  have hvalue : op.requiresValue = true := by cases op <;> first | rfl | cases hop
  have hpath : path.Valid := by
    rw [Word.setOf_cons] at ha
    exact ⟨hname, ne_not_of_ofText_comparison hname (by decide) (by decide) ha, hsteps⟩
  rw [List.forall_mem_cons] at hwords
  obtain rfl := ofText_setOf hvalue hpath hwords.1 hwords.2 ha
  obtain ⟨operands, hoperands, rfl⟩ := ofText_eitherOf hvalue hpath hwords.1 hwords.2 hb
  cases hoperands with
  | cons hx hrest =>
    exact Schema.compile_literalSet hpath.written_ne hop (.cons hx hrest) hnull hshown

/-- A date and a quoted name, looked for in a list of texts. -/
theorem agree_literalSet_names :
    ∃ (s : Schema 1) (a b : Node) (p : Predicate),
      ofText defaultDepth "Names startswith \x7b2024-01-01,\"Clark Kent\"\x7d" = .ok a ∧
      ofText defaultDepth "Names startswith 2024-01-01 or Names startswith \"Clark Kent\"" = .ok b ∧
      s.compile a = .ok p ∧ Agree Predicate.Same (s.compile a) (s.compile b) := by
  let s : Schema 1 := ⟨fun _ => ⟨"Hero", [("Names", .list (.scalar .string))]⟩, 0⟩
  let path : FieldPath := ⟨"Names".toList, []⟩
  let words : List Word := [.bare "2024-01-01".toList, .quoted "Clark Kent".toList]
  have hset : comparison path.written .startsWith (Word.setOf words) =
      "Names startswith \x7b2024-01-01,\"Clark Kent\"\x7d" := by decide +kernel
  have heither : eitherOf path .startsWith words =
      "Names startswith 2024-01-01 or Names startswith \"Clark Kent\"" := by decide +kernel
  have hread : ((ofText defaultDepth
      "Names startswith \x7b2024-01-01,\"Clark Kent\"\x7d").toOption.bind
      fun a => (s.compile a).toOption).isSome = true := by decide +kernel
  have hread' : (ofText defaultDepth
      "Names startswith 2024-01-01 or Names startswith \"Clark Kent\"").toOption.isSome = true := by
    decide +kernel
  obtain ⟨p, hp⟩ := Option.isSome_iff_exists.1 hread
  obtain ⟨a, ha, hp⟩ := Option.bind_eq_some_iff.1 hp
  obtain ⟨b, hb⟩ := Option.isSome_iff_exists.1 hread'
  have hname : Grammar.IsIdentifier path.first :=
    ⟨'N', ['a', 'm', 'e', 's'], rfl, by decide, forall_mem_of_all (by decide)⟩
  have hquoted : QuotedInner "Clark Kent".toList := by
    have hescape : Text.Quoted.escape "Clark Kent".toList = "Clark Kent".toList := by decide
    exact hescape ▸ quotedInner_escape _
  have hwords : ∀ v ∈ words, v.Valid :=
    List.forall_mem_cons.2 ⟨⟨by decide, forall_mem_of_all (by decide)⟩,
      List.forall_mem_cons.2 ⟨hquoted, by simp⟩⟩
  have hnull : ∀ v ∈ words, v.operand ≠ .null :=
    List.forall_mem_cons.2 ⟨nofun, List.forall_mem_cons.2 ⟨nofun, by simp⟩⟩
  refine ⟨s, a, b, p, toOption_eq_some.1 ha, toOption_eq_some.1 hb, toOption_eq_some.1 hp, ?_⟩
  exact agree_literalSet rfl hname (by simp [path]) (by decide) hwords hnull
    (fun _ => by decide +kernel) (hset ▸ toOption_eq_some.1 ha) (heither ▸ toOption_eq_some.1 hb)

end Node

/-- **A date in a set is written out anew.** A text is not found that is the same as the word. -/
theorem Schema.exists_unlike_literalSet :
    ∃ (s : Schema 1) (p q : Predicate) (r : Record),
      s.compileText "Name eq \x7b2024-1-1\x7d" = .ok p ∧ s.compileText "Name eq 2024-1-1" = .ok q ∧
      r.Conforms s s.root ∧ p.accepts false r = false ∧ q.accepts false r = true := by
  let s : Schema 1 := ⟨fun _ => ⟨"Hero", [("Name", .scalar .string)]⟩, 0⟩
  let r : Record := [("Name", .scalar (.string "2024-1-1"))]
  have hset : (s.compileText "Name eq \x7b2024-1-1\x7d").toOption.map (·.accepts false r) =
      some false := by decide +kernel
  have hword : (s.compileText "Name eq 2024-1-1").toOption.map (·.accepts false r) =
      some true := by decide +kernel
  obtain ⟨p, hp, hset⟩ := Option.map_eq_some_iff.1 hset
  obtain ⟨q, hq, hword⟩ := Option.map_eq_some_iff.1 hword
  have hconforms : r.Conforms s s.root := Record.conforms_single rfl (.scalar (Or.inl rfl))
  exact ⟨s, p, q, r, toOption_eq_some.1 hp, toOption_eq_some.1 hq, hconforms, hset, hword⟩

end Sift
