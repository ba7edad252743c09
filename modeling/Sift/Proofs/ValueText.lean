import Mathlib.Data.List.Forall2
import Sift.Proofs.Lexeme
import Sift.Proofs.Spine
import Sift.Proofs.WordText

/-!
# Value expressions read back

* `Term.Stands`: a term of a text and the expression it was written for.
* `reads_separated`: terms with marks between them.
* `reads_termText`: a written expression is read as a term that stands for it, by induction on the
  depth to which brackets are followed.
* `reads_text`: the same for the alternatives behind an operator.
-/

namespace Sift

open Scan

variable {rest : List Char}

/-- What a term was written for. Only a single literal is read as a word. -/
structure Term.Stands (t : Term) (e : Expression) : Prop where
  expression : ∀ source, t.expression source = .ok e.flattened
  word : ∀ l, e = .literal l → ∃ w, Value.word? ⟨t, []⟩ = some w ∧ w.Means l
  noWord : (∀ l, e ≠ .literal l) → Value.word? ⟨t, []⟩ = none

/-- What several terms were written for. -/
structure Terms.Stand (ts : List Term) (es : List Expression) : Prop where
  expressions : ∀ source, Term.expressions source ts = .ok (es.map Expression.flattened)
  length : ts.length = es.length

theorem Terms.Stand.cons {t : Term} {ts : List Term} {e : Expression} {es : List Expression}
    (h : t.Stands e) (hs : Terms.Stand ts es) : Terms.Stand (t :: ts) (e :: es) := by
  refine ⟨fun source => ?_, by rw [List.length_cons, List.length_cons, hs.length]⟩
  simp only [Term.expressions, h.expression source, hs.expressions source, List.map_cons]
  rfl

/-- What alternatives, or the terms of a set, were written for. -/
structure Value.Stands (v : Value) (e : Expression) (es : List Expression) : Prop where
  first : v.first.Stands e
  rest : Terms.Stand v.rest es

theorem Fragment.of_text (f : Fragment) : Fragment.of f.text = .ok f := dif_neg f.text_ne

/-- The text of a word that means a piece of text. -/
theorem Word.Means.fragment {w : Word} {f : Fragment} (h : w.Means (.text f.text)) :
    w.fragment = .ok f := by
  unfold Word.fragment
  rw [h.text, Literal.plainText, String.ofList_toList, Fragment.of_text]

namespace Grammar

/-- Neither words nor terms go on with what follows. -/
def EndsTerm (rest : List Char) : Prop :=
  ∀ c ∈ rest.head?, isBareChar c = false ∧ c ≠ '*' ∧ c ≠ '"'

theorem EndsTerm.word (h : EndsTerm rest) : EndsWord rest := fun c hc => (h c hc).1

theorem EndsTerm.star (h : EndsTerm rest) : ∀ c ∈ rest.head?, c ≠ '*' := fun c hc => (h c hc).2.1

theorem EndsTerm.literal (h : EndsTerm rest) : Fails Grammar.literal rest :=
  fails_literal fun c hc => ⟨(h c hc).1, (h c hc).2.2⟩

/-- The characters that stand behind a term. -/
theorem endsTerm_cons {c : Char} (h : c ∈ [' ', '|', ',', ')', '}']) : EndsTerm (c :: rest) := by
  intro d hd
  cases hd
  simp only [List.mem_cons, List.not_mem_nil, or_false] at h
  rcases h with rfl | rfl | rfl | rfl | rfl <;> decide

theorem endsWord_star : EndsWord ('*' :: rest) := by
  intro c hc
  cases hc
  decide

/-! ## Patterns -/

theorem fails_star (h : ∀ c ∈ rest.head?, c ≠ '*') : Fails star rest := (fails_exactly h).named

theorem reads_star {P : Unit → Prop} (hP : P ()) : Reads star P ('*' :: rest) rest :=
  (Reads.exactly hP).named

/-- A literal is no asterisk. -/
theorem head_written_ne_star (l : Literal) (cs : List Char) :
    ∀ c ∈ (l.written ++ cs).head?, c ≠ '*' := by
  obtain ⟨d, ds, hl, hd⟩ := head_written l
  rw [hl]
  intro c hc
  cases hc
  rintro rfl
  rcases hd with hd | hd <;> exact absurd hd (by decide)

theorem reads_pattern_literal {l : Literal} (h : l.Legible) (hrest : EndsTerm rest) :
    Reads pattern (fun p => ∃ w, p = .word false w false ∧ w.Means l) (l.written ++ rest) rest := by
  refine (Reads.orElse_right (fails_star (head_written_ne_star l rest)).bind ?_).named
  refine (reads_literal h hrest.word).bind fun w hw => ?_
  refine (Reads.optional_none (P := (· = none)) (fails_star hrest.star) rfl).bind_eq ?_
  exact Reads.pure ⟨w, rfl, hw⟩

theorem reads_pattern_startsWith (f : Fragment) :
    Reads pattern (fun p => ∃ w, p = .word false w true ∧ w.Means (.text f.text))
      (f.word ++ '*' :: rest) rest := by
  refine (Reads.orElse_right (fails_star (head_written_ne_star (.text f.text) _)).bind ?_).named
  refine (reads_wordText f.text endsWord_star).bind fun w hw => ?_
  refine (Reads.optional_some (P := (· = some ())) (reads_star rfl)).bind_eq ?_
  exact Reads.pure ⟨w, rfl, hw⟩

theorem reads_pattern_asterisk (hrest : EndsTerm rest) :
    Reads pattern (· = .asterisk) ('*' :: rest) rest := by
  refine Reads.named (Reads.orElse_left ?_)
  refine (reads_star (P := fun _ => True) trivial).bind fun _ _ => ?_
  refine (Reads.optional_none (P := (· = none)) hrest.literal rfl).bind_eq ?_
  refine (Reads.optional_none (P := (· = none)) (fails_star hrest.star) rfl).bind_eq ?_
  exact Reads.pure rfl

theorem reads_pattern_endsWith (f : Fragment) (hrest : EndsTerm rest) :
    Reads pattern (fun p => ∃ w, p = .word true w false ∧ w.Means (.text f.text))
      ('*' :: (f.word ++ rest)) rest := by
  refine Reads.named (Reads.orElse_left ?_)
  refine (reads_star (P := fun _ => True) trivial).bind fun _ _ => ?_
  refine (Reads.optional_some (P := fun w => ∃ w', w = some w' ∧ w'.Means (.text f.text))
    ((reads_wordText f.text hrest.word).mono fun w hw => ⟨w, rfl, hw⟩)).bind ?_
  rintro _ ⟨w, rfl, hw⟩
  refine (Reads.optional_none (P := (· = none)) (fails_star hrest.star) rfl).bind_eq ?_
  exact Reads.pure ⟨w, rfl, hw⟩

theorem reads_pattern_contains (f : Fragment) :
    Reads pattern (fun p => ∃ w, p = .word true w true ∧ w.Means (.text f.text))
      ('*' :: (f.word ++ '*' :: rest)) rest := by
  refine Reads.named (Reads.orElse_left ?_)
  refine (reads_star (P := fun _ => True) trivial).bind fun _ _ => ?_
  refine (Reads.optional_some (P := fun w => ∃ w', w = some w' ∧ w'.Means (.text f.text))
    ((reads_wordText f.text endsWord_star).mono fun w hw => ⟨w, rfl, hw⟩)).bind ?_
  rintro _ ⟨w, rfl, hw⟩
  refine (Reads.optional_some (P := (· = some ())) (reads_star rfl)).bind_eq ?_
  exact Reads.pure ⟨w, rfl, hw⟩

/-! ## Ranges -/

/-- An end of a range is read where no word goes on with what follows. -/
theorem reads_bound {b : Option Literal} (h : ∀ l ∈ b, l.Legible) (hrest : EndsWord rest) :
    Reads bound (·.map Word.literal = b) (Interval.endText b ++ rest) rest := by
  cases b with
  | none =>
    refine Reads.named (Reads.orElse_left ?_)
    exact (reads_star (P := fun _ => True) trivial).bind fun _ _ => Reads.pure rfl
  | some l =>
    refine (Reads.orElse_right (fails_star (head_written_ne_star l rest)).bind ?_).named
    refine (reads_literal (h l rfl) hrest).map fun w hw => ?_
    rw [Option.map_some, hw.literal]

theorem endsWord_cons {c : Char} (h : c ∈ [' ', ']']) : EndsWord (c :: rest) := by
  intro d hd
  cases hd
  simp only [List.mem_cons, List.not_mem_nil, or_false] at h
  rcases h with rfl | rfl <;> decide

/-- An end of a range begins with no white space. -/
theorem afterBlanks_endText (b : Option Literal) (cs : List Char) :
    afterBlanks (Interval.endText b ++ cs) = Interval.endText b ++ cs := by
  refine afterBlanks_of_head ?_
  cases b with
  | none => intro c hc; cases hc; decide
  | some l =>
    obtain ⟨d, ds, hl, hd⟩ := head_written l
    intro c hc
    rw [Interval.endText, Option.elim_some, hl] at hc
    cases hc
    rcases hd with hd | rfl
    · exact isBlank_of_isBareChar hd
    · decide

theorem reads_range {i : Interval} (h : (Expression.range i).Legible) :
    Reads range (fun b => b.1.map Word.literal = i.min? ∧ b.2.map Word.literal = i.max?)
      (i.text ++ rest) rest := by
  obtain ⟨hmin, hmax⟩ := h
  -- the word between the ends is written in capitals, and read in any case
  have hto : Reads (spaced (keyword "to")) (fun _ => True)
      (' ' :: 'T' :: 'O' :: ' ' :: (Interval.endText i.max? ++ ']' :: rest))
      (' ' :: (Interval.endText i.max? ++ ']' :: rest)) :=
    Reads.spaced_to rfl (reads_keyword (t := ['T', 'O']) trivial (by decide)
      (by intro c hc; cases hc; decide))
  unfold Interval.text
  simp only [List.cons_append, List.append_assoc, List.nil_append]
  refine Reads.named (Reads.exactly_bind ?_)
  refine (Reads.spaced_to (afterBlanks_endText i.min? _)
    (reads_bound hmin (endsWord_cons (by simp)))).bind fun min hmin' => ?_
  refine hto.bind fun _ _ => ?_
  refine (Reads.spaced_to ((afterBlanks_space _).trans (afterBlanks_endText i.max? _))
    (reads_bound hmax (endsWord_cons (by simp)))).bind fun max hmax' => ?_
  refine (Reads.spaced_to (P := fun _ => True) rfl (Reads.exactly trivial)).bind fun _ _ => ?_
  exact Reads.pure ⟨hmin', hmax'⟩

/-! ## First characters -/

/-- Whether the term of an expression can begin with a character. -/
def Opens : Expression → Char → Prop
  | .literal _, c | .startsWith _, c => isBareChar c = true ∨ c = '"'
  | .anything, c | .contains _, c | .endsWith _, c => c = '*'
  | .oneOf _, c => c = '{'
  | .not _, c => c = '!'
  | .or _ _, c => c = '('
  | .range _, c => c = '['

theorem termText_opens (e : Expression) : ∃ c cs, e.termText = c :: cs ∧ Opens e c := by
  cases e with
  | literal l => exact head_written l
  | startsWith f =>
    obtain ⟨c, cs, hf, hc⟩ := head_written (.text f.text)
    refine ⟨c, cs ++ ['*'], ?_, hc⟩
    show f.word ++ ['*'] = _
    rw [show f.word = c :: cs from hf, List.cons_append]
  | anything | contains f | endsWith f | oneOf es | not e | or l r | range i =>
    exact ⟨_, _, rfl, rfl⟩

/-- What the first character of a term tells: it is no white space, and every form of expression
with a mark in front is told by the mark. -/
structure Leads (e : Expression) (c : Char) : Prop where
  isBlank : Scan.isBlank c = false
  negation : e.isNegation = false → c ≠ '!'
  group : (∀ l r, e ≠ .or l r) → c ≠ '('
  set : (∀ es, e ≠ .oneOf es) → c ≠ '{'
  range : (∀ i, e ≠ .range i) → c ≠ '['

theorem Opens.leads {e : Expression} {c : Char} (h : Opens e c) : Leads e c := by
  cases e with
  | literal l | startsWith f =>
    rcases h with h | rfl
    -- no special character stands in a word without quotes
    · refine ⟨isBlank_of_isBareChar h, ?_, ?_, ?_, ?_⟩
      all_goals
        rintro - rfl
        exact absurd h (by decide)
    · constructor <;> simp [Scan.isBlank]
  | anything | contains f | endsWith f | oneOf es | not e | or l r | range i =>
    cases h
    constructor <;> simp [Scan.isBlank, Expression.isNegation]

theorem head_termText (e : Expression) (cs : List Char) :
    ∀ c ∈ (e.termText ++ cs).head?, Leads e c := by
  obtain ⟨d, ds, hd, hopens⟩ := termText_opens e
  rw [hd]
  intro c hc
  cases hc
  exact hopens.leads

theorem isBlank_head_termText (e : Expression) (cs : List Char) :
    ∀ c ∈ (e.termText ++ cs).head?, Scan.isBlank c = false :=
  fun c hc => (head_termText e cs c hc).isBlank

/-! ## Terms without others in them -/

theorem stands_literal {w : Word} {l : Literal} (hw : w.Means l) (span : Span) :
    (Term.pattern span (.word false w false)).Stands (.literal l) := by
  refine ⟨fun source => ?_, fun k hk => ?_, fun h => absurd rfl (h l)⟩
  · simp only [Term.expression, Pattern.expression, hw.literal, Expression.flattened]
  · cases hk
    exact ⟨w, rfl, hw⟩

/-- A term that is no word by itself. -/
theorem stands_of_expression {t : Term} {e : Expression}
    (h : ∀ source, t.expression source = .ok e.flattened) (hl : ∀ l, e ≠ .literal l)
    (ht : Value.word? ⟨t, []⟩ = none) : t.Stands e :=
  ⟨h, fun l he => absurd he (hl l), fun _ => ht⟩

theorem stands_fragment {w : Word} {f : Fragment} (hw : w.Means (.text f.text)) (span : Span) :
    (Term.pattern span (.word true w true)).Stands (.contains f) ∧
      (Term.pattern span (.word false w true)).Stands (.startsWith f) ∧
      (Term.pattern span (.word true w false)).Stands (.endsWith f) := by
  refine ⟨?_, ?_, ?_⟩ <;>
    exact stands_of_expression (fun source => by
      simp only [Term.expression, Pattern.expression, hw.fragment, Expression.flattened]; rfl)
      (by simp) rfl

theorem stands_range {min max : Option Word} {i : Interval} (hmin : min.map Word.literal = i.min?)
    (hmax : max.map Word.literal = i.max?) (span : Span) :
    (Term.range span min max).Stands (.range i) := by
  refine stands_of_expression (fun source => ?_) (by simp) rfl
  simp only [Term.expression, rangeExpression, hmin, hmax, Interval.ofEnds?_min?_max?,
    Expression.flattened]

/-- A pattern is looked for where no range begins. -/
theorem reads_simpleTerm_pattern {P : Pattern → Prop} {Q : Term → Prop} {before : List Char}
    (hbefore : ∀ c ∈ before.head?, c ≠ '[') (hp : Reads pattern P before rest)
    (hP : ∀ p, P p → ∀ span, Q (.pattern span p)) : Reads simpleTerm Q before rest := by
  refine Reads.orElse_right (fails_exactly hbefore).bind.named.withSpan.bind ?_
  refine hp.withSpan.bind ?_
  rintro ⟨p, offset, length⟩ h
  exact Reads.pure (hP p h ⟨offset, length⟩)

theorem reads_simpleTerm {e : Expression} (h : e.Legible) (hor : ∀ l r, e ≠ .or l r)
    (hset : ∀ es, e ≠ .oneOf es) (hnot : e.isNegation = false) (hrest : EndsTerm rest) :
    Reads simpleTerm (·.Stands e) (e.termText ++ rest) rest := by
  -- only a range begins with a bracket
  have hbefore : (∀ i, e ≠ .range i) → ∀ c ∈ (e.termText ++ rest).head?, c ≠ '[' :=
    fun hrange c hc => (head_termText e rest c hc).range hrange
  cases e with
  | literal l =>
    exact reads_simpleTerm_pattern (hbefore (by simp)) (reads_pattern_literal h hrest)
      (by rintro _ ⟨w, rfl, hw⟩; exact stands_literal hw)
  | anything =>
    refine reads_simpleTerm_pattern (hbefore (by simp)) (reads_pattern_asterisk hrest) ?_
    rintro _ rfl span
    exact stands_of_expression (fun _ => rfl) (by simp) rfl
  | contains f =>
    have htext : (Expression.contains f).termText ++ rest = '*' :: (f.word ++ '*' :: rest) := by
      simp [Expression.termText, Expression.guarded, Expression.text]
    exact reads_simpleTerm_pattern (hbefore (by simp)) (htext ▸ reads_pattern_contains f)
      (by rintro _ ⟨w, rfl, hw⟩; exact fun span => (stands_fragment hw span).1)
  | startsWith f =>
    have htext : (Expression.startsWith f).termText ++ rest = f.word ++ '*' :: rest := by
      simp [Expression.termText, Expression.guarded, Expression.text]
    exact reads_simpleTerm_pattern (hbefore (by simp)) (htext ▸ reads_pattern_startsWith f)
      (by rintro _ ⟨w, rfl, hw⟩; exact fun span => (stands_fragment hw span).2.1)
  | endsWith f =>
    exact reads_simpleTerm_pattern (hbefore (by simp)) (reads_pattern_endsWith f hrest)
      (by rintro _ ⟨w, rfl, hw⟩; exact fun span => (stands_fragment hw span).2.2)
  | range i =>
    refine Reads.orElse_left ((reads_range h).withSpan.bind ?_)
    rintro ⟨⟨min, max⟩, offset, length⟩ ⟨hmin, hmax⟩
    exact Reads.pure (stands_range hmin hmax ⟨offset, length⟩)
  | oneOf es => exact absurd rfl (hset es)
  | not e => cases hnot
  | or l r => exact absurd rfl (hor l r)

/-! ## Terms with marks between them -/

variable {term : Scan Term} {mark : Char → Bool}

section Pieces

variable {α : Type} {text : α → List Char} {P : α → Term → Prop} {E : List Char → Prop} {a : α}
  {marked : List (Char × α)}

/-- Pieces of text with a mark before each. -/
def markedPieces (text : α → List Char) (marked : List (Char × α)) : List Char :=
  marked.flatMap fun m => m.1 :: text m.2

theorem markedPieces_cons (text : α → List Char) (m : Char × α) (marked : List (Char × α)) :
    markedPieces text (m :: marked) = m.1 :: (text m.2 ++ markedPieces text marked) := rfl

/-- A piece of text is read as a term wherever something that ends it follows. -/
structure ReadsPiece (E : List Char → Prop) (term : Scan Term) (cs : List Char)
    (P : Term → Prop) : Prop where
  head : ∀ rest, E rest → ∀ c ∈ (cs ++ rest).head?, Scan.isBlank c = false
  reads : ∀ rest, E rest → Reads term P (cs ++ rest) rest

/-- Marks end the pieces in front of them. -/
theorem ends_markedPieces (hE : ∀ c cs, c = '|' ∨ c = ',' → E (c :: cs))
    (hmarks : ∀ m ∈ marked, m.1 = '|' ∨ m.1 = ',') (hrest : E rest) :
    E (markedPieces text marked ++ rest) := by
  cases marked with
  | nil => exact hrest
  | cons m marked => exact hE m.1 _ (hmarks m List.mem_cons_self)

theorem afterBlanks_mark {c : Char} {cs : List Char} (hc : c = '|' ∨ c = ',') :
    afterBlanks (c :: cs) = c :: cs := by
  refine afterBlanks_of_head ?_
  rintro _ ⟨⟩
  rcases hc with rfl | rfl <;> decide

/-- A piece with a mark before it. -/
theorem ReadsPiece.reads_marked {c : Char} {cs : List Char} {P : Term → Prop}
    (h : ReadsPiece E term cs P) (hc : mark c = true) (hrest : E rest) :
    Reads (do let _ ← char mark; spaced term) P (c :: (cs ++ rest)) rest :=
  Reads.bind (P := fun _ => True) (Reads.char hc trivial) fun _ _ =>
    Reads.spaced_to (afterBlanks_of_head (h.head rest hrest)) (h.reads rest hrest)

theorem readsMany_markedPieces (hE : ∀ c cs, c = '|' ∨ c = ',' → E (c :: cs))
    (hmarks : ∀ m ∈ marked, m.1 = '|' ∨ m.1 = ',') (haccepts : ∀ m ∈ marked, mark m.1 = true)
    (hpieces : ∀ m ∈ marked, ReadsPiece E term (text m.2) (P m.2)) (hrest : E rest)
    (hstop : ∀ c ∈ (afterBlanks rest).head?, mark c = false) :
    ReadsMany (spaced (do let _ ← char mark; spaced term))
      (List.Forall₂ P (marked.map Prod.snd) ·) (markedPieces text marked ++ rest) rest := by
  induction marked with
  | nil => exact ReadsMany.nil (Fails.spaced (fails_char hstop).bind) .nil
  | cons m marked ih =>
    rw [List.forall_mem_cons] at hmarks haccepts hpieces
    have hends : E (markedPieces text marked ++ rest) := ends_markedPieces hE hmarks.2 hrest
    rw [markedPieces_cons, List.cons_append, List.append_assoc]
    refine ReadsMany.cons ?_ ?_ (ih hmarks.2 haccepts.2 hpieces.2) fun t ts => .cons
    · exact Reads.spaced_to (afterBlanks_mark hmarks.1) (hpieces.1.reads_marked haccepts.1 hends)
    · simp only [List.length_cons, List.length_append]
      omega

/-- A term without a mark after it is read with the white space there. -/
theorem reads_separated_single {P : Term → Prop} {before : List Char}
    (hterm : Reads term P before rest) (hstop : ∀ c ∈ (afterBlanks rest).head?, mark c = false) :
    ReadsUpTo (separated mark term) (fun v => P v.first ∧ v.rest = []) before rest := by
  refine Or.inr (hterm.bind fun t ht => ?_)
  refine Reads.blanks_bind ?_
  refine (Reads.manySpaced_nil (R := (· = [])) (fails_char hstop).bind rfl).bind_eq ?_
  exact Reads.pure ⟨ht, rfl⟩

variable (text) in
/-- **Pieces with marks between them** are read up to where no mark follows. -/
theorem reads_markedPieces (hE : ∀ c cs, c = '|' ∨ c = ',' → E (c :: cs))
    (hmarks : ∀ m ∈ marked, m.1 = '|' ∨ m.1 = ',') (haccepts : ∀ m ∈ marked, mark m.1 = true)
    (hfirst : ReadsPiece E term (text a) (P a))
    (hpieces : ∀ m ∈ marked, ReadsPiece E term (text m.2) (P m.2)) (hrest : E rest)
    (hstop : ∀ c ∈ (afterBlanks rest).head?, mark c = false) :
    ReadsUpTo (separated mark term)
      (fun v => P a v.first ∧ List.Forall₂ P (marked.map Prod.snd) v.rest)
      (text a ++ (markedPieces text marked ++ rest)) rest := by
  have hends : E (markedPieces text marked ++ rest) := ends_markedPieces hE hmarks hrest
  have hhead := hfirst.reads _ hends
  cases marked with
  | nil =>
    refine (reads_separated_single hhead hstop).mono fun v hv => ⟨hv.1, ?_⟩
    rw [hv.2]
    exact .nil
  | cons m marked =>
    rw [List.forall_mem_cons] at hmarks haccepts hpieces
    rw [markedPieces_cons, List.cons_append, List.append_assoc] at hhead ⊢
    -- the last term is followed by no mark, so the white space behind it is left
    refine Or.inl (hhead.bind fun t ht => ?_)
    refine Reads.blanks_bind ?_
    rw [afterBlanks_mark hmarks.1]
    have hends : E (markedPieces text marked ++ rest) := ends_markedPieces hE hmarks.2 hrest
    refine Reads.bind (P := (List.Forall₂ P ((m :: marked).map Prod.snd) ·))
      (Reads.manySpaced_cons (hpieces.1.reads_marked haccepts.1 hends)
        (readsMany_markedPieces hE hmarks.2 haccepts.2 hpieces.2 hrest hstop) fun t ts => .cons)
      fun ts hts => ?_
    exact Reads.pure ⟨ht, hts⟩

end Pieces

/-- Whether a scanner reads the term of an expression. -/
def ReadsTerm (term : Scan Term) (e : Expression) : Prop :=
  ∀ rest, EndsTerm rest → Reads term (·.Stands e) (e.termText ++ rest) rest

theorem ReadsTerm.piece {e : Expression} (h : ReadsTerm term e) :
    ReadsPiece EndsTerm term e.termText (·.Stands e) :=
  ⟨fun rest _ => isBlank_head_termText e rest, h⟩

/-- Terms that stand for expressions one by one. -/
theorem stand_of_forall₂ {ts : List Term} {es : List Expression}
    (h : List.Forall₂ (fun e t => Term.Stands t e) es ts) : Terms.Stand ts es := by
  induction h with
  | nil => exact ⟨fun _ => rfl, rfl⟩
  | cons ht _ ih => exact Terms.Stand.cons ht ih

/-- Terms of expressions with marks between them are read up to where no mark follows. -/
theorem reads_separated (mark : Char → Bool) {e : Expression} {marked : List (Char × Expression)}
    (hmarks : ∀ m ∈ marked, m.1 = '|' ∨ m.1 = ',') (haccepts : ∀ m ∈ marked, mark m.1 = true)
    (hfirst : ReadsTerm term e) (hterm : ∀ m ∈ marked, ReadsTerm term m.2) (hrest : EndsTerm rest)
    (hstop : ∀ c ∈ (afterBlanks rest).head?, mark c = false) :
    ReadsUpTo (separated mark term) (·.Stands e (marked.map Prod.snd))
      (e.termText ++ (Expression.markedText marked ++ rest)) rest := by
  have hE : ∀ c cs, c = '|' ∨ c = ',' → EndsTerm (c :: cs) := by
    rintro c cs (rfl | rfl) <;> exact endsTerm_cons (by simp)
  have hread := reads_markedPieces Expression.termText (P := fun e t => t.Stands e) hE hmarks
    haccepts hfirst.piece (fun m hm => (hterm m hm).piece) hrest hstop
  exact hread.mono fun v hv => ⟨hv.1, stand_of_forall₂ hv.2⟩

/-! ## Brackets -/

/-- A closing bracket is read after the white space before it. -/
theorem reads_closing {P : Unit → Prop} {c : Char} {cs : List Char} (hP : P ())
    (hc : Scan.isBlank c = false) (h : afterBlanks cs = afterBlanks (c :: rest)) :
    Reads (spaced (exactly c)) P cs rest := by
  have hblanks : afterBlanks (c :: rest) = c :: rest := afterBlanks_of_head (by simpa using hc)
  exact Reads.spaced_to (h.trans hblanks) (Reads.exactly hP)

/-- What stands between brackets, with its closing bracket. -/
theorem reads_closed {values : Scan Value} {P : Value → Prop} {c : Char} {before : List Char}
    (hbefore : ∀ d ∈ before.head?, Scan.isBlank d = false) (hc : Scan.isBlank c = false)
    (h : ReadsUpTo values P before (c :: rest)) :
    Reads (do
      let v ← spaced values
      spaced (exactly c)
      return v) P before rest := by
  refine (ReadsUpTo.spaced_to (afterBlanks_of_head hbefore) h).bind fun v hv cs hcs => ?_
  exact (reads_closing (P := fun _ => True) trivial hc hcs).bind fun _ _ => Reads.pure hv

/-- Alternatives are read as the operands of the disjunction that they make up. -/
theorem reads_alternatives {e : Expression} (hterm : ∀ a ∈ e.alternatives, ReadsTerm term a)
    (hrest : EndsTerm rest) (hstop : ∀ c ∈ (afterBlanks rest).head?, c ≠ '|') :
    ReadsUpTo (alternatives term) (·.Stands e.seed e.steps) (e.text ++ rest) rest := by
  unfold Expression.alternatives at hterm
  rw [List.forall_mem_cons] at hterm
  have hmarks : ∀ m ∈ e.steps.map fun a => ('|', a), m.1 = '|' ∨ m.1 = ',' := by simp
  have hread := reads_separated (· == '|') hmarks (by simp) hterm.1 (by simpa using hterm.2) hrest
    (by simpa using hstop)
  rw [List.map_map, Function.comp_def, List.map_id', ← List.append_assoc,
    ← Expression.text_spine] at hread
  exact hread.named

theorem reads_group {e : Expression} (hterm : ∀ a ∈ e.alternatives, ReadsTerm term a) :
    Reads (group term) (·.Stands e.seed e.steps) ('(' :: (e.text ++ ')' :: rest)) rest := by
  have hblank : ∀ c ∈ (e.text ++ ')' :: rest).head?, Scan.isBlank c = false := by
    rw [Expression.text_spine, List.append_assoc]
    exact isBlank_head_termText e.seed _
  refine Reads.named (Reads.exactly_bind (reads_closed hblank (by decide)
    (reads_alternatives hterm (endsTerm_cons (by simp)) ?_)))
  rintro c ⟨⟩
  decide

theorem reads_oneOf {e : Expression} {es : List Expression}
    (hterm : ∀ a ∈ (e :: es).flatMap Expression.alternatives, ReadsTerm term a) :
    Reads (oneOf term) (·.Stands e.seed ((Expression.choiceSteps (e :: es)).map Prod.snd))
      ('{' :: (Expression.listText (e :: es) ++ '}' :: rest)) rest := by
  rw [Expression.choiceSteps_terms, List.forall_mem_cons] at hterm
  have hmarks := Expression.choiceSteps_marks (e :: es)
  rw [Expression.listText_spine, List.append_assoc]
  have hends : EndsTerm ('}' :: rest) := endsTerm_cons (by simp)
  have hread := reads_separated (fun c => c == ',' || c == '|') hmarks
    (fun m hm => by rcases hmarks m hm with h | h <;> simp [h]) hterm.1
    (fun m hm => hterm.2 _ (List.mem_map_of_mem hm)) hends (by intro c hc; cases hc; decide)
  exact Reads.named (Reads.exactly_bind (reads_closed (isBlank_head_termText e.seed _) (by decide)
    hread))

theorem stands_group {v : Value} {l r : Expression}
    (hv : v.Stands (Expression.or l r).seed (Expression.or l r).steps) :
    (Term.group v.first v.rest).Stands (.or l r) := by
  refine stands_of_expression (fun source => ?_) (by simp) rfl
  -- a disjunction is put together from its alternatives as the group is
  have hspine := Expression.alternative_spine (Expression.or l r).flattened
  rw [Expression.seed_flattened, Expression.steps_flattened] at hspine
  rw [Term.expression, hv.first.expression source, ← hspine]
  show (Term.expressions source v.rest >>= _) = _
  rw [hv.rest.expressions source]
  rfl

theorem stands_oneOf {v : Value} {e : Expression} {es : List Expression}
    (hv : v.Stands e.seed ((Expression.choiceSteps (e :: es)).map Prod.snd)) :
    (Term.oneOf v.first v.rest).Stands (.oneOf (e :: es)) := by
  refine stands_of_expression (fun source => ?_) (by simp) rfl
  rw [Term.expression, hv.first.expression source, Expression.flattened,
    Expression.flattenedChoices_eq, Expression.choiceSteps_terms]
  show (Term.expressions source v.rest >>= _) = _
  rw [hv.rest.expressions source]
  rfl

theorem stands_not {t : Term} {e : Expression} (h : t.Stands e) (he : e.isNegation = false) :
    (Term.negated t).Stands (.not e) := by
  refine stands_of_expression (fun source => ?_) (by simp) rfl
  rw [Term.expression, h.expression source, Expression.flattened]
  rw [← Expression.isNegation_flattened] at he
  cases hf : e.flattened with
  | not inner => rw [hf] at he; cases he
  | _ => rfl

/-! ## Terms -/

/-- A term without negations. -/
def bareTerm (term : Scan Term) : Scan Term :=
  (do
    let v ← group term
    return .group v.first v.rest) <|>
  (do
    let v ← oneOf term
    return .oneOf v.first v.rest) <|>
  simpleTerm

theorem term_succ (depth : Nat) : Grammar.term (depth + 1) = named (do
    let bangs ← manySpaced (named (exactly '!'))
    let t ← spaced (bareTerm (Grammar.term depth))
    return negations bangs.length t) := rfl

/-- A range or a pattern is looked for where no bracket of a group or a set is ahead. -/
theorem reads_bareTerm_simple {P : Term → Prop} {before : List Char}
    (hbefore : ∀ c ∈ before.head?, c ≠ '(' ∧ c ≠ '{') (h : Reads simpleTerm P before rest) :
    Reads (bareTerm term) P before rest :=
  Reads.orElse_right (fails_exactly fun c hc => (hbefore c hc).1).bind.named.bind
    (Reads.orElse_right (fails_exactly fun c hc => (hbefore c hc).2).bind.named.bind h)

theorem reads_term_bareTerm {P : Term → Prop} {before : List Char} {depth : Nat}
    (hblank : ∀ c ∈ before.head?, Scan.isBlank c = false) (hbang : ∀ c ∈ before.head?, c ≠ '!')
    (h : Reads (bareTerm (Grammar.term depth)) P before rest) :
    Reads (Grammar.term (depth + 1)) P before rest := by
  rw [term_succ]
  have hnone := Reads.manySpaced_nil (R := (· = [])) (fails_exactly hbang).named rfl
  refine Reads.named (hnone.bind_eq ?_)
  exact (Reads.spaced_to (afterBlanks_of_head hblank) h).bind fun t ht => Reads.pure ht

/-- An expression that is no negation is read where its parts are. -/
theorem reads_bareTerm {e : Expression} (h : e.Legible) (hnot : e.isNegation = false)
    (hterm : ∀ a : Expression, a.Legible → a.termText.length < e.termText.length →
      ReadsTerm term a)
    (hrest : EndsTerm rest) : Reads (bareTerm term) (·.Stands e) (e.termText ++ rest) rest := by
  -- a disjunction is written in parentheses
  by_cases hor : ∃ l r, e = .or l r
  · obtain ⟨l, r, rfl⟩ := hor
    have htext : (Expression.or l r).termText ++ rest =
        '(' :: ((Expression.or l r).text ++ ')' :: rest) := by
      simp [Expression.termText, Expression.guarded]
    rw [htext]
    refine Reads.orElse_left ((reads_group fun a ha => ?_).bind fun v hv =>
      Reads.pure (stands_group hv))
    refine hterm a (Expression.legible_of_mem_alternatives h ha) ?_
    have hlen := Expression.length_termText_alternatives ha
    simp only [Expression.termText, Expression.guarded, List.length_cons,
      List.length_append] at hlen ⊢
    omega
  have hor' : ∀ l r, e ≠ .or l r := fun l r he => hor ⟨l, r, he⟩
  -- a set is written in braces
  by_cases hes : ∃ es, e = .oneOf es
  · obtain ⟨es, rfl⟩ := hes
    obtain ⟨a, es, rfl⟩ := List.exists_cons_of_ne_nil h.1
    have htext : (Expression.oneOf (a :: es)).termText ++ rest =
        '{' :: (Expression.listText (a :: es) ++ '}' :: rest) := by
      simp [Expression.termText, Expression.guarded, Expression.text]
    rw [htext]
    refine Reads.orElse_right (fails_exactly (by simp)).bind.named.bind
      (Reads.orElse_left ((reads_oneOf fun b hb => ?_).bind fun v hv =>
        Reads.pure (stands_oneOf hv)))
    obtain ⟨choice, hchoice, hb'⟩ := List.mem_flatMap.1 hb
    refine hterm b (Expression.legible_of_mem_alternatives
      (Expression.allLegible_iff.1 h.2 choice hchoice) hb') ?_
    have hlen := Expression.length_termText_choices hb
    simp only [Expression.termText, Expression.guarded, Expression.text, List.length_cons,
      List.length_append] at hlen ⊢
    omega
  have hes' : ∀ es, e ≠ .oneOf es := fun es he => hes ⟨es, he⟩
  -- what is left has no terms inside
  have hhead : ∀ c ∈ (e.termText ++ rest).head?, c ≠ '(' ∧ c ≠ '{' := fun c hc =>
    ⟨(head_termText e rest c hc).group hor', (head_termText e rest c hc).set hes'⟩
  exact reads_bareTerm_simple hhead (reads_simpleTerm h hor' hes' hnot hrest)

/-- **A written expression is read as a term that stands for it**, where brackets are followed
deep enough. -/
theorem reads_termText {depth : Nat} {e : Expression} (h : e.Legible)
    (hdepth : e.termText.length < depth) : ReadsTerm (Grammar.term depth) e := by
  induction depth generalizing e with
  | zero => omega
  | succ depth ih =>
    intro rest hrest
    cases hnot : e.isNegation with
    | false =>
      have hbang : ∀ c ∈ (e.termText ++ rest).head?, c ≠ '!' :=
        fun c hc => (head_termText e rest c hc).negation hnot
      exact reads_term_bareTerm (isBlank_head_termText e rest) hbang
        (reads_bareTerm h hnot (fun a ha hlt => ih ha (by omega)) hrest)
    | true =>
      obtain ⟨inner, rfl⟩ : ∃ inner, e = .not inner := by
        cases e with
        | not inner => exact ⟨inner, rfl⟩
        | _ => cases hnot
      -- no negation is written below another, so one mark is read and no second
      have hinner := isBlank_head_termText inner rest
      have hbang : ∀ c ∈ (inner.termText ++ rest).head?, c ≠ '!' :=
        fun c hc => (head_termText inner rest c hc).negation h.1
      have htext : (Expression.not inner).termText = '!' :: inner.termText := rfl
      rw [htext, List.length_cons] at hdepth
      rw [htext, List.cons_append]
      have hone : Reads (manySpaced (named (exactly '!'))) (·.length = 1)
          ('!' :: (inner.termText ++ rest)) (inner.termText ++ rest) := by
        refine Reads.manySpaced_cons (P := fun _ => True) (R := (· = []))
          (Reads.exactly trivial).named (ReadsMany.nil ?_ rfl) (by rintro _ _ - rfl; rfl)
        rw [← afterBlanks_of_head hinner] at hbang
        exact Fails.spaced (fails_exactly hbang).named
      rw [term_succ]
      refine Reads.named (hone.bind fun bangs hbangs => ?_)
      rw [hbangs]
      refine (Reads.spaced_to (afterBlanks_of_head hinner) (reads_bareTerm h.2 h.1
        (fun a ha hlt => ih ha (by omega)) hrest)).bind fun t ht => Reads.pure (stands_not ht h.1)

/-- **A written expression is read as alternatives** that stand for its operands. -/
theorem reads_text {depth : Nat} {e : Expression} (h : e.Legible) (hdepth : e.text.length < depth)
    (hrest : EndsTerm rest) (hstop : ∀ c ∈ (afterBlanks rest).head?, c ≠ '|') :
    ReadsUpTo (Grammar.value depth) (·.Stands e.seed e.steps) (e.text ++ rest) rest := by
  refine reads_alternatives (fun a ha => reads_termText
    (Expression.legible_of_mem_alternatives h ha) ?_) hrest hstop
  have hlen := Expression.length_termText_alternatives ha
  omega

end Grammar

end Sift
