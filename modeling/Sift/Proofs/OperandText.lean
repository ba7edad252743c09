import Sift.Proofs.Parsed

/-!
# Operands read back

* `Operand.reread`: what a written operand is read as. A literal becomes a text, or text to look
  for; other expressions are flattened.
* `Value.operand_of_stands`: a value that stands for an expression means what it is reread as.
* `Grammar.reads_operandText`: an operand is read back behind its operator.
* `Operand.ofText_text`: an expression is read back by itself.
-/

namespace Sift

open Scan

/-- A literal behind an operator: text to look for, or a text to compare with. -/
def Literal.reread (op : Operator) (l : Literal) : Except SyntaxError Operand :=
  if op.isText then
    (fun f => .expression (op.textExpression f)) <$> Fragment.of (String.ofList l.plainText)
  else .ok (.string (String.ofList l.plainText))

/-- **What a written operand is read as** behind an operator. -/
def Operand.reread (op : Operator) : Operand → Except SyntaxError Operand
  | .expression (.literal l) => l.reread op
  | .expression e => .ok (.expression e.flattened)
  | operand => .ok operand

theorem Operand.reread_of_ne_literal {op : Operator} {e : Expression} (h : ∀ l, e ≠ .literal l) :
    (Operand.expression e).reread op = .ok (.expression e.flattened) := by
  cases e with
  | literal l => exact absurd rfl (h l)
  | _ => rfl

/-! ## Meanings -/

/-- A value of several terms is no word. -/
theorem Value.word?_of_rest_ne_nil {v : Value} (h : v.rest ≠ []) : v.word? = none := by
  unfold Value.word?
  split
  · exact absurd rfl h
  · rfl

theorem Expression.seed_of_steps {e : Expression} (h : e.steps = []) : e.seed = e := by
  cases e with
  | or l r => simp [Expression.steps] at h
  | _ => rfl

theorem Value.Stands.word {v : Value} {e : Expression} (hv : v.Stands e.seed e.steps)
    (he : ∀ l, e ≠ .literal l) : v.word? = none := by
  by_cases hrest : v.rest = []
  · have hlength := hv.rest.length
    rw [hrest, List.length_nil] at hlength
    have hsteps := List.eq_nil_of_length_eq_zero hlength.symm
    have hword := hv.first.noWord (by rwa [Expression.seed_of_steps hsteps])
    rwa [← hrest] at hword
  · exact Value.word?_of_rest_ne_nil hrest

/-- **A value that stands for an expression means what the expression is reread as.** -/
theorem Value.operand_of_stands {v : Value} {e : Expression} (hv : v.Stands e.seed e.steps)
    (source : String) (op : Operator) :
    v.operand source op = (Operand.expression e).reread op := by
  rcases e.eq_literal_or with ⟨l, rfl⟩ | he
  -- a single literal is taken as a word
  · have hrest : v.rest = [] := List.eq_nil_of_length_eq_zero hv.rest.length
    obtain ⟨w, hword, hw⟩ := hv.first.word l rfl
    rw [← hrest] at hword
    unfold Value.operand
    rw [show v.word? = some w from hword]
    simp only [Operand.reread, Literal.reread, Word.fragment, hw.text, hw.operand]
  · have hspine := Expression.alternative_spine e.flattened
    rw [Expression.seed_flattened, Expression.steps_flattened] at hspine
    unfold Value.operand
    rw [hv.word he, Operand.reread_of_ne_literal he, ← hspine]
    simp only [hv.first.expression source, hv.rest.expressions source]
    rfl

/-! ## Operands behind their operators -/

namespace Grammar

variable {rest : List Char}

/-- Null behind an operator is a bare word. -/
theorem reads_null {depth : Nat} (hrest : EndsTerm rest)
    (hstop : ∀ c ∈ (afterBlanks rest).head?, c ≠ '|') :
    ReadsUpTo (value (depth + 1)) (fun v => v.word? = some (.bare ['n', 'u', 'l', 'l']))
      (['n', 'u', 'l', 'l'] ++ rest) rest := by
  have hword : Reads literal (· = .bare ['n', 'u', 'l', 'l']) (['n', 'u', 'l', 'l'] ++ rest) rest :=
    Reads.orElse_right (fails_quoted (by simp)).map
      ((reads_bare (by simp) (forall_mem_of_all (by decide)) hrest.word).map (by rintro _ rfl; rfl))
  have hpattern : Reads pattern (· = .word false (.bare ['n', 'u', 'l', 'l']) false)
      (['n', 'u', 'l', 'l'] ++ rest) rest := by
    refine Reads.named (Reads.orElse_right (fails_star (by simp)).bind (hword.bind_eq ?_))
    refine (Reads.optional_none (P := (· = none)) (fails_star hrest.star) rfl).bind_eq ?_
    exact Reads.pure rfl
  have hterm : Reads (term (depth + 1))
      (fun t => Value.word? ⟨t, []⟩ = some (.bare ['n', 'u', 'l', 'l']))
      (['n', 'u', 'l', 'l'] ++ rest) rest :=
    reads_term_bareTerm (by simp [Scan.isBlank]) (by simp) (reads_bareTerm_simple (by simp)
      (reads_simpleTerm_pattern (by simp) hpattern (by rintro _ rfl span; rfl)))
  have hbar : ∀ c ∈ (afterBlanks rest).head?, (c == '|') = false :=
    fun c hc => beq_eq_false_iff_ne.2 (hstop c hc)
  refine ReadsUpTo.named ((reads_separated_single hterm hbar).mono ?_)
  rintro ⟨t, rest⟩ ⟨ht, rfl⟩
  exact ht

theorem operand_null {v : Value} (hv : v.word? = some (.bare ['n', 'u', 'l', 'l'])) {op : Operator}
    (hop : op.isText = false) (source : String) : v.operand source op = .ok .null := by
  have hnull : (Word.bare ['n', 'u', 'l', 'l']).operand = .null := by
    rw [Word.operand]
    exact if_pos (by decide)
  unfold Value.operand
  simp only [hv, hop, Bool.false_eq_true, if_false, hnull]

theorem afterBlanks_text (e : Expression) (cs : List Char) :
    afterBlanks (e.text ++ cs) = e.text ++ cs := by
  rw [Expression.text_spine e, List.append_assoc]
  exact afterBlanks_of_head (isBlank_head_termText e.seed _)

/-- An expression is read behind a blank as a value that means what it is reread as. -/
theorem reads_spaced_text {depth : Nat} {e : Expression} (h : e.Legible)
    (hdepth : e.text.length < depth) (hrest : EndsTerm rest)
    (hstop : ∀ c ∈ (afterBlanks rest).head?, c ≠ '|') (op : Operator) :
    ReadsUpTo (spaced (value depth))
      (fun v => ∀ source, v.operand source op = (Operand.expression e).reread op)
      (' ' :: (e.text ++ rest)) rest := by
  refine ReadsUpTo.spaced_to ((afterBlanks_space _).trans (afterBlanks_text e rest)) ?_
  exact (reads_text h hdepth hrest hstop).mono fun v hv source =>
    Value.operand_of_stands hv source op

/-- **An operand is read back behind its operator**, as far as it can be written. -/
theorem reads_operandText {depth : Nat} {op : Operator} {operand : Operand}
    (h : operand.Legible op) (hop : op.requiresValue = true)
    (hdepth : (Filter.operandText op operand).length ≤ depth) (hrest : EndsTerm rest)
    (hstop : ∀ c ∈ (afterBlanks rest).head?, c ≠ '|') :
    ReadsUpTo (spaced (value depth)) (fun v => ∀ source, v.operand source op = operand.reread op)
      (Filter.operandText op operand ++ rest) rest := by
  rcases h.cases with ⟨rfl, htext⟩ | ⟨s, rfl, htext⟩ | ⟨e, rfl, he⟩
  · obtain ⟨depth, rfl⟩ : ∃ d, depth = d + 1 := by
      refine ⟨depth - 1, ?_⟩
      simp only [Filter.operandText, hop, if_true, List.length_cons] at hdepth
      omega
    simp only [Filter.operandText, hop, if_true]
    exact ReadsUpTo.spaced_to rfl ((reads_null hrest hstop).mono fun v hv source =>
      operand_null hv htext source)
  -- a text is written as the literal that is read as it
  · have hreread : (Operand.expression (.constant s)).reread op = (Operand.string s).reread op := by
      simp only [Expression.constant, Operand.string, Operand.reread, Literal.reread, htext,
        Bool.false_eq_true, if_false, Literal.plainText, String.ofList_toList]
    have hread := reads_spaced_text (e := .constant s) trivial (Nat.lt_of_succ_le hdepth) hrest
      hstop op
    rw [hreread] at hread
    exact hread
  · exact reads_spaced_text he (Nat.lt_of_succ_le hdepth) hrest hstop op

end Grammar

/-! ## Operands by themselves -/

namespace Text

/-- No blanks stand at the ends of a text. -/
def Tight (cs : List Char) : Prop :=
  (∀ c ∈ cs.head?, isBlank c = false) ∧ ∀ c ∈ cs.getLast?, isBlank c = false

instance (cs : List Char) : Decidable (Tight cs) :=
  decidable_of_iff ((cs.head?.all fun c => !isBlank c) = true ∧
      (cs.getLast?.all fun c => !isBlank c) = true) <|
    and_congr (by simp [Option.all_eq_true]) (by simp [Option.all_eq_true])

theorem trim_of_tight {cs : List Char} (h : Tight cs) : trim cs = cs := by
  unfold trim
  rw [show trimStart cs = cs from trimStart_of_head h.1]
  have hlast : trimStart cs.reverse = cs.reverse := trimStart_of_head (by
    rw [List.head?_reverse]
    exact h.2)
  unfold trimEnd
  rw [show cs.reverse.dropWhile isBlank = cs.reverse from hlast, List.reverse_reverse]

/-- The trailing blanks are what is taken away behind the leading ones. -/
theorem trim_append (cs : List Char) :
    trim cs ++ ((trimStart cs).reverse.takeWhile isBlank).reverse = trimStart cs := by
  rw [trim, trimEnd, ← List.reverse_append, List.takeWhile_append_dropWhile, List.reverse_reverse]

/-- A text is what is left of it without the blanks at its ends, between these blanks. -/
theorem exists_trim (cs : List Char) : ∃ before after, (∀ c ∈ before, isBlank c = true) ∧
    (∀ c ∈ after, isBlank c = true) ∧ cs = before ++ (trim cs ++ after) := by
  refine ⟨cs.takeWhile isBlank, ((trimStart cs).reverse.takeWhile isBlank).reverse, ?_, ?_, ?_⟩
  · exact fun c hc => List.mem_takeWhile_imp hc
  · exact fun c hc => List.mem_takeWhile_imp (List.mem_reverse.1 hc)
  · rw [trim_append]
    exact List.takeWhile_append_dropWhile.symm

theorem tight_trim (cs : List Char) : Tight (trim cs) := by
  constructor
  · intro c hc
    have hhead : c ∈ (trimStart cs).head? := by
      rw [← trim_append, List.head?_append, Option.mem_def.1 hc]
      rfl
    exact head?_dropWhile isBlank cs c hhead
  · intro c hc
    rw [trim, trimEnd, List.getLast?_reverse] at hc
    exact head?_dropWhile isBlank _ c hc

theorem trim_trim (cs : List Char) : trim (trim cs) = trim cs := trim_of_tight (tight_trim cs)

theorem tight_of_all {cs : List Char} (h : ∀ c ∈ cs, isBlank c = false) : Tight cs :=
  ⟨fun c hc => h c (List.mem_of_head? hc), fun c hc => h c (List.mem_of_getLast? hc)⟩

theorem tight_between {a b : Char} (ha : isBlank a = false) (hb : isBlank b = false)
    (cs : List Char) : Tight (a :: (cs ++ [b])) := by
  refine ⟨fun c hc => ?_, fun c hc => ?_⟩
  · cases hc
    exact ha
  · rw [← List.cons_append, List.getLast?_concat] at hc
    cases hc
    exact hb

theorem Tight.append {a b : List Char} (ha : Tight a) (hb : Tight b) : Tight (a ++ b) := by
  refine ⟨fun c hc => ?_, fun c hc => ?_⟩
  · rw [List.head?_append, Option.mem_def, Option.or_eq_some_iff] at hc
    rcases hc with hc | ⟨-, hc⟩
    · exact ha.1 c hc
    · exact hb.1 c hc
  · rw [List.getLast?_append, Option.mem_def, Option.or_eq_some_iff] at hc
    rcases hc with hc | ⟨-, hc⟩
    · exact hb.2 c hc
    · exact ha.2 c hc

theorem Tight.cons {c : Char} {cs : List Char} (hc : isBlank c = false) (h : Tight cs) :
    Tight (c :: cs) :=
  Tight.append (a := [c]) (tight_of_all (by simpa using hc)) h

end Text

open Text (Tight)

theorem tight_wordText (cs : List Char) : Tight (wordText cs) := by
  unfold wordText
  split
  · next h =>
    obtain ⟨-, hcs, -, -⟩ := plainWord_facts h
    exact Text.tight_of_all fun c hc => (hcs c hc).1
  · exact Text.tight_between (by decide) (by decide) _

theorem tight_written (l : Literal) : Tight l.written := by
  rcases l.eq_text_or with ⟨s, rfl⟩ | hl
  · exact tight_wordText s.toList
  · exact Text.tight_of_all fun c hc =>
      isBlank_of_isDateChar (isDateChar_written hl c hc)

theorem Expression.tight_guarded {e : Expression} {cs : List Char} (h : Tight cs) :
    Tight (guarded e cs) := by
  cases e with
  | or l r => exact Text.tight_between (by decide) (by decide) _
  | _ => exact h

/-- An expression is written without blanks at the ends. -/
theorem Expression.tight_text (e : Expression) : Tight e.text := by
  cases e with
  | literal l => exact tight_written l
  | anything =>
    rw [text]
    exact Text.tight_of_all (forall_mem_of_all (by decide))
  | oneOf choices =>
    rw [text]
    exact Text.tight_between (by decide) (by decide) _
  | contains f => exact Text.tight_between (by decide) (by decide) _
  | startsWith f =>
    exact (tight_wordText f.text.toList).append (Text.tight_of_all (forall_mem_of_all (by decide)))
  | endsWith f => exact (tight_wordText f.text.toList).cons (by decide)
  | not e =>
    rw [text]
    exact (tight_guarded (tight_text e)).cons (by decide)
  | or left right =>
    rw [text]
    exact (tight_text left).append ((tight_guarded (tight_text right)).cons (by decide))
  | range i => exact Text.tight_between (by decide) (by decide) _

theorem scannedWhole_eq_ok {α : Type} {source : String} {leftover : Fault} {p : Scan α} {a : α} :
    scannedWhole source leftover p = .ok a ↔
      ∃ there, (p (Cursor.start source.toList)).found = some (a, there) ∧
        there.offset = source.utf8ByteSize := by
  unfold scannedWhole
  rw [bind_eq_ok]
  constructor
  · rintro ⟨⟨found, consumed⟩, hscanned, hwhole⟩
    obtain ⟨there, hfound, rfl⟩ := scanned_eq_ok.1 hscanned
    dsimp only at hwhole
    split at hwhole
    · next hend =>
      cases hwhole
      exact ⟨there, hfound, hend⟩
    · cases hwhole
  · rintro ⟨there, hfound, hend⟩
    exact ⟨(a, there.offset), scanned_eq_ok.2 ⟨there, hfound, rfl⟩, if_pos hend⟩

/-- A scanner stands at the end of a text where nothing is ahead. -/
theorem offset_eq_utf8ByteSize_iff {source : String} {there : Cursor}
    (hstop : there.stop = (Cursor.start source.toList).stop) :
    there.offset = source.utf8ByteSize ↔ there.rest = [] := by
  have htotal : there.offset + byteCount there.rest = source.utf8ByteSize := by
    rw [utf8ByteSize_eq_byteCount]
    simpa [Cursor.stop, Cursor.start] using hstop
  cases hrest : there.rest with
  | nil => simpa [hrest, byteCount] using htotal
  | cons c cs =>
    -- the characters ahead take up bytes
    have hpos : 0 < c.utf8Size := c.utf8Size_pos
    rw [hrest, byteCount] at htotal
    refine iff_of_false ?_ (List.cons_ne_nil c cs)
    omega

/-- A text that a scanner reads to its end is taken as a whole. -/
theorem scannedWhole_of_reads {α : Type} {p : Scan α} {P : α → Prop} {source : String}
    (h : ReadsUpTo p P source.toList []) (leftover : Fault) :
    ∃ a, P a ∧ scannedWhole source leftover p = .ok a := by
  have hreads : Reads p P source.toList [] := h.elim id id
  obtain ⟨a, there, hfound, hrest, hstop, ha⟩ := hreads (Cursor.start source.toList) rfl
  have hoffset := (offset_eq_utf8ByteSize_iff hstop).2 hrest
  exact ⟨a, ha, scannedWhole_eq_ok.2 ⟨there, hfound, hoffset⟩⟩

/-- **An expression is read back by itself**, where its brackets do not nest too deep. -/
theorem Operand.ofText_text {e : Expression} (h : e.Legible) (hnesting : e.nesting ≤ defaultDepth)
    (op : Operator) :
    Operand.ofText op (String.ofList e.text) = (Operand.expression e).reread op := by
  have htrimmed : trimmed (String.ofList e.text) = String.ofList e.text := by
    unfold trimmed
    rw [String.toList_ofList, Text.trim_of_tight e.tight_text]
  have hreads : ReadsUpTo (Grammar.value ((String.ofList e.text).length + 1))
      (·.Stands e.seed e.steps) (String.ofList e.text).toList [] := by
    rw [String.toList_ofList]
    have hlength : e.text.length < (String.ofList e.text).length + 1 := by simp
    have hends : Grammar.EndsTerm [] := by simp [Grammar.EndsTerm]
    have hread := Grammar.reads_text h hlength hends (by simp)
    rwa [List.append_nil] at hread
  obtain ⟨v, hv, hwhole⟩ := scannedWhole_of_reads hreads .afterValue
  unfold Operand.ofText
  simp only [htrimmed, checkDepth_text hnesting]
  show (scannedWhole _ _ _ >>= _) = _
  rw [hwhole]
  exact Value.operand_of_stands hv _ op

end Sift
