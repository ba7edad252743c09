import Sift.Filter.Reading
import Sift.Proofs.DateText
import Sift.Proofs.Scanning
import Sift.Query.Compile

/-!
# Words read back

* `QuotedInner`: the texts that can stand between quotes.
* `Word.Means`: a word of the text and the literal it stands for.
* `reads_literal`: a written literal is read as a word that means it.
-/

namespace Sift

open Text (isBlank)

theorem isBlank_of_scanBlank {c : Char} (h : Scan.isBlank c = true) : isBlank c = true :=
  forall_mem_of_all (P := (isBlank · = true)) (by decide) c (Scan.mem_of_isBlank h)

/-! ## Characters of words -/

/-- The characters of dates and times. -/
def isDateChar (c : Char) : Bool := c.isDigit || ['-', '+', 'T', ':', '.'].contains c

theorem isDateChar_of_isDigit {c : Char} (h : c.isDigit = true) : isDateChar c = true := by
  unfold isDateChar
  rw [h, Bool.true_or]

theorem isBlank_of_isDateChar {c : Char} (h : isDateChar c = true) : isBlank c = false := by
  unfold isDateChar at h
  simp only [Bool.or_eq_true, List.contains_iff_mem, List.mem_cons, List.not_mem_nil, or_false] at h
  rcases h with h | rfl | rfl | rfl | rfl | rfl
  · exact isBlank_of_isDigit h
  all_goals decide

theorem isSpecial_of_isDateChar {c : Char} (h : isDateChar c = true) : isSpecial c = false :=
  contains_eq_false_of_all (by decide) h

theorem isBareChar_of_plain {c : Char} (hblank : isBlank c = false)
    (hspecial : isSpecial c = false) : Grammar.isBareChar c = true := by
  unfold Grammar.isBareChar
  rw [hspecial]
  cases hs : Scan.isBlank c with
  | false => rfl
  | true => rw [isBlank_of_scanBlank hs] at hblank; cases hblank

theorem isBlank_of_isBareChar {c : Char} (h : Grammar.isBareChar c = true) :
    Scan.isBlank c = false := by
  unfold Grammar.isBareChar at h
  rw [Bool.and_eq_true, Bool.not_eq_true'] at h
  exact h.1

theorem isBareChar_of_isDateChar {c : Char} (h : isDateChar c = true) :
    Grammar.isBareChar c = true :=
  isBareChar_of_plain (isBlank_of_isDateChar h) (isSpecial_of_isDateChar h)

theorem isDateChar_padded {width n : Nat} : ∀ c ∈ Number.padded width n, isDateChar c = true :=
  fun _ hc => isDateChar_of_isDigit (Number.isDigit_of_mem_padded hc)

theorem isDateChar_date (d : Date) : ∀ c ∈ d.text, isDateChar c = true := by
  have hyear : ∀ c ∈ yearText d.year, isDateChar c = true := by
    unfold yearText
    intro c hc
    split at hc
    · exact isDateChar_padded c hc
    · rcases List.mem_cons.1 hc with rfl | hc
      · split <;> decide
      · exact isDateChar_padded c hc
  intro c hc
  unfold Date.text at hc
  simp only [List.append_assoc, List.cons_append, List.mem_append, List.mem_cons] at hc
  rcases hc with hc | rfl | hc | rfl | hc
  · exact hyear c hc
  · decide
  · exact isDateChar_padded c hc
  · decide
  · exact isDateChar_padded c hc

theorem isDateChar_fraction (nano : Nat) : ∀ c ∈ fractionText nano, isDateChar c = true := by
  unfold fractionText
  intro c hc
  split at hc
  · cases hc
  split at hc
  · rcases List.mem_cons.1 hc with rfl | hc
    · decide
    · exact isDateChar_padded c hc
  split at hc
  all_goals
    rcases List.mem_cons.1 hc with rfl | hc
    · decide
    · exact isDateChar_padded c hc

theorem isDateChar_dateTime (t : LocalDateTime) : ∀ c ∈ t.text, isDateChar c = true := by
  intro c hc
  unfold LocalDateTime.text TimeOfDay.text at hc
  simp only [List.append_assoc, List.cons_append, List.mem_append, List.mem_cons] at hc
  rcases hc with hc | rfl | hc | rfl | hc | rfl | hc | hc
  · exact isDateChar_date t.date c hc
  · decide
  · exact isDateChar_padded c hc
  · decide
  · exact isDateChar_padded c hc
  · decide
  · exact isDateChar_padded c hc
  · exact isDateChar_fraction _ c hc

theorem isDateChar_offset (o : UtcOffset) : ∀ c ∈ o.text, isDateChar c = true := by
  intro c hc
  unfold UtcOffset.text at hc
  simp only [List.append_assoc, List.cons_append, List.mem_append, List.mem_cons] at hc
  rcases hc with rfl | hc | rfl | hc | hc
  · unfold UtcOffset.sign; split <;> decide
  · exact isDateChar_padded c hc
  · decide
  · exact isDateChar_padded c hc
  · split at hc
    · cases hc
    · rcases List.mem_cons.1 hc with rfl | hc
      · decide
      · exact isDateChar_padded c hc

theorem isDateChar_minute (o : UtcOffset) : ∀ c ∈ o.minuteText, isDateChar c = true := by
  intro c hc
  unfold UtcOffset.minuteText at hc
  simp only [List.cons_append, List.mem_append, List.mem_cons] at hc
  rcases hc with rfl | hc | rfl | hc
  · unfold UtcOffset.sign; split <;> decide
  · exact isDateChar_padded c hc
  · decide
  · exact isDateChar_padded c hc

/-- Dates and times are written without any mark of the value grammar. -/
theorem isDateChar_written {l : Literal} (hl : ∀ s, l ≠ .text s) :
    ∀ c ∈ l.written, isDateChar c = true := by
  intro c hc
  match l with
  | .text s => exact absurd rfl (hl s)
  | .date d => exact isDateChar_date d c hc
  | .dateTime t none =>
    simp only [Literal.written, Option.elim_none, List.append_nil] at hc
    exact isDateChar_dateTime t c hc
  | .dateTime t (some o) =>
    simp only [Literal.written, Option.elim_some, List.mem_append] at hc
    exact hc.elim (isDateChar_dateTime t c) (isDateChar_offset o c)

theorem written_ne_nil {l : Literal} (hl : ∀ s, l ≠ .text s) : l.written ≠ [] := by
  match l with
  | .text s => exact absurd rfl (hl s)
  | .date d => simp [Literal.written, Date.text]
  | .dateTime t o => simp [Literal.written, LocalDateTime.text]

/-- The characters of a plain word. -/
theorem plainWord_facts {cs : List Char} (h : isPlainWord cs = true) :
    cs ≠ [] ∧ (∀ c ∈ cs, isBlank c = false ∧ isSpecial c = false) ∧ isKeyword cs = false ∧
      Literal.temporal? cs = none := by
  unfold isPlainWord at h
  simp only [Bool.and_eq_true, Bool.not_eq_true', List.isEmpty_eq_false_iff, List.any_eq_false,
    Bool.or_eq_true, not_or, Bool.not_eq_true, Option.isNone_iff_eq_none] at h
  exact ⟨h.1.1.1, h.1.1.2, h.1.2, h.2⟩

/-! ## Quotes -/

/-- The texts that can stand between quotes: no quote without a backslash before it. -/
inductive QuotedInner : List Char → Prop
  | nil : QuotedInner []
  | plain {c : Char} {cs : List Char} (hquote : c ≠ '"') (hslash : c ≠ '\\')
      (hcs : QuotedInner cs) : QuotedInner (c :: cs)
  | kept (c : Char) {cs : List Char} (hcs : QuotedInner cs) : QuotedInner ('\\' :: c :: cs)

theorem quotedInner_escape (cs : List Char) : QuotedInner (Text.Quoted.escape cs) := by
  induction cs with
  | nil => exact .nil
  | cons c cs ih =>
    unfold Text.Quoted.escape
    split
    · exact .kept c ih
    · next h =>
      simp only [Bool.or_eq_true, beq_iff_eq, not_or] at h
      exact .plain h.1 h.2 ih

namespace Grammar

open Scan

variable {rest : List Char}

theorem reads_quotedPiece_plain {c : Char} {cs : List Char} (hquote : c ≠ '"') (hslash : c ≠ '\\') :
    Reads quotedPiece (· = [c]) (c :: cs) cs := by
  refine Reads.orElse_left (Reads.bind_eq (Reads.char ?_ rfl) (Reads.pure rfl))
  simp [hquote, hslash]

theorem reads_quotedPiece_kept (c : Char) (cs : List Char) :
    Reads quotedPiece (· = ['\\', c]) ('\\' :: c :: cs) cs := by
  refine Reads.orElse_right (fails_char (by simp)).bind ?_
  refine Reads.exactly_bind ?_
  exact Reads.bind_eq (Reads.char rfl rfl) (Reads.pure rfl)

theorem readsMany_quotedPiece {inner : List Char} (h : QuotedInner inner) (rest : List Char) :
    ReadsMany quotedPiece (fun pieces => pieces.flatten = inner) (inner ++ '"' :: rest)
      ('"' :: rest) := by
  induction h with
  | nil =>
    refine ReadsMany.nil (Fails.orElse (fails_char ?_).bind (fails_exactly ?_).bind) rfl
    · simp
    · simp
  | plain hquote hslash _ ih =>
    refine ReadsMany.cons (reads_quotedPiece_plain hquote hslash) (by simp) ih ?_
    rintro a as rfl has
    rw [List.flatten_cons, has]; rfl
  | kept c _ ih =>
    refine ReadsMany.cons (reads_quotedPiece_kept c _) ?_ ih ?_
    · exact Nat.lt_add_of_pos_right (by decide : 0 < 2)
    rintro a as rfl has
    rw [List.flatten_cons, has]; rfl

/-- What stands between quotes is read as it is. -/
theorem reads_quoted {inner : List Char} (h : QuotedInner inner) (rest : List Char) :
    Reads quoted (· = inner) ('"' :: (inner ++ '"' :: rest)) rest := by
  refine Reads.named (Reads.exactly_bind ?_)
  have hinner : Reads quotedInner (· = inner) (inner ++ '"' :: rest) ('"' :: rest) :=
    Reads.named ((readsMany_quotedPiece h rest).many.bind fun _ has => Reads.pure has)
  refine hinner.bind_eq ?_
  exact Reads.exactly_bind (Reads.pure rfl)

/-- No word goes on with what follows. -/
def EndsWord (rest : List Char) : Prop := ∀ c ∈ rest.head?, isBareChar c = false

theorem takeWhile_bare {cs : List Char} (hcs : ∀ c ∈ cs, isBareChar c = true)
    (hrest : EndsWord rest) :
    (cs ++ rest).takeWhile isBareChar = cs ∧ (cs ++ rest).dropWhile isBareChar = rest := by
  rw [List.takeWhile_append_of_pos hcs, List.dropWhile_append_of_pos hcs]
  cases rest with
  | nil => simp
  | cons c rest =>
    have hc : ¬isBareChar c = true := by simp [hrest c rfl]
    rw [List.takeWhile_cons_of_neg hc, List.dropWhile_cons_of_neg hc, List.append_nil]
    exact ⟨rfl, rfl⟩

/-- A bare word is read to its end. -/
theorem reads_bare {cs : List Char} (hne : cs ≠ []) (hcs : ∀ c ∈ cs, isBareChar c = true)
    (hrest : EndsWord rest) : Reads bare (· = cs) (cs ++ rest) rest := by
  obtain ⟨c, cs, rfl⟩ := List.exists_cons_of_ne_nil hne
  have htail := takeWhile_bare (fun d hd => hcs d (List.mem_cons_of_mem c hd)) hrest
  refine Reads.named (Reads.bind_eq (Reads.char (hcs c List.mem_cons_self) rfl) ?_)
  have hmany := (readsMany_char isBareChar (cs ++ rest)).many
  rw [htail.1, htail.2] at hmany
  refine hmany.bind_eq ?_
  exact Reads.pure rfl

theorem fails_quoted (h : ∀ c ∈ rest.head?, c ≠ '"') : Fails quoted rest :=
  (fails_exactly h).bind.named

/-- There is no word where neither a bare character nor a quote is ahead. -/
theorem fails_literal (h : ∀ c ∈ rest.head?, isBareChar c = false ∧ c ≠ '"') :
    Fails literal rest :=
  Fails.orElse (fails_quoted fun c hc => (h c hc).2).map
    (fails_char fun c hc => (h c hc).1).bind.named.map

end Grammar

/-! ## Meanings -/

/-- A word of a text stands for a literal, in expressions and by itself. -/
structure Word.Means (w : Word) (l : Literal) : Prop where
  literal : w.literal = l
  text : w.text = l.plainText
  operand : w.operand = .string (String.ofList l.plainText)

theorem quoted_means (s : String) :
    (Word.quoted (Text.Quoted.escape s.toList)).Means (.text s) := by
  refine ⟨?_, ?_, ?_⟩
  · simp only [Word.literal, Text.Quoted.unescape_escape, String.ofList_toList]
  · simp only [Word.text, Text.Quoted.unescape_escape, Literal.plainText]
  · simp only [Word.operand, Text.Quoted.unescape_escape, Literal.plainText]

/-- A bare word that is not `null` stands for itself. -/
theorem bare_operand {cs : List Char} (h : isKeyword cs = false) :
    (Word.bare cs).operand = .string (String.ofList cs) := by
  -- of the keywords only `null` has a meaning by itself
  have hnull : Text.sameIgnoringCase cs ['n', 'u', 'l', 'l'] = false := by
    unfold isKeyword keywords at h
    simp only [List.any_cons, List.any_nil, Bool.or_false, Bool.or_eq_false_iff] at h
    have hn := h.2.2.2.1
    unfold Text.sameIgnoringCase at hn ⊢
    rw [beq_eq_false_iff_ne] at hn ⊢
    exact fun heq => hn heq.symm
  simp only [Word.operand, hnull, Bool.false_eq_true, if_false]

theorem plain_means {s : String} (h : isPlainWord s.toList = true) :
    (Word.bare s.toList).Means (.text s) := by
  obtain ⟨-, -, hkeyword, htemporal⟩ := plainWord_facts h
  refine ⟨?_, rfl, bare_operand hkeyword⟩
  simp only [Word.literal, Literal.ofText, htemporal, Option.getD_none, String.ofList_toList]

theorem plainText_of_ne_text {l : Literal} (hl : ∀ s, l ≠ .text s) : l.plainText = l.written := by
  unfold Literal.plainText
  split
  · exact absurd rfl (hl _)
  · rfl

theorem dash_mem_written {l : Literal} (hl : ∀ s, l ≠ .text s) : '-' ∈ l.written := by
  match l with
  | .text s => exact absurd rfl (hl s)
  | .date d => simp [Literal.written, Date.text]
  | .dateTime t o => simp [Literal.written, LocalDateTime.text, Date.text]

/-- There is no dash in a keyword. -/
theorem isKeyword_of_dash {cs : List Char} (h : '-' ∈ cs) : isKeyword cs = false := by
  unfold isKeyword
  rw [List.any_eq_false]
  intro k hk hsame
  unfold Text.sameIgnoringCase at hsame
  -- a keyword equal to it would have a dash too
  have hdash : '-' ∈ k.toList.map Char.toLower := by
    rw [beq_iff_eq.1 hsame]
    exact List.mem_map.2 ⟨'-', h, rfl⟩
  unfold keywords at hk
  simp only [List.mem_cons, List.not_mem_nil, or_false] at hk
  rcases hk with rfl | rfl | rfl | rfl | rfl <;> exact absurd hdash (by decide)

theorem isKeyword_written {l : Literal} (hl : ∀ s, l ≠ .text s) : isKeyword l.written = false :=
  isKeyword_of_dash (dash_mem_written hl)

theorem temporal_means {l : Literal} (h : l.Legible) (hl : ∀ s, l ≠ .text s) :
    (Word.bare l.written).Means l := by
  have hplain := plainText_of_ne_text hl
  refine ⟨?_, hplain.symm, ?_⟩
  · simp only [Word.literal, Literal.ofText, Literal.temporal?_written h hl, Option.getD_some]
  · rw [bare_operand (isKeyword_written hl), hplain]

theorem reads_literal_bare {cs rest : List Char} {l : Literal} (hne : cs ≠ [])
    (hcs : ∀ c ∈ cs, Grammar.isBareChar c = true) (hmeans : (Word.bare cs).Means l)
    (hrest : Grammar.EndsWord rest) :
    Scan.Reads Grammar.literal (·.Means l) (cs ++ rest) rest := by
  -- quotes are looked for first, and none is ahead
  have hquote : ∀ c ∈ (cs ++ rest).head?, c ≠ '"' := by
    obtain ⟨c, cs, rfl⟩ := List.exists_cons_of_ne_nil hne
    intro d hd
    cases hd
    rintro rfl
    exact absurd (hcs '"' List.mem_cons_self) (by decide)
  refine Scan.Reads.orElse_right (Grammar.fails_quoted hquote).map ?_
  refine (Grammar.reads_bare hne hcs hrest).map ?_
  rintro _ rfl
  exact hmeans

/-- A text is read back, in quotes or without. -/
theorem reads_wordText (s : String) {rest : List Char} (hrest : Grammar.EndsWord rest) :
    Scan.Reads Grammar.literal (·.Means (.text s)) (wordText s.toList ++ rest) rest := by
  unfold wordText
  split
  · next h =>
    obtain ⟨hne, hcs, -, -⟩ := plainWord_facts h
    exact reads_literal_bare hne (fun c hc => isBareChar_of_plain (hcs c hc).1 (hcs c hc).2)
      (plain_means h) hrest
  · have hquoted := Grammar.reads_quoted (quotedInner_escape s.toList) rest
    unfold Text.Quoted.quote
    simp only [List.cons_append, List.append_assoc, List.nil_append]
    refine Scan.Reads.orElse_left (hquoted.map ?_)
    rintro _ rfl
    exact quoted_means s

/-- **A written literal is read as a word that means it.** -/
theorem reads_literal {l : Literal} (h : l.Legible) {rest : List Char}
    (hrest : Grammar.EndsWord rest) :
    Scan.Reads Grammar.literal (·.Means l) (l.written ++ rest) rest := by
  rcases l.eq_text_or with ⟨s, rfl⟩ | hl
  · exact reads_wordText s hrest
  · exact reads_literal_bare (written_ne_nil hl)
      (fun c hc => isBareChar_of_isDateChar (isDateChar_written hl c hc))
      (temporal_means h hl) hrest

/-- A written literal begins with a quote or with a character of a bare word. -/
theorem head_written (l : Literal) :
    ∃ c cs, l.written = c :: cs ∧ (Grammar.isBareChar c = true ∨ c = '"') := by
  rcases l.eq_text_or with ⟨s, rfl⟩ | hl
  · simp only [Literal.written, wordText]
    split
    · next h =>
      obtain ⟨hne, hcs, -, -⟩ := plainWord_facts h
      obtain ⟨c, cs, hs⟩ := List.exists_cons_of_ne_nil hne
      have hc := hcs c (by rw [hs]; exact List.mem_cons_self)
      exact ⟨c, cs, hs, Or.inl (isBareChar_of_plain hc.1 hc.2)⟩
    · exact ⟨'"', _, rfl, Or.inr rfl⟩
  · obtain ⟨c, cs, hcs⟩ := List.exists_cons_of_ne_nil (written_ne_nil hl)
    have hc := isDateChar_written hl c (by rw [hcs]; exact List.mem_cons_self)
    exact ⟨c, cs, hcs, Or.inl (isBareChar_of_isDateChar hc)⟩

end Sift
