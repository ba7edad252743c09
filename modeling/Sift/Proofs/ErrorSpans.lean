import Sift.Proofs.RuleReading

/-!
# The places that refusals name

* `IsPlace`: the offsets at which a text can be cut between two characters.
* `Stays source p P`: from the places of a text a scanner goes on to places of it, has failed only
  at such, and what it finds satisfies `P`.
* `Stays.bind`, `Stays.many`, …: one rule for each way to put scanners together.
* `Grammar.stays_value`, `Grammar.stays_input`: the grammar stays in the text, and so do the places
  of the ranges and patterns that it finds.
* `append_of_overDeep?`: a bracket that nests too deep stands at a place, and takes up one byte.
* `refusals_pointInto`: **whatever is refused as malformed is refused with a piece of its text.**
-/

namespace Sift

/-! ## Places of a text -/

/-- **The offsets of the places in a text**: in front of a character, or at the end. -/
def IsPlace (source : String) (n : Nat) : Prop := (⟨n⟩ : String.Pos.Raw).IsValid source

/-- **The pieces of a text**: they begin and end at places of it, and do not go beyond its end. -/
structure Span.IsIn (s : Span) (source : String) : Prop where
  start : IsPlace source s.offset
  stop : IsPlace source (s.offset + s.length)
  le : s.offset + s.length ≤ source.utf8ByteSize

/-- The cursor is at a place in a text. -/
def Cursor.IsIn (here : Cursor) (source : String) : Prop :=
  ∃ before, source.toList = before ++ here.rest ∧ here.offset = byteCount before

section Places

variable {source : String} {m n : Nat} {here : Cursor}

theorem isPlace_of_append {before after : List Char} (h : source.toList = before ++ after) :
    IsPlace source (byteCount before) := by
  refine String.Pos.Raw.isValid_iff_exists_append.2
    ⟨String.ofList before, String.ofList after, ?_, ?_⟩
  · rw [← String.toList_inj, String.toList_append, String.toList_ofList, String.toList_ofList, h]
  · rw [String.Pos.Raw.ext_iff]
    show _ = (String.ofList before).utf8ByteSize
    rw [utf8ByteSize_eq_byteCount, String.toList_ofList]

theorem isPlace_zero : IsPlace source 0 := isPlace_of_append (List.nil_append _).symm

theorem isPlace_end : IsPlace source source.utf8ByteSize := by
  rw [utf8ByteSize_eq_byteCount]
  exact isPlace_of_append (List.append_nil _).symm

theorem IsPlace.max (hm : IsPlace source m) (hn : IsPlace source n) :
    IsPlace source (max m n) := by
  rcases Nat.le_total m n with h | h
  · rwa [Nat.max_eq_right h]
  · rwa [Nat.max_eq_left h]

theorem IsPlace.le (h : IsPlace source n) : n ≤ source.utf8ByteSize :=
  String.Pos.Raw.IsValid.le_rawEndPos h

/-- A piece of a text lies between two of its places. -/
theorem Span.isIn_of_places (hm : IsPlace source m) (hn : IsPlace source n) (hle : m ≤ n) :
    (⟨m, n - m⟩ : Span).IsIn source := by
  have hstop : m + (n - m) = n := Nat.add_sub_of_le hle
  refine ⟨hm, ?_, ?_⟩
  · show IsPlace source (m + (n - m))
    rwa [hstop]
  · show m + (n - m) ≤ source.utf8ByteSize
    rw [hstop]
    exact hn.le

theorem Cursor.IsIn.isPlace (h : here.IsIn source) : IsPlace source here.offset := by
  obtain ⟨before, htext, hoffset⟩ := h
  rw [hoffset]
  exact isPlace_of_append htext

theorem Cursor.isIn_start (source : String) : (Cursor.start source.toList).IsIn source :=
  ⟨[], rfl, rfl⟩

theorem Cursor.IsIn.step {c : Char} {rest : List Char} (h : here.IsIn source)
    (hrest : here.rest = c :: rest) : (here.step c rest).IsIn source := by
  obtain ⟨before, htext, hoffset⟩ := h
  refine ⟨before ++ [c], ?_, ?_⟩
  · rw [htext, hrest, List.append_assoc]
    rfl
  · rw [byteCount_append, Cursor.step, hoffset]
    rfl

end Places

/-! ## Scanners that stay in a text -/

namespace Scan

variable {α β : Type} {source : String} {p q : Scan α} {f : α → Scan β} {P P' : α → Prop}
  {Q : β → Prop}

/-- **Scanners that stay in a text**: from its places they go on to places of it, they have failed
only at such, and what they find satisfies `P`. -/
structure Stays (source : String) (p : Scan α) (P : α → Prop) : Prop where
  reach : ∀ here : Cursor, here.IsIn source → IsPlace source (p here).reach
  found : ∀ here a there, here.IsIn source → (p here).found = some (a, there) →
    there.IsIn source ∧ here.offset ≤ there.offset ∧ P a

/-- Scanners that stay in a text, whatever they find. -/
def Keeps (source : String) (p : Scan α) : Prop := Stays source p fun _ => True

theorem Stays.mono (h : Stays source p P) (hP : ∀ a, P a → P' a) : Stays source p P' where
  reach := h.reach
  found here a there hin hfound := by
    obtain ⟨hthere, hle, ha⟩ := h.found here a there hin hfound
    exact ⟨hthere, hle, hP a ha⟩

theorem Stays.keeps (h : Stays source p P) : Keeps source p := h.mono fun _ _ => trivial

theorem stays_pure {a : α} (h : P a) : Stays source (Pure.pure a) P where
  reach _ _ := isPlace_zero
  found here _ _ hin hfound := by
    cases hfound
    exact ⟨hin, Nat.le_refl _, h⟩

theorem stays_fail : Stays source (fail : Scan α) P where
  reach _ _ := isPlace_zero
  found _ _ _ _ hfound := nomatch hfound

theorem Stays.bind (hp : Stays source p P) (hf : ∀ a, P a → Stays source (f a) Q) :
    Stays source (p >>= f) Q where
  reach here hin := by
    rw [reach_bind]
    cases hfound : (p here).found with
    | none => exact hp.reach here hin
    | some x =>
      obtain ⟨hthere, -, ha⟩ := hp.found here x.1 x.2 hin hfound
      exact (hp.reach here hin).max ((hf x.1 ha).reach x.2 hthere)
  found here b last hin hfound := by
    obtain ⟨a, there, hfirst, hsecond⟩ := found_bind_eq_some.1 hfound
    obtain ⟨hthere, hle, ha⟩ := hp.found here a there hin hfirst
    obtain ⟨hlast, hle', hb⟩ := (hf a ha).found there b last hthere hsecond
    exact ⟨hlast, Nat.le_trans hle hle', hb⟩

theorem Keeps.bind (hp : Keeps source p) (hf : ∀ a, Stays source (f a) Q) :
    Stays source (p >>= f) Q :=
  Stays.bind hp fun a _ => hf a

theorem Stays.map {g : α → β} (hp : Stays source p P) (hg : ∀ a, P a → Q (g a)) :
    Stays source (g <$> p) Q :=
  hp.bind fun a ha => stays_pure (hg a ha)

theorem Stays.orElse (hp : Stays source p P) (hq : Stays source q P) :
    Stays source (p <|> q) P where
  reach here hin := by
    rw [reach_orElse]
    cases (p here).found with
    | none => exact (hp.reach here hin).max (hq.reach here hin)
    | some x => exact hp.reach here hin
  found here a there hin hfound := by
    rw [found_orElse, Option.or_eq_some_iff] at hfound
    rcases hfound with hfound | ⟨-, hfound⟩
    · exact hp.found here a there hin hfound
    · exact hq.found here a there hin hfound

/-- The failure of a named rule is recorded where it began. -/
theorem Stays.named (hp : Stays source p P) : Stays source (named p) P where
  reach here hin := by
    rw [reach_named]
    cases (p here).found with
    | none => exact (hp.reach here hin).max hin.isPlace
    | some x => exact hp.reach here hin
  found here a there hin hfound := by
    rw [found_named] at hfound
    exact hp.found here a there hin hfound

theorem Keeps.optional (hp : Keeps source p) : Keeps source (optional p) :=
  (Stays.map hp fun _ _ => trivial).orElse (stays_pure trivial)

/-- What is found with its place is a piece of the text. -/
theorem Stays.withSpan (hp : Stays source p P) :
    Stays source (withSpan p) fun x => P x.1 ∧ (⟨x.2.1, x.2.2⟩ : Span).IsIn source where
  reach here hin := by
    rw [reach_withSpan]
    exact hp.reach here hin
  found here x there hin hfound := by
    rw [found_withSpan, Option.map_eq_some_iff] at hfound
    obtain ⟨⟨a, last⟩, hfound, hx⟩ := hfound
    cases hx
    obtain ⟨hthere, hle, ha⟩ := hp.found here a last hin hfound
    exact ⟨hthere, hle, ha, Span.isIn_of_places hin.isPlace hthere.isPlace hle⟩

/-! ### Characters -/

theorem keeps_char (accepts : Char → Bool) : Keeps source (char accepts) where
  reach here _ := by
    rw [quiet_char accepts here]
    exact isPlace_zero
  found here c there hin hfound := by
    unfold char at hfound
    cases hrest : here.rest with
    | nil => simp [hrest] at hfound
    | cons d rest =>
      simp only [hrest] at hfound
      split at hfound
      · cases hfound
        exact ⟨hin.step hrest, Nat.le_add_right _ _, trivial⟩
      · cases hfound

theorem keeps_exactly (c : Char) : Keeps source (exactly c) :=
  (keeps_char _).bind fun _ => stays_pure trivial

theorem keeps_word : ∀ w : List Char, Keeps source (word w)
  | [] => stays_pure trivial
  | _ :: w => (keeps_char _).bind fun _ => keeps_word w

theorem keeps_notBefore (stops : Char → Bool) : Keeps source (notBefore stops) where
  reach here _ := by
    rw [quiet_notBefore stops here]
    exact isPlace_zero
  found here a there hin hfound := by
    have hsame : there = here := by
      unfold notBefore at hfound
      split at hfound
      · cases hfound
        rfl
      · split at hfound
        · cases hfound
        · cases hfound
          rfl
    rw [hsame]
    exact ⟨hin, Nat.le_refl _, trivial⟩

theorem stays_choose : ∀ {ps : List (Scan α)}, (∀ p ∈ ps, Stays source p P) →
    Stays source (choose ps) P
  | [], _ => stays_fail
  | _ :: _, h => (h _ List.mem_cons_self).orElse
      (stays_choose fun p hp => h p (List.mem_cons_of_mem _ hp))

/-! ### Repetition -/

theorem Stays.manyWithin (hp : Stays source p P) (room : List Char) :
    Stays source (manyWithin room p) fun as => ∀ a ∈ as, P a := by
  induction room with
  | nil =>
    refine ⟨fun here hin => hp.reach here hin, fun here as there hin hfound => ?_⟩
    cases hfound
    exact ⟨hin, Nat.le_refl _, by simp⟩
  | cons c room ih =>
    refine (hp.bind fun a ha => ih.bind fun as has => stays_pure ?_).orElse (stays_pure (by simp))
    exact List.forall_mem_cons.2 ⟨ha, has⟩

theorem Stays.many (hp : Stays source p P) : Stays source (many p) fun as => ∀ a ∈ as, P a where
  reach here := (hp.manyWithin here.rest).reach here
  found here := (hp.manyWithin here.rest).found here

theorem keeps_blanks : Keeps source blanks :=
  (keeps_char isBlank).many.bind fun _ _ => stays_pure trivial

theorem Stays.spaced (hp : Stays source p P) : Stays source (spaced p) P :=
  keeps_blanks.bind fun _ => hp

theorem Stays.manySpaced (hp : Stays source p P) :
    Stays source (manySpaced p) fun as => ∀ a ∈ as, P a := by
  refine (hp.bind fun a ha => hp.spaced.many.bind fun as has => stays_pure ?_).orElse
    (stays_pure (by simp))
  exact List.forall_mem_cons.2 ⟨ha, has⟩

end Scan

/-! ## The grammar stays in the text -/

/-- The place of a range or a pattern. -/
def Term.span? : Term → Option Span
  | .range span _ _ | .pattern span _ => some span
  | _ => none

/-- The ranges and patterns among some terms stand in a text. -/
def PiecesIn (source : String) (pieces : List Term) : Prop :=
  ∀ t ∈ pieces, ∀ span ∈ t.span?, span.IsIn source

section Pieces

variable {source : String} {pieces pieces' : List Term}

theorem piecesIn_nil : PiecesIn source [] := by simp [PiecesIn]

theorem piecesIn_append :
    PiecesIn source (pieces ++ pieces') ↔ PiecesIn source pieces ∧ PiecesIn source pieces' := by
  simp only [PiecesIn, List.mem_append, or_imp, forall_and]

theorem piecesIn_listPieces {ts : List Term} (h : ∀ t ∈ ts, PiecesIn source t.pieces) :
    PiecesIn source (Term.listPieces ts) := by
  induction ts with
  | nil => exact piecesIn_nil
  | cons t ts ih =>
    rw [List.forall_mem_cons] at h
    exact piecesIn_append.2 ⟨h.1, ih h.2⟩

end Pieces

namespace Grammar

open Scan

variable {source : String}

theorem keeps_keyword (w : String) : Keeps source (keyword w) :=
  ((keeps_word _).bind fun _ => keeps_notBefore _).named

theorem keeps_operator (accepts : Operator → Bool) : Keeps source (operator accepts) := by
  refine (stays_choose fun p hp => ?_).named
  obtain ⟨op, -, rfl⟩ := List.mem_map.1 hp
  exact (keeps_word _).bind fun _ => (keeps_notBefore _).bind fun _ => stays_pure trivial

/-- A character of one class, and as many as there are of another behind it. -/
theorem keeps_run (first more : Char → Bool) : Keeps source (named do
    let c ← char first
    let cs ← many (char more)
    return c :: cs) :=
  ((keeps_char _).bind fun _ => (keeps_char _).many.keeps.bind fun _ => stays_pure trivial).named

theorem keeps_identifier : Keeps source identifier := keeps_run Text.isWordStart Text.isWord

theorem keeps_bare : Keeps source bare := keeps_run isBareChar isBareChar

theorem keeps_quotedPiece : Keeps source quotedPiece :=
  Stays.orElse ((keeps_char _).bind fun _ => stays_pure trivial)
    ((keeps_exactly _).bind fun _ => (keeps_char _).bind fun _ => stays_pure trivial)

theorem keeps_quoted : Keeps source quoted := by
  have hinner : Keeps source quotedInner :=
    (keeps_quotedPiece.many.keeps.bind fun _ => stays_pure trivial).named
  exact ((keeps_exactly _).bind fun _ => hinner.bind fun _ => (keeps_exactly _).bind fun _ =>
    stays_pure trivial).named

theorem keeps_literal : Keeps source literal :=
  (Stays.map keeps_quoted fun _ _ => trivial).orElse (Stays.map keeps_bare fun _ _ => trivial)

theorem keeps_star : Keeps source star := (keeps_exactly _).named

theorem keeps_pattern : Keeps source pattern := by
  refine Stays.named (Stays.orElse ?_ ?_)
  · exact keeps_star.bind fun _ => keeps_literal.optional.bind fun _ =>
      keeps_star.optional.bind fun _ => stays_pure trivial
  · exact keeps_literal.bind fun _ => keeps_star.optional.bind fun _ => stays_pure trivial

theorem keeps_bound : Keeps source bound :=
  Stays.named ((keeps_star.bind fun _ => stays_pure trivial).orElse
    (Stays.map keeps_literal fun _ _ => trivial))

theorem keeps_range : Keeps source range :=
  ((keeps_exactly _).bind fun _ => keeps_bound.spaced.keeps.bind fun _ =>
    (keeps_keyword "to").spaced.keeps.bind fun _ => keeps_bound.spaced.keeps.bind fun _ =>
      (keeps_exactly _).spaced.keeps.bind fun _ => stays_pure trivial).named

theorem stays_simpleTerm : Stays source simpleTerm fun t => PiecesIn source t.pieces := by
  have hsingle {t : Term} {span : Span} (hspan : span.IsIn source)
      (ht : t.pieces = [t] ∧ t.span? = some span) : PiecesIn source t.pieces := by
    rw [ht.1]
    intro u hu span' hspan'
    rw [List.mem_singleton.1 hu, ht.2] at hspan'
    cases hspan'
    exact hspan
  refine Stays.orElse ?_ ?_
  · exact keeps_range.withSpan.bind fun x hx => stays_pure (hsingle hx.2 ⟨rfl, rfl⟩)
  · exact keeps_pattern.withSpan.bind fun x hx => stays_pure (hsingle hx.2 ⟨rfl, rfl⟩)

theorem stays_separated (mark : Char → Bool) {term : Scan Term}
    (h : Stays source term fun t => PiecesIn source t.pieces) :
    Stays source (separated mark term) fun v => PiecesIn source v.pieces := by
  have hrest : Stays source (manySpaced do
      let _ ← char mark
      spaced term) fun ts => ∀ t ∈ ts, PiecesIn source t.pieces :=
    Stays.manySpaced ((keeps_char mark).bind fun _ => h.spaced)
  exact h.bind fun t ht => keeps_blanks.bind fun _ => hrest.bind fun ts hts =>
    stays_pure (piecesIn_append.2 ⟨ht, piecesIn_listPieces hts⟩)

theorem stays_alternatives {term : Scan Term}
    (h : Stays source term fun t => PiecesIn source t.pieces) :
    Stays source (alternatives term) fun v => PiecesIn source v.pieces :=
  (stays_separated _ h).named

theorem stays_group {term : Scan Term} (h : Stays source term fun t => PiecesIn source t.pieces) :
    Stays source (group term) fun v => PiecesIn source v.pieces :=
  ((keeps_exactly _).bind fun _ => (stays_alternatives h).spaced.bind fun _ hv =>
    (keeps_exactly _).spaced.keeps.bind fun _ =>
      stays_pure (P := fun v : Value => PiecesIn source v.pieces) hv).named

theorem stays_oneOf {term : Scan Term} (h : Stays source term fun t => PiecesIn source t.pieces) :
    Stays source (oneOf term) fun v => PiecesIn source v.pieces :=
  ((keeps_exactly _).bind fun _ => (stays_separated _ h).spaced.bind fun _ hv =>
    (keeps_exactly _).spaced.keeps.bind fun _ =>
      stays_pure (P := fun v : Value => PiecesIn source v.pieces) hv).named

theorem pieces_negations (n : Nat) (t : Term) : (negations n t).pieces = t.pieces := by
  induction n with
  | zero => rfl
  | succ n ih => rw [negations, Term.pieces, ih]

theorem stays_term (depth : Nat) :
    Stays source (Grammar.term depth) fun t => PiecesIn source t.pieces := by
  induction depth with
  | zero => exact stays_fail
  | succ depth ih =>
    have hatom := (stays_group ih).bind fun v hv => stays_pure (a := Term.group v.first v.rest)
      (P := fun t => PiecesIn source t.pieces) hv
    have hset := (stays_oneOf ih).bind fun v hv => stays_pure (a := Term.oneOf v.first v.rest)
      (P := fun t => PiecesIn source t.pieces) hv
    refine Stays.named ((Stays.manySpaced (keeps_exactly '!').named).keeps.bind fun bangs => ?_)
    refine (hatom.orElse (hset.orElse stays_simpleTerm)).spaced.bind fun t ht => stays_pure ?_
    rwa [pieces_negations]

/-- **The grammar of values stays in the text.** -/
theorem stays_value (depth : Nat) : Stays source (value depth) fun v => PiecesIn source v.pieces :=
  stays_alternatives (stays_term depth)

/-! ### Filters -/

theorem keeps_pathStep : Keeps source pathStep :=
  Stays.orElse ((keeps_exactly _).bind fun _ => keeps_quoted.bind fun _ =>
    (keeps_exactly _).bind fun _ => stays_pure trivial)
    ((keeps_exactly _).bind fun _ => keeps_identifier.bind fun _ => stays_pure trivial)

/-- **The grammar of paths stays in the text.** -/
theorem keeps_field : Keeps source field :=
  (keeps_identifier.bind fun _ => keeps_pathStep.many.keeps.bind fun _ => stays_pure trivial).named

theorem stays_clause (depth : Nat) :
    Stays source (clause depth) fun p => PiecesIn source p.pieces := by
  refine Stays.named (keeps_field.bind fun path => Stays.spaced (Stays.orElse ?_ ?_))
  · exact (keeps_operator _).bind fun op => stays_pure piecesIn_nil
  · exact (keeps_operator _).bind fun op => (stays_value depth).spaced.bind fun v hv =>
      stays_pure hv

theorem piecesIn_phrases {ps : List Phrase} (h : ∀ p ∈ ps, PiecesIn source p.pieces) :
    PiecesIn source (Phrase.listPieces ps) := by
  induction ps with
  | nil => exact piecesIn_nil
  | cons p ps ih =>
    rw [List.forall_mem_cons] at h
    exact piecesIn_append.2 ⟨h.1, ih h.2⟩

theorem stays_joinedBy (w : String) {member : Scan Phrase}
    (h : Stays source member fun p => PiecesIn source p.pieces) :
    Stays source (joinedBy w member) fun x =>
      PiecesIn source (x.1.pieces ++ Phrase.listPieces x.2) := by
  have hrest : Stays source (manySpaced do
      keyword w
      spaced member) fun ps => ∀ p ∈ ps, PiecesIn source p.pieces :=
    Stays.manySpaced ((keeps_keyword w).bind fun _ => h.spaced)
  exact h.bind fun p hp => keeps_blanks.bind fun _ => hrest.bind fun ps hps =>
    stays_pure (piecesIn_append.2 ⟨hp, piecesIn_phrases hps⟩)

theorem stays_disjunction {member : Scan Phrase}
    (h : Stays source member fun p => PiecesIn source p.pieces) :
    Stays source (disjunction member) fun p => PiecesIn source p.pieces := by
  have hall : Stays source (conjunction member) fun p => PiecesIn source p.pieces :=
    ((stays_joinedBy "and" h).bind fun x hx => stays_pure (a := Phrase.all x.1 x.2)
      (P := fun p => PiecesIn source p.pieces) hx).named
  rw [disjunction_eq]
  exact ((stays_joinedBy "or" hall).bind fun x hx => stays_pure (a := Phrase.any x.1 x.2)
    (P := fun p => PiecesIn source p.pieces) hx).named

theorem pieces_phraseNegations (n : Nat) (p : Phrase) :
    (phraseNegations n p).pieces = p.pieces := by
  induction n with
  | zero => rfl
  | succ n ih => rw [phraseNegations, Phrase.pieces, ih]

theorem stays_member (depth : Nat) :
    Stays source (member depth) fun p => PiecesIn source p.pieces := by
  induction depth with
  | zero => exact stays_fail
  | succ depth ih =>
    rw [member_succ]
    refine Stays.named ((Stays.manySpaced (keeps_keyword "not")).keeps.bind fun nots => ?_)
    refine Stays.bind (P := fun p => PiecesIn source p.pieces) (Stays.spaced (Stays.orElse ?_
      (stays_clause (depth + 1)))) fun p hp => stays_pure ?_
    · exact (keeps_exactly _).bind fun _ => (stays_disjunction ih).spaced.bind fun p hp =>
        (keeps_exactly _).spaced.keeps.bind fun _ => stays_pure hp
    · rwa [pieces_phraseNegations]

/-- **The grammar of filters stays in the text.** -/
theorem stays_input (depth : Nat) : Stays source (input depth) fun p? =>
    ∀ p ∈ p?, PiecesIn source p.pieces := by
  have hphrase : Stays source (disjunction (member depth)) fun p => PiecesIn source p.pieces :=
    stays_disjunction (stays_member depth)
  refine Stays.named (Stays.bind (P := fun p? => ∀ p ∈ p?, PiecesIn source p.pieces) ?_
    fun p? hp? => (Stays.named (keeps_notBefore _)).spaced.keeps.bind fun _ => stays_pure hp?)
  refine Stays.spaced ((hphrase.map fun p hp => ?_).orElse (stays_pure (by simp)))
  rintro _ ⟨⟩
  exact hp

end Grammar

/-! ## Refusals that name a piece of a text -/

/-- **The refusals that name a piece of a text**: as malformed, it is the text itself that they
quote, and the piece is one of it. -/
def SyntaxError.PointsInto (source : String) (e : SyntaxError) : Prop :=
  ∀ src span fault, e = .malformed src span fault → src = source ∧ span.IsIn source

section Refusals

variable {source : String} {e : SyntaxError}

theorem pointsInto_malformed {span : Span} {fault : Fault} (h : span.IsIn source) :
    (SyntaxError.malformed source span fault).PointsInto source := by
  rintro _ _ _ ⟨⟩
  exact ⟨rfl, h⟩

theorem Span.isIn_of_place {n : Nat} (h : IsPlace source n) : (⟨n, 0⟩ : Span).IsIn source :=
  ⟨h, h, h.le⟩

theorem utf8Size_of_depthAfter {depth : Nat} {c : Char} (h : depth < depthAfter depth c) :
    c.utf8Size = 1 := by
  unfold depthAfter at h
  split at h
  · rename_i hopen
    have hmem : c ∈ ['(', '\x7b', '['] := List.contains_iff_mem.1 hopen
    simp only [List.mem_cons, List.not_mem_nil, or_false] at hmem
    rcases hmem with rfl | rfl | rfl <;> rfl
  · split at h <;> omega

/-- **The bracket that nests too deep** stands at a place of the text, and takes up one byte. -/
theorem append_of_overDeep? {limit n : Nat} : ∀ {cs : List Char} {depth offset : Nat}
    {s : Surroundings}, depth ≤ limit → overDeep? limit depth s offset cs = some n →
    ∃ before c after, cs = before ++ c :: after ∧ n = offset + byteCount before ∧ c.utf8Size = 1
  | [], _, _, _, _, h => nomatch h
  | c :: cs, depth, offset, s, hdepth, h => by
    rw [overDeep?] at h
    by_cases hover : limit < if s = .outside then depthAfter depth c else depth
    · rw [if_pos hover] at h
      cases h
      refine ⟨[], c, cs, rfl, rfl, utf8Size_of_depthAfter (Nat.lt_of_le_of_lt hdepth ?_)⟩
      split at hover
      · exact hover
      · omega
    · rw [if_neg hover] at h
      obtain ⟨before, d, after, rfl, rfl, hsize⟩ := append_of_overDeep? (Nat.not_lt.1 hover) h
      refine ⟨c :: before, d, after, rfl, ?_, hsize⟩
      rw [byteCount]
      omega

theorem pointsInto_of_checkDepth {limit : Nat} (h : checkDepth limit source = .error e) :
    e.PointsInto source := by
  unfold checkDepth at h
  split at h
  · rename_i n hover
    cases h
    obtain ⟨before, c, after, htext, rfl, hsize⟩ := append_of_overDeep? (Nat.zero_le limit) hover
    rw [Nat.zero_add]
    have hstart : IsPlace source (byteCount before) := isPlace_of_append htext
    have hstop : IsPlace source (byteCount before + 1) := by
      have hcount : byteCount (before ++ [c]) = byteCount before + 1 := by
        rw [byteCount_append, byteCount, byteCount, hsize]
      rw [← hcount]
      exact isPlace_of_append (by rw [htext, List.append_assoc]; rfl)
    exact pointsInto_malformed ⟨hstart, hstop, hstop.le⟩
  · cases h

section Scanned

variable {α : Type} {p : Scan α} {P : α → Prop}

/-- Nothing found is a refusal of the place farthest into the text where it failed. -/
theorem pointsInto_of_scanned (hp : p.Stays source P) (h : scanned source p = .error e) :
    e.PointsInto source := by
  unfold scanned at h
  dsimp only at h
  split at h
  · cases h
  · cases h
    exact pointsInto_malformed (Span.isIn_of_place (hp.reach _ (Cursor.isIn_start source)))

/-- What is found satisfies `P`, and the scanner stands at a place. -/
theorem Scan.Stays.of_found (hp : p.Stays source P) {a : α} {there : Cursor}
    (h : (p (Cursor.start source.toList)).found = some (a, there)) :
    IsPlace source there.offset ∧ P a := by
  obtain ⟨hthere, -, ha⟩ := hp.found _ a there (Cursor.isIn_start source) h
  exact ⟨hthere.isPlace, ha⟩

/-- What is left over is the end of the text. -/
theorem pointsInto_of_scannedWhole (hp : p.Stays source P) {leftover : Fault}
    (h : scannedWhole source leftover p = .error e) : e.PointsInto source := by
  rcases bind_eq_error.1 h with h | ⟨⟨a, consumed⟩, hscanned, h⟩
  · exact pointsInto_of_scanned hp h
  · obtain ⟨there, hfound, rfl⟩ := scanned_eq_ok.1 hscanned
    obtain ⟨hplace, -⟩ := hp.of_found hfound
    dsimp only at h
    split at h
    · cases h
    · cases h
      exact pointsInto_malformed (Span.isIn_of_places hplace isPlace_end hplace.le)

end Scanned

/-- A range or a pattern is refused at its own place. -/
theorem AnyRefuses.pointsInto {pieces : List Term} (h : AnyRefuses source pieces e)
    (hpieces : PiecesIn source pieces) : e.PointsInto source := by
  obtain ⟨t, ht, hrefuses⟩ := h
  cases hrefuses with
  | twoAsterisks span => exact pointsInto_malformed (hpieces _ ht span rfl)
  | openRange span => exact pointsInto_malformed (hpieces _ ht span rfl)
  | emptyText _ _ _ _ => exact fun _ _ _ h => nomatch h

theorem Node.pointsInto_of_ofText {limit : Nat} {text : String}
    (h : Node.ofText limit text = .error e) : e.PointsInto text := by
  rcases bind_eq_error.1 h with h | ⟨_, -, h⟩
  · exact pointsInto_of_checkDepth h
  · rcases bind_eq_error.1 h with h | ⟨⟨p?, consumed⟩, hscanned, h⟩
    · exact pointsInto_of_scanned (Grammar.stays_input _) h
    · obtain ⟨there, hfound, rfl⟩ := scanned_eq_ok.1 hscanned
      obtain ⟨-, hpieces⟩ := (Grammar.stays_input _).of_found hfound
      cases p? with
      | none => cases h
      | some p => exact (Phrase.refuses_of_node h).pointsInto (hpieces p rfl)

theorem Operand.pointsInto_of_ofText {op : Operator} {text : String}
    (h : Operand.ofText op text = .error e) : e.PointsInto (trimmed text) := by
  rcases bind_eq_error.1 h with h | ⟨_, -, h⟩
  · exact pointsInto_of_checkDepth h
  · rcases bind_eq_error.1 h with h | ⟨v, hwhole, h⟩
    · exact pointsInto_of_scannedWhole (Grammar.stays_value _) h
    · obtain ⟨there, hfound, -⟩ := scannedWhole_eq_ok.1 hwhole
      obtain ⟨-, hpieces⟩ := (Grammar.stays_value _).of_found hfound
      exact (Value.refuses_of_operand h).pointsInto hpieces

theorem eq_error_of_match {ε α : Type} {x : Except ε α} {e : ε}
    (h : (match x with | .ok _ => none | .error e => some e) = some e) : x = .error e := by
  cases x with
  | ok a => cases h
  | error e' => rw [Option.some.inj h]

/-- **Every refusal points into the text that was read**: a filter, a value or a path that is
malformed is refused with the text itself, without the blanks around a value or a path, and with a
piece of it that begins and ends between two characters. -/
theorem refusals_pointInto (limit : Nat) (op : Operator) (text : String) :
    (∀ e, Node.ofText limit text = .error e → e.PointsInto text) ∧
    (∀ e, RuleTree.readNode limit text = .error e → e.PointsInto text) ∧
    (∀ e, Operand.ofText op text = .error e → e.PointsInto (trimmed text)) ∧
    (∀ e, RuleTree.readOperand op text = .error e → e.PointsInto (trimmed text)) ∧
    (∀ e, fieldNames text = .error e → e.PointsInto (trimmed text)) := by
  refine ⟨fun e h => Node.pointsInto_of_ofText h, fun e h => ?_,
    fun e h => Operand.pointsInto_of_ofText h, fun e h => ?_, fun e h => ?_⟩
  · rw [RuleTree.readNode_eq] at h
    exact Node.pointsInto_of_ofText h
  · rw [RuleTree.readOperand_eq] at h
    exact Operand.pointsInto_of_ofText h
  · exact pointsInto_of_scannedWhole Grammar.keeps_field (map_eq_error.1 h)

/-- A range behind a letter of two bytes, and what is left of a path behind such blanks. -/
theorem refusals_pointInto_wideLetters :
    Node.ofText defaultDepth "Name eq \"é\" or Height eq [* to *]" =
      .error (.malformed "Name eq \"é\" or Height eq [* to *]" ⟨26, 8⟩ .openRange) ∧
    (⟨26, 8⟩ : Span).IsIn "Name eq \"é\" or Height eq [* to *]" ∧
    Operand.ofText .eq " é [* to *]" =
      .error (.malformed "é [* to *]" ⟨3, 8⟩ .afterValue) ∧
    (⟨3, 8⟩ : Span).IsIn "é [* to *]" ∧
    fieldNames "\u00a0A.é " = .error (.malformed "A.é" ⟨1, 3⟩ .afterPath) ∧
    (⟨1, 3⟩ : Span).IsIn "A.é" := by
  have hnode : Node.ofText defaultDepth "Name eq \"é\" or Height eq [* to *]" =
      .error (.malformed "Name eq \"é\" or Height eq [* to *]" ⟨26, 8⟩ .openRange) :=
    eq_error_of_match (by decide +kernel)
  have hvalue : Operand.ofText .eq " é [* to *]" =
      .error (.malformed "é [* to *]" ⟨3, 8⟩ .afterValue) :=
    eq_error_of_match (by decide +kernel)
  have hpath : fieldNames "\u00a0A.é " = .error (.malformed "A.é" ⟨1, 3⟩ .afterPath) := by
    decide +kernel
  refine ⟨hnode, ?_, hvalue, ?_, hpath, ?_⟩
  · exact ((refusals_pointInto defaultDepth .eq _).1 _ hnode _ _ _ rfl).2
  · exact ((refusals_pointInto defaultDepth .eq _).2.2.1 _ hvalue _ _ _ rfl).2
  · exact ((refusals_pointInto defaultDepth .eq _).2.2.2.2 _ hpath _ _ _ rfl).2

end Refusals

end Sift
