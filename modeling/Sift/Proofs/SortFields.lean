import Sift.Proofs.Ordering
import Sift.Proofs.QueryErrors
import Sift.Proofs.SortParts

/-!
# The fields of sort texts as paths

Sort texts know no backslash: a name in brackets goes up to the next quote. In a path a backslash
keeps the quote behind it, so that a name which ends in one never ends.

* `quotedInner_iff`: the texts without quotes that can stand between quotes.
* `fieldNames_eq_ok`: the texts that are read as paths.
* `FieldPath.Plain.fieldNames_eq_ok`: the fields of sort texts that are.
* `Schema.code_compileKey`: a key is refused for its syntax where its field is no path.
* `Sorting.fields_of_ofText`: **which fields of a sort text are paths, and which sorts are refused
  for their syntax.**
-/

namespace Sift

open Grammar (IsIdentifier)

/-! ## Texts between quotes -/

section Quotes

variable {as bs cs : List Char} {c : Char}

theorem quotedInner_cons (hquote : c ≠ '"') (hslash : c ≠ '\\') :
    QuotedInner (c :: cs) ↔ QuotedInner cs := by
  refine ⟨fun h => ?_, .plain hquote hslash⟩
  cases h with
  | plain _ _ h => exact h
  | kept => exact absurd rfl hslash

theorem quotedInner_kept : QuotedInner ('\\' :: c :: cs) ↔ QuotedInner cs := by
  refine ⟨fun h => ?_, .kept c⟩
  cases h with
  | plain _ hslash => exact absurd rfl hslash
  | kept _ h => exact h

theorem quotedInner_append (h : QuotedInner as) : QuotedInner (as ++ bs) ↔ QuotedInner bs := by
  induction h with
  | nil => exact Iff.rfl
  | plain hquote hslash _ ih => exact (quotedInner_cons hquote hslash).trans ih
  | kept c _ ih => exact quotedInner_kept.trans ih

/-- A backslash at the end keeps nothing. -/
theorem not_quotedInner_slash : ¬QuotedInner ['\\'] := by
  intro h
  cases h with
  | plain _ hslash => exact hslash rfl

/-- A text without quotes can stand between quotes, or does so up to a backslash at its end. -/
theorem quotedInner_or_slash : ∀ cs : List Char, '"' ∉ cs →
    QuotedInner cs ∨ ∃ ds, QuotedInner ds ∧ cs = ds ++ ['\\']
  | [], _ => Or.inl .nil
  | [c], h => by
    by_cases hslash : c = '\\'
    · exact Or.inr ⟨[], .nil, by rw [hslash]; rfl⟩
    · exact Or.inl (.plain (fun hquote => h (by simp [hquote])) hslash .nil)
  | c :: d :: cs, h => by
    simp only [List.mem_cons, not_or] at h
    by_cases hslash : c = '\\'
    · subst hslash
      rcases quotedInner_or_slash cs h.2.2 with hcs | ⟨ds, hds, rfl⟩
      · exact Or.inl (.kept d hcs)
      · exact Or.inr ⟨'\\' :: d :: ds, .kept d hds, rfl⟩
    · have hrest : '"' ∉ d :: cs := by simp [h.2.1, h.2.2]
      rcases quotedInner_or_slash (d :: cs) hrest with hcs | ⟨ds, hds, hcs⟩
      · exact Or.inl (.plain (Ne.symm h.1) hslash hcs)
      · exact Or.inr ⟨c :: ds, .plain (Ne.symm h.1) hslash hds, by rw [hcs]; rfl⟩

/-- The backslashes at the end of a text. -/
def slashesAtEnd (cs : List Char) : Nat := (cs.reverse.takeWhile (· == '\\')).length

theorem slashesAtEnd_slash (cs : List Char) :
    slashesAtEnd (cs ++ ['\\']) = slashesAtEnd cs + 1 := by
  simp [slashesAtEnd]

theorem slashesAtEnd_of_ne (cs : List Char) (hc : c ≠ '\\') : slashesAtEnd (cs ++ [c]) = 0 := by
  simp [slashesAtEnd, hc]

/-- **The texts without quotes that can stand between quotes** end in an even number of
backslashes. -/
theorem quotedInner_iff (h : '"' ∉ cs) : QuotedInner cs ↔ slashesAtEnd cs % 2 = 0 := by
  induction cs using List.reverseRecOn with
  | nil => exact iff_of_true .nil rfl
  | append_singleton cs c ih =>
    simp only [List.mem_append, List.mem_singleton, not_or] at h
    have ih := ih h.1
    by_cases hslash : c = '\\'
    · -- one more backslash turns the answer round
      subst hslash
      rw [slashesAtEnd_slash]
      have hflip : QuotedInner (cs ++ ['\\']) ↔ ¬QuotedInner cs := by
        constructor
        · intro hall hcs
          exact not_quotedInner_slash ((quotedInner_append hcs).1 hall)
        · intro hcs
          rcases quotedInner_or_slash cs h.1 with hinner | ⟨ds, hds, rfl⟩
          · exact absurd hinner hcs
          · rw [List.append_assoc]
            exact (quotedInner_append hds).2 (.kept '\\' .nil)
      rw [hflip, ih]
      omega
    · rw [slashesAtEnd_of_ne cs hslash]
      refine iff_of_true ?_ rfl
      have hend : QuotedInner [c] := .plain (Ne.symm h.2) hslash .nil
      rcases quotedInner_or_slash cs h.1 with hcs | ⟨ds, hds, rfl⟩
      · exact (quotedInner_append hcs).2 hend
      · rw [List.append_assoc]
        exact (quotedInner_append hds).2 (.kept c .nil)

/-- Between quotes, a backslash stands before every quote. -/
theorem QuotedInner.slash_of_quote : ∀ {as : List Char}, QuotedInner (as ++ c :: '"' :: bs) →
    c = '\\'
  | [], h => by
    cases h with
    | plain _ _ h =>
      cases h with
      | plain hquote => exact absurd rfl hquote
    | kept => rfl
  | [a], h => by
    cases h with
    | plain _ _ h =>
      rw [← List.nil_append (c :: _)] at h
      exact slash_of_quote h
    | kept _ h =>
      cases h with
      | plain hquote => exact absurd rfl hquote
  | a :: b :: as, h => by
    rw [List.cons_append] at h
    cases h with
    | plain _ _ h => exact slash_of_quote h
    | kept _ h => exact slash_of_quote h

end Quotes

/-! ## Paths of sort texts that are paths -/

theorem takeWhile_name {name rest : List Char} (h : ∀ c ∈ name, Text.isWord c = true)
    (hrest : EndsName rest) : (name ++ rest).takeWhile Text.isWord = name := by
  rw [List.takeWhile_append_of_pos h]
  cases rest with
  | nil => exact List.append_nil name
  | cons c rest =>
    have hc : ¬Text.isWord c = true := by simp [hrest c rfl]
    rw [List.takeWhile_cons_of_neg hc, List.append_nil]

/-- What a name ends at tells the name. -/
theorem name_unique {a b as bs : List Char} (ha : IsIdentifier a) (hb : IsIdentifier b)
    (has : EndsName as) (hbs : EndsName bs) (h : a ++ as = b ++ bs) : a = b ∧ as = bs := by
  have hname : a = b := by
    rw [← takeWhile_name ha.isWord has, ← takeWhile_name hb.isWord hbs, h]
  subst hname
  exact ⟨rfl, List.append_cancel_left h⟩

theorem endsName_written (steps : List PathStep) : EndsName (steps.flatMap PathStep.written) := by
  have hends : Grammar.EndsPath [] := by simp [Grammar.EndsPath]
  have h := Grammar.endsName_steps steps hends
  rwa [List.append_nil] at h

/-- A name in brackets that is not over at its first quote goes on behind an opening bracket. -/
theorem exists_opening_step {s : PathStep} (h : s.Plain) {front rest back : List Char}
    (hs : ∃ behind, s.written = front ++ '"' :: behind ∧ ']' :: back = behind ++ rest) :
    ∃ b, front = '[' :: '"' :: b := by
  obtain ⟨behind, hs, hback⟩ := hs
  cases s with
  | dotted name =>
    have hmem : '"' ∈ (PathStep.dotted name).written := by rw [hs]; simp
    rcases List.mem_cons.1 hmem with hdot | hname
    · exact absurd hdot (by decide)
    · exact absurd (IsIdentifier.isWord h _ hname) (by decide)
  | bracketed inner =>
    have hwritten : (PathStep.bracketed inner).written = '[' :: '"' :: (inner ++ ['"', ']']) := rfl
    rw [hwritten] at hs
    match front with
    | [] => exact absurd (List.cons.inj hs).1 (by decide)
    | [c] =>
      -- the quote is the opening one, and no closing bracket follows it
      rw [List.singleton_append, List.cons.injEq, List.cons.injEq] at hs
      rw [← hs.2.2] at hback
      cases inner with
      | nil => exact absurd (List.cons.inj hback).1 (by decide)
      | cons d inner =>
        obtain ⟨rfl, -⟩ := List.cons.inj hback
        exact absurd (h ']' List.mem_cons_self) (by decide)
    | c :: d :: b =>
      rw [List.cons_append, List.cons_append, List.cons.injEq, List.cons.injEq] at hs
      rw [← hs.1, ← hs.2.1]
      exact ⟨b, rfl⟩

/-- In front of a quote with a closing bracket behind it stand, in the steps of a sort key, an
opening bracket and a quote. -/
theorem exists_opening {steps : List PathStep} (h : ∀ s ∈ steps, s.Plain) {front back : List Char}
    (heq : steps.flatMap PathStep.written = front ++ '"' :: ']' :: back) :
    ∃ a b, front = a ++ '[' :: '"' :: b := by
  induction steps generalizing front with
  | nil => simp at heq
  | cons s steps ih =>
    rw [List.forall_mem_cons] at h
    rw [List.flatMap_cons, List.append_eq_append_iff] at heq
    rcases heq with ⟨front', rfl, hrest⟩ | ⟨behind, hs, hrest⟩
    · -- the quote stands behind the first step
      obtain ⟨a, b, rfl⟩ := ih h.2 hrest
      exact ⟨s.written ++ a, b, by rw [List.append_assoc]⟩
    · cases behind with
      | nil =>
        rw [List.nil_append, ← List.nil_append (_ :: _)] at hrest
        obtain ⟨a, b, hnil⟩ := ih h.2 hrest.symm
        simp at hnil
      | cons c behind =>
        rw [List.cons_append, List.cons.injEq] at hrest
        obtain ⟨rfl, hrest⟩ := hrest
        obtain ⟨b, rfl⟩ := exists_opening_step h.1 ⟨behind, hs, hrest⟩
        exact ⟨[], b, rfl⟩

/-- **A name in brackets of a sort key ends at its first quote**, also if it is read with kept
quotes: these would have to stand in front of a closing bracket, where none is kept. -/
theorem inner_unique {a b rest : List Char} {steps : List PathStep}
    (ha : ∀ c ∈ a, SortPattern.isInner c = true) (hb : QuotedInner b)
    (hsteps : ∀ s ∈ steps, s.Plain)
    (h : a ++ '"' :: ']' :: steps.flatMap PathStep.written = b ++ '"' :: ']' :: rest) :
    a = b ∧ steps.flatMap PathStep.written = rest := by
  rw [List.append_eq_append_iff] at h
  rcases h with ⟨more, rfl, hmore⟩ | ⟨more, rfl, hmore⟩
  · match more with
    | [] => exact ⟨(List.append_nil a).symm, (List.cons.inj (List.cons.inj hmore).2).2⟩
    | [c] => exact absurd (List.cons.inj (List.cons.inj hmore).2).1 (by decide)
    | c :: d :: more =>
      rw [List.cons_append, List.cons_append, List.cons.injEq, List.cons.injEq] at hmore
      obtain ⟨rfl, rfl, hmore⟩ := hmore
      obtain ⟨x, y, rfl⟩ := exists_opening hsteps hmore
      have hkept : QuotedInner ((a ++ '"' :: ']' :: x) ++ '[' :: '"' :: y) := by
        rw [List.append_assoc]
        exact hb
      exact absurd hkept.slash_of_quote (by decide)
  · cases more with
    | nil => exact ⟨List.append_nil b, (List.cons.inj (List.cons.inj hmore).2).2.symm⟩
    | cons c more =>
      rw [List.cons_append, List.cons.injEq] at hmore
      obtain ⟨rfl, -⟩ := hmore
      exact absurd (ha '"' (by simp)) (by decide)

/-- **One text, one path**: what is written alike in a sort key and in a path is the same. -/
theorem steps_unique : ∀ {ps qs : List PathStep}, (∀ s ∈ ps, s.Plain) → (∀ s ∈ qs, s.Valid) →
    ps.flatMap PathStep.written = qs.flatMap PathStep.written → ps = qs
  | [], [], _, _, _ => rfl
  | [], .dotted _ :: _, _, _, h | [], .bracketed _ :: _, _, _, h => by cases h
  | .dotted _ :: _, [], _, _, h | .bracketed _ :: _, [], _, _, h => by cases h
  | .dotted _ :: _, .bracketed _ :: _, _, _, h | .bracketed _ :: _, .dotted _ :: _, _, _, h =>
    absurd (List.cons.inj h).1 (by decide)
  | .dotted a :: ps, .dotted b :: qs, hp, hq, h => by
    rw [List.forall_mem_cons] at hp hq
    have hwritten : a ++ ps.flatMap PathStep.written = b ++ qs.flatMap PathStep.written :=
      (List.cons.inj h).2
    obtain ⟨rfl, hrest⟩ :=
      name_unique hp.1 hq.1 (endsName_written ps) (endsName_written qs) hwritten
    rw [steps_unique hp.2 hq.2 hrest]
  | .bracketed a :: ps, .bracketed b :: qs, hp, hq, h => by
    rw [List.forall_mem_cons] at hp hq
    have hwritten : a ++ '"' :: ']' :: ps.flatMap PathStep.written =
        b ++ '"' :: ']' :: qs.flatMap PathStep.written := by
      simpa [PathStep.written] using h
    obtain ⟨rfl, hrest⟩ := inner_unique hp.1 hq.1 hp.2 hwritten
    rw [steps_unique hp.2 hq.2 hrest]

theorem Cursor.rest_start (text : List Char) : (Cursor.start text).rest = text := rfl

/-- **The texts that are read as paths**, up to the blanks at their ends. -/
theorem fieldNames_eq_ok {text : String} {names : List String} : fieldNames text = .ok names ↔
    ∃ path : FieldPath, path.Readable ∧ trimmed text = path.written ∧ names = path.names := by
  constructor
  · intro h
    obtain ⟨path, hwhole, rfl⟩ := map_eq_ok.1 h
    obtain ⟨there, hfound, hend⟩ := scannedWhole_eq_ok.1 hwhole
    obtain ⟨cs, hcs, hstop, hpath, hwritten⟩ :=
      Grammar.takes_field_written _ path there trivial hfound
    rw [(offset_eq_utf8ByteSize_iff hstop).1 hend, List.append_nil, Cursor.rest_start] at hcs
    refine ⟨path, hpath, ?_, rfl⟩
    rw [← String.toList_inj, hwritten]
    exact hcs
  · rintro ⟨path, hpath, htext, rfl⟩
    have htrimmed : trimmed path.written = path.written :=
      FieldPath.trimmed_written hpath.first fun _ hname => hpath.steps _ hname
    have hnames := hpath.fieldNames_written
    unfold fieldNames at hnames ⊢
    rw [htrimmed] at hnames
    rw [htext]
    exact hnames

/-- Whether a name in brackets ends in an odd number of backslashes, of which the last would keep
the quote behind the name. -/
def PathStep.keepsQuote : PathStep → Bool
  | dotted _ => false
  | bracketed inner => slashesAtEnd inner % 2 == 1

/-- Whether a path has such a name. -/
def FieldPath.keepsQuote (p : FieldPath) : Bool := p.steps.any PathStep.keepsQuote

theorem PathStep.Plain.valid_iff {s : PathStep} (h : s.Plain) : s.Valid ↔ s.keepsQuote = false := by
  cases s with
  | dotted name => exact iff_of_true h rfl
  | bracketed inner =>
    have hquote : '"' ∉ inner := fun hmem => absurd (h _ hmem) (by decide)
    rw [PathStep.Valid, quotedInner_iff hquote, PathStep.keepsQuote, beq_eq_false_iff_ne]
    omega

/-- **The paths of sort keys that are paths** have no name that keeps the quote behind it. -/
theorem FieldPath.Plain.fieldNames_eq_ok {path : FieldPath} (h : path.Plain) {names : List String} :
    fieldNames path.written = .ok names ↔ path.keepsQuote = false ∧ names = path.names := by
  have htrimmed : trimmed path.written = path.written :=
    trimmed_written h.first fun _ hname => h.steps _ hname
  rw [Sift.fieldNames_eq_ok, htrimmed, keepsQuote, List.any_eq_false]
  constructor
  · rintro ⟨q, hq, hwritten, rfl⟩
    have htext : path.first ++ path.steps.flatMap PathStep.written =
        q.first ++ q.steps.flatMap PathStep.written := by
      rw [← String.toList_ofList (l := path.first ++ _), ← String.toList_ofList (l := q.first ++ _)]
      exact congrArg String.toList hwritten
    obtain ⟨hfirst, hsteps⟩ := name_unique h.first hq.first (endsName_written path.steps)
      (endsName_written q.steps) htext
    have hsteps := steps_unique h.steps hq.steps hsteps
    have hsame : path = q := by
      obtain ⟨first, steps⟩ := path
      obtain ⟨first', steps'⟩ := q
      cases hfirst
      cases hsteps
      rfl
    subst hsame
    refine ⟨fun s hs => ?_, rfl⟩
    rw [(h.steps s hs).valid_iff.1 (hq.steps s hs)]
    decide
  · rintro ⟨hkeeps, rfl⟩
    refine ⟨path, ⟨h.first, fun s hs => (h.steps s hs).valid_iff.2 ?_⟩, rfl, rfl⟩
    exact Bool.eq_false_iff.2 (hkeeps s hs)

/-! ## Sorts that are refused for their syntax -/

/-- The first failure of a list of steps is that of the list. -/
theorem mapM_eq_error {ε α β : Type} {f : α → Except ε β} {as : List α} {e : ε} :
    as.mapM f = .error e ↔ ∃ before a after, as = before ++ a :: after ∧
      (∀ b ∈ before, ∃ y, f b = .ok y) ∧ f a = .error e := by
  induction as with
  | nil =>
    refine iff_of_false (fun h => nomatch h) ?_
    rintro ⟨before, a, after, h, -⟩
    simp at h
  | cons a as ih =>
    rw [List.mapM_cons, bind_eq_error]
    constructor
    · rintro (h | ⟨y, hy, h⟩)
      · exact ⟨[], a, as, rfl, by simp, h⟩
      · rcases bind_eq_error.1 h with h | ⟨ys, -, h⟩
        · obtain ⟨before, a', after, rfl, hbefore, ha'⟩ := ih.1 h
          exact ⟨a :: before, a', after, rfl, List.forall_mem_cons.2 ⟨⟨y, hy⟩, hbefore⟩, ha'⟩
        · cases h
    · rintro ⟨before, a', after, h, hbefore, ha'⟩
      cases before with
      | nil =>
        obtain ⟨rfl, -⟩ := List.cons.inj h
        exact Or.inl ha'
      | cons b before =>
        obtain ⟨rfl, rfl⟩ := List.cons.inj h
        rw [List.forall_mem_cons] at hbefore
        obtain ⟨⟨y, hy⟩, hbefore⟩ := hbefore
        have hrest := ih.2 ⟨before, a', after, rfl, hbefore, ha'⟩
        exact Or.inr ⟨y, hy, bind_eq_error.2 (Or.inl hrest)⟩

theorem fieldNames_eq_error {text : String} {e : SyntaxError} (h : fieldNames text = .error e) :
    ∃ source span fault, e = .malformed source span fault := by
  rcases bind_eq_error.1 (map_eq_error.1 h) with h | ⟨⟨path, consumed⟩, -, h⟩
  · unfold scanned at h
    dsimp only at h
    split at h
    · cases h
    · cases h
      exact ⟨_, _, _, rfl⟩
  · dsimp only at h
    split at h
    · cases h
    · cases h
      exact ⟨_, _, _, rfl⟩

namespace Schema

variable {n : Nat} {s : Schema n} {k : SortKey} {e : QueryError}

/-- **A key is refused for its syntax** where its field is no path. -/
theorem code_compileKey (h : s.compileKey k = .error e) :
    e.code = .parse ↔ ∀ names, fieldNames k.field ≠ .ok names := by
  cases hnames : fieldNames k.field with
  | error e' =>
    -- the path is not even looked up
    refine iff_of_true ?_ fun names hnames => nomatch hnames
    obtain ⟨source, span, fault, rfl⟩ := fieldNames_eq_error hnames
    have hresolve : s.resolve k.field =
        .error ((QueryError.ofSyntaxError (.malformed source span fault)).withField k.field) := by
      unfold resolve pathNames
      rw [hnames]
      rfl
    unfold compileKey at h
    rw [hresolve] at h
    cases h
    rfl
  | ok names =>
    refine iff_of_false (fun hparse => ?_) fun h => h names rfl
    have hkinds : FailsWith (· ≠ .parse) (s.compileKey k) := by
      refine ((failsWith_resolve hnames).mono ?_).bind fun segments _ => ?_
      · rintro _ rfl
        decide
      · by_cases hsortable : isSortable segments
        · rw [if_pos hsortable]
          exact FailsWith.ok _
        · rw [if_neg hsortable]
          exact FailsWith.error (by exact (by decide : ErrorCode.typeMismatch ≠ .parse))
    exact hkinds e h hparse

end Schema

namespace Sorting

variable {text : String} {s : Sorting}

/-- The fields of a sort text are those of plain paths. -/
theorem exists_path_of_ofText (h : ofText text = .ok s) :
    ∀ k ∈ s.keys, ∃ path : FieldPath, path.Plain ∧ k.field = path.written := by
  obtain ⟨ks, rfl, hks⟩ := ofText_eq_ok.1 h
  rw [keys_ofKeys]
  intro k hk
  obtain ⟨i, hi, rfl⟩ := List.getElem_of_mem hk
  obtain ⟨hlength, hwritten⟩ := List.forall₂_iff_get.1 hks
  obtain ⟨-, -, -, -, ⟨-, path, -, hpath, hfield, -⟩, -⟩ := hwritten i hi (hlength ▸ hi)
  exact ⟨path, hpath, hfield⟩

/-- **Which fields of a sort text are paths, and which sorts are refused for their syntax.** The
field of each key is written as a path, and is read as that path unless one of its names in brackets
ends in an odd number of backslashes. With any types a sort is refused for its syntax exactly where
its first key that does not compile has such a name. -/
theorem fields_of_ofText (h : ofText text = .ok s) :
    (∀ k ∈ s.keys, ∃ path : FieldPath, path.Plain ∧ k.field = path.written ∧
      ∀ names, fieldNames k.field = .ok names ↔ path.keepsQuote = false ∧ names = path.names) ∧
    ∀ {n : Nat} (schema : Schema n) (ignoreCase : Bool),
      (∃ e, schema.compileSort ignoreCase s = .error e ∧ e.code = .parse) ↔
        ∃ before k after, s.keys = before ++ k :: after ∧
          (∀ q ∈ before, ∃ key, schema.compileKey q = .ok key) ∧
          ∃ path : FieldPath, path.Plain ∧ k.field = path.written ∧ path.keepsQuote = true := by
  have hpaths := exists_path_of_ofText h
  constructor
  · intro k hk
    obtain ⟨path, hpath, hfield⟩ := hpaths k hk
    refine ⟨path, hpath, hfield, fun names => ?_⟩
    rw [hfield]
    exact hpath.fieldNames_eq_ok
  · intro n schema ignoreCase
    have hsort (e : QueryError) : schema.compileSort ignoreCase s = .error e ↔
        s.keys.mapM schema.compileKey = .error e := by
      unfold Schema.compileSort
      rw [bind_eq_error]
      exact or_iff_left fun ⟨_, _, hok⟩ => nomatch hok
    constructor
    · rintro ⟨e, he, hparse⟩
      obtain ⟨before, k, after, hkeys, hbefore, hk⟩ := mapM_eq_error.1 ((hsort e).1 he)
      obtain ⟨path, hpath, hfield⟩ := hpaths k (by simp [hkeys])
      refine ⟨before, k, after, hkeys, hbefore, path, hpath, hfield, ?_⟩
      have hnames := (Schema.code_compileKey hk).1 hparse
      rw [hfield] at hnames
      by_contra hkeeps
      exact hnames _ (hpath.fieldNames_eq_ok.2 ⟨Bool.eq_false_iff.2 hkeeps, rfl⟩)
    · rintro ⟨before, k, after, hkeys, hbefore, path, hpath, hfield, hkeeps⟩
      have hnames : ∀ names, fieldNames k.field ≠ .ok names := by
        intro names hok
        rw [hfield, hpath.fieldNames_eq_ok, hkeeps] at hok
        cases hok.1
      cases hk : schema.compileKey k with
      | ok key =>
        -- a key that compiles has a path
        obtain ⟨segments, -, hresolve, -⟩ := Schema.compileKey_eq_ok hk
        obtain ⟨names, hok, -⟩ := bind_eq_ok.1 hresolve
        exact absurd (Schema.pathNames_eq_ok.1 hok) (hnames names)
      | error e =>
        have hfails := mapM_eq_error.2 ⟨before, k, after, hkeys, hbefore, hk⟩
        exact ⟨e, (hsort e).2 hfails, (Schema.code_compileKey hk).2 hnames⟩

/-- Two backslashes end the first name in brackets; the one at the end of the second keeps its
quote. -/
theorem fields_of_ofText_slashes : ∃ (text : String) (s : Sorting) (schema : Schema 2),
    ofText text = .ok s ∧
      (∀ k ∈ s.keys, ∃ path : FieldPath, path.Plain ∧ k.field = path.written ∧
        ∀ names, fieldNames k.field = .ok names ↔ path.keepsQuote = false ∧ names = path.names) ∧
      ∃ e, schema.compileSort true s = .error e ∧ e.code = .parse := by
  let text := "-A[\"b\\\\\"],A[\"c\\\"]"
  let schema : Schema 2 := ⟨fun
    | 0 => ⟨"Hero", [("A", .object 1)]⟩
    | 1 => ⟨"Inner", [("b\\", .scalar .string), ("c\\", .scalar .string)]⟩, 0⟩
  let first : SortKey := ⟨"A[\"b\\\\\"]", .descending⟩
  let second : SortKey := ⟨"A[\"c\\\"]", .ascending⟩
  let path : FieldPath := ⟨['A'], [.bracketed ['c', '\\']]⟩
  have htext : ofText text = .ok (.several [first, second]) :=
    toOption_eq_some.1 (by decide +kernel)
  obtain ⟨hfields, hrefused⟩ := fields_of_ofText htext
  have hfirst : (schema.compileKey first).isOk = true := by decide +kernel
  have hpath : path.Plain := by
    refine ⟨⟨'A', [], rfl, by decide, by simp⟩, ?_⟩
    intro s hs
    rw [List.mem_singleton.1 hs]
    intro c hc
    simp only [List.mem_cons, List.not_mem_nil, or_false] at hc
    rcases hc with rfl | rfl <;> decide
  refine ⟨text, _, schema, htext, hfields, (hrefused schema true).2 ?_⟩
  refine ⟨[first], second, [], rfl, ?_, path, hpath, by decide +kernel, by decide⟩
  intro q hq
  rw [List.mem_singleton.1 hq]
  cases hkey : schema.compileKey first with
  | ok key => exact ⟨key, rfl⟩
  | error e => rw [hkey] at hfirst; cases hfirst

/-- **Not every sort that is read has paths for its fields.** The types have the member that the
name in brackets is taken for, and yet the sort is refused for its syntax. -/
theorem exists_field_unread : ∃ (text : String) (s : Sorting) (schema : Schema 2) (e : QueryError),
    ofText text = .ok s ∧ (∃ k ∈ s.keys, ∀ names, fieldNames k.field ≠ .ok names) ∧
      schema.compileSort false s = .error e ∧ e.code = .parse := by
  let schema : Schema 2 := ⟨fun
    | 0 => ⟨"Hero", [("A", .object 1)]⟩
    | 1 => ⟨"Inner", [("b\\", .scalar .string)]⟩, 0⟩
  let k : SortKey := ⟨"A[\"b\\\"]", .ascending⟩
  have htext : ofText "A[\"b\\\"]" = .ok (.single k) := toOption_eq_some.1 (by decide +kernel)
  have hunread : (fieldNames k.field).isOk = false := by decide +kernel
  have hnames : ∀ names, fieldNames k.field ≠ .ok names := by
    intro names hok
    rw [hok] at hunread
    cases hunread
  have hcode : ∀ e, schema.compileKey k = .error e → e.code = .parse :=
    fun e he => (Schema.code_compileKey he).2 hnames
  have hrefused : (schema.compileSort false (.single k)).isOk = false := by decide +kernel
  cases hsort : schema.compileSort false (.single k) with
  | ok o => rw [hsort] at hrefused; cases hrefused
  | error e =>
    have hkey : schema.compileKey k = .error e := by
      rcases bind_eq_error.1 hsort with h | ⟨keys, -, h⟩
      · obtain ⟨before, q, after, hkeys, -, hq⟩ := mapM_eq_error.1 h
        have hmem : q ∈ (Sorting.single k).keys := by rw [hkeys]; simp
        rwa [List.mem_singleton.1 hmem] at hq
      · cases h
    exact ⟨_, _, schema, e, htext, ⟨k, List.mem_singleton_self k, hnames⟩, hsort, hcode e hkey⟩

end Sorting

end Sift
