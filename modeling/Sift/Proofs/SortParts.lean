import Sift.Proofs.SortPattern

/-!
# Sort texts by their parts

* `IsSplit`: the parts of a text between its commas outside quotes; `isSplit_iff`: they are what
  `sortParts` gives.
* `found_loneKey_iff`, `found_keys_iff`: the keys that are found in a part, and in a whole text.
* `SortPattern.mem_keys_iff`: a text matches the pattern of several keys exactly where each of its
  parts matches that of one.
* `Sorting.ofText_parts`: **which texts are sorts, which sort they stand for, and which parts a
  refusal names.**
-/

namespace Sift

open Scan (Reads Takes)
open scoped Computability

/-! ## Splitting at commas -/

/-- Whether the place behind a text is between quotes, if the one before it is or is not. -/
def quotedAfter (quoted : Bool) (cs : List Char) : Bool := quoted != (cs.count '"' % 2 == 1)

/-- Texts in which no comma stands outside quotes. -/
def Sealed (quoted : Bool) (cs : List Char) : Prop :=
  ∀ before after, cs = before ++ ',' :: after → quotedAfter quoted before = true

/-- **The parts of a text between the commas outside quotes**: in front of a comma between two parts
no quote is open, in front of one within a part there is. -/
structure IsSplit (text : List Char) (parts : List (List Char)) : Prop where
  ne_nil : parts ≠ []
  joined : text = [','].intercalate parts
  outside : ∀ part ∈ parts.dropLast, quotedAfter false part = false
  inside : ∀ part ∈ parts, Sealed false part

section Splitting

variable {quoted : Bool} {c : Char} {cs rest acc part : List Char} {parts : List (List Char)}

theorem quotedAfter_nil (quoted : Bool) : quotedAfter quoted [] = quoted := by
  cases quoted <;> rfl

theorem quotedAfter_quote (quoted : Bool) (cs : List Char) :
    quotedAfter quoted ('"' :: cs) = quotedAfter (!quoted) cs := by
  have hcount : ('"' :: cs).count '"' = cs.count '"' + 1 := List.count_cons_self
  unfold quotedAfter
  rw [hcount]
  rcases Nat.mod_two_eq_zero_or_one (cs.count '"') with h | h
  · have hsucc : (cs.count '"' + 1) % 2 = 1 := by omega
    rw [h, hsucc]
    cases quoted <;> rfl
  · have hsucc : (cs.count '"' + 1) % 2 = 0 := by omega
    rw [h, hsucc]
    cases quoted <;> rfl

theorem quotedAfter_of_ne (quoted : Bool) (hc : c ≠ '"') :
    quotedAfter quoted (c :: cs) = quotedAfter quoted cs := by
  unfold quotedAfter
  rw [List.count_cons_of_ne hc]

theorem sealed_nil : Sealed quoted [] := by
  intro before after h
  cases before <;> cases h

theorem sealed_quote : Sealed quoted ('"' :: cs) ↔ Sealed (!quoted) cs := by
  constructor
  · intro h before after hcs
    rw [← quotedAfter_quote]
    exact h ('"' :: before) after (congrArg (List.cons '"') hcs)
  · intro h before after hcs
    cases before with
    | nil => exact absurd (List.cons.inj hcs).1 (by decide)
    | cons d before =>
      obtain ⟨rfl, hrest⟩ := List.cons.inj hcs
      rw [quotedAfter_quote]
      exact h before after hrest

theorem sealed_of_ne (hc : c ≠ '"') :
    Sealed quoted (c :: cs) ↔ (c = ',' → quoted = true) ∧ Sealed quoted cs := by
  constructor
  · intro h
    refine ⟨?_, ?_⟩
    · rintro rfl
      have hnil := h [] cs rfl
      rwa [quotedAfter_nil] at hnil
    · intro before after hcs
      rw [← quotedAfter_of_ne quoted hc]
      exact h (c :: before) after (congrArg (List.cons c) hcs)
  · rintro ⟨hcomma, h⟩ before after hcs
    cases before with
    | nil =>
      rw [quotedAfter_nil]
      exact hcomma (List.cons.inj hcs).1
    | cons d before =>
      obtain ⟨rfl, hrest⟩ := List.cons.inj hcs
      rw [quotedAfter_of_ne quoted hc]
      exact h before after hrest

/-- A comma outside quotes ends a part. -/
theorem sortParts_comma (acc cs : List Char) :
    sortParts false acc (',' :: cs) = acc.reverse :: sortParts false [] cs := by
  rw [sortParts, if_neg (by decide), if_pos (by decide)]

theorem sortParts_quote (quoted : Bool) (acc cs : List Char) :
    sortParts quoted acc ('"' :: cs) = sortParts (!quoted) ('"' :: acc) cs := by
  rw [sortParts, if_pos (by decide)]

theorem sortParts_of_ne (hc : c ≠ '"') (hcomma : c = ',' → quoted = true) :
    sortParts quoted acc (c :: cs) = sortParts quoted (c :: acc) cs := by
  have hinside : ¬((c == ',' && !quoted) = true) := by
    rw [Bool.and_eq_true, beq_iff_eq, Bool.not_eq_true']
    rintro ⟨rfl, hquoted⟩
    rw [hcomma rfl] at hquoted
    cases hquoted
  rw [sortParts, if_neg (by simpa using hc), if_neg hinside]

/-- Over a text without commas outside quotes no part ends. -/
theorem sortParts_append (h : Sealed quoted part) :
    sortParts quoted acc (part ++ rest) =
      sortParts (quotedAfter quoted part) (part.reverse ++ acc) rest := by
  induction part generalizing quoted acc with
  | nil => rw [quotedAfter_nil]; rfl
  | cons c part ih =>
    rw [List.cons_append, List.reverse_cons, List.append_assoc, List.singleton_append]
    by_cases hc : c = '"'
    · subst hc
      rw [sortParts_quote, ih (sealed_quote.1 h), quotedAfter_quote]
    · obtain ⟨hcomma, hrest⟩ := (sealed_of_ne hc).1 h
      rw [sortParts_of_ne hc hcomma, ih hrest, quotedAfter_of_ne quoted hc]

/-- The parts of a text that has been put together from parts. -/
theorem sortParts_joined : ∀ {part : List Char} {parts : List (List Char)},
    (∀ p ∈ part :: parts, Sealed false p) →
      (∀ p ∈ (part :: parts).dropLast, quotedAfter false p = false) →
      sortParts false [] (part ++ parts.flatMap (',' :: ·)) = part :: parts
  | part, [], hinside, _ => by
    rw [sortParts_append (hinside part List.mem_cons_self), List.append_nil, List.flatMap_nil,
      sortParts, List.reverse_reverse]
  | part, next :: parts, hinside, houtside => by
    rw [List.forall_mem_cons] at hinside
    rw [List.dropLast_cons_cons, List.forall_mem_cons] at houtside
    rw [sortParts_append hinside.1, houtside.1, List.append_nil, List.flatMap_cons,
      List.cons_append, sortParts_comma, List.reverse_reverse,
      sortParts_joined hinside.2 houtside.2]

/-- What stands before in the first part aside, the parts put together are the text. -/
theorem exists_sortParts (quoted : Bool) (acc cs : List Char) : ∃ part parts,
    sortParts quoted acc cs = (acc.reverse ++ part) :: parts ∧
      cs = part ++ parts.flatMap (',' :: ·) ∧ Sealed quoted part ∧
      (parts ≠ [] → quotedAfter quoted part = false) ∧ (∀ p ∈ parts, Sealed false p) ∧
      ∀ p ∈ parts.dropLast, quotedAfter false p = false := by
  induction cs generalizing quoted acc with
  | nil =>
    exact ⟨[], [], by rw [sortParts, List.append_nil], rfl, sealed_nil, by simp, by simp, by simp⟩
  | cons c cs ih =>
    by_cases hquote : c = '"'
    · subst hquote
      obtain ⟨part, parts, hparts, hcs, hsealed, hend, hrest⟩ := ih (!quoted) ('"' :: acc)
      refine ⟨'"' :: part, parts, ?_, congrArg (List.cons '"') hcs, sealed_quote.2 hsealed, ?_,
        hrest⟩
      · rw [sortParts_quote, hparts, List.reverse_cons, List.append_assoc, List.singleton_append]
      · intro hne
        rw [quotedAfter_quote]
        exact hend hne
    · by_cases hcomma : c = ',' → quoted = true
      · obtain ⟨part, parts, hparts, hcs, hsealed, hend, hrest⟩ := ih quoted (c :: acc)
        refine ⟨c :: part, parts, ?_, congrArg (List.cons c) hcs,
          (sealed_of_ne hquote).2 ⟨hcomma, hsealed⟩, ?_, hrest⟩
        · rw [sortParts_of_ne hquote hcomma, hparts, List.reverse_cons, List.append_assoc,
            List.singleton_append]
        · intro hne
          rw [quotedAfter_of_ne quoted hquote]
          exact hend hne
      · -- a comma outside quotes
        rw [Classical.not_imp, Bool.not_eq_true] at hcomma
        obtain ⟨rfl, rfl⟩ := hcomma
        obtain ⟨part, parts, hparts, hcs, hsealed, hend, hinside, houtside⟩ := ih false []
        refine ⟨[], part :: parts, ?_, ?_, sealed_nil, fun _ => rfl,
          List.forall_mem_cons.2 ⟨hsealed, hinside⟩, ?_⟩
        · rw [sortParts_comma, hparts, List.append_nil]
          rfl
        · rw [List.nil_append, List.flatMap_cons, hcs]
          rfl
        · cases parts with
          | nil => simp
          | cons next parts =>
            rw [List.dropLast_cons_cons]
            exact List.forall_mem_cons.2 ⟨hend (by simp), houtside⟩

theorem intercalate_comma (part : List Char) (parts : List (List Char)) :
    [','].intercalate (part :: parts) = part ++ parts.flatMap (',' :: ·) := by
  have h := intercalate_cons [','] id part parts
  rwa [List.map_id] at h

/-- **A text has exactly one split**, and that is what `sortParts` gives. -/
theorem isSplit_iff {text : List Char} : IsSplit text parts ↔ sortParts false [] text = parts := by
  constructor
  · rintro ⟨hne, rfl, houtside, hinside⟩
    obtain ⟨part, parts, rfl⟩ := List.exists_cons_of_ne_nil hne
    rw [intercalate_comma]
    exact sortParts_joined hinside houtside
  · rintro rfl
    obtain ⟨part, parts, hparts, hcs, hsealed, hend, hinside, houtside⟩ :=
      exists_sortParts false [] text
    rw [List.reverse_nil, List.nil_append] at hparts
    rw [hparts]
    refine ⟨by simp, by rw [intercalate_comma, ← hcs], ?_,
      List.forall_mem_cons.2 ⟨hsealed, hinside⟩⟩
    cases parts with
    | nil => simp
    | cons next parts =>
      rw [List.dropLast_cons_cons]
      exact List.forall_mem_cons.2 ⟨hend (by simp), houtside⟩

end Splitting

/-! ## Parts in which a key is written -/

section Neutral

variable {quoted : Bool} {as bs cs part : List Char}

theorem quotedAfter_append (quoted : Bool) (as bs : List Char) :
    quotedAfter quoted (as ++ bs) = quotedAfter (quotedAfter quoted as) bs := by
  induction as generalizing quoted with
  | nil => rw [quotedAfter_nil, List.nil_append]
  | cons a as ih =>
    rw [List.cons_append]
    by_cases ha : a = '"'
    · subst ha
      rw [quotedAfter_quote, quotedAfter_quote, ih]
    · rw [quotedAfter_of_ne quoted ha, quotedAfter_of_ne quoted ha, ih]

theorem Sealed.append (ha : Sealed quoted as) (hb : Sealed (quotedAfter quoted as) bs) :
    Sealed quoted (as ++ bs) := by
  induction as generalizing quoted with
  | nil =>
    rw [quotedAfter_nil] at hb
    exact hb
  | cons a as ih =>
    rw [List.cons_append]
    by_cases hquote : a = '"'
    · subst hquote
      rw [quotedAfter_quote] at hb
      exact sealed_quote.2 (ih (sealed_quote.1 ha) hb)
    · rw [quotedAfter_of_ne quoted hquote] at hb
      obtain ⟨hcomma, ha⟩ := (sealed_of_ne hquote).1 ha
      exact (sealed_of_ne hquote).2 ⟨hcomma, ih ha hb⟩

/-- Texts without quotes leave off where they begin. -/
theorem quotedAfter_of_plain (quoted : Bool) (h : ∀ c ∈ cs, c ≠ '"') :
    quotedAfter quoted cs = quoted := by
  have hcount : cs.count '"' = 0 := List.count_eq_zero.2 fun hmem => h _ hmem rfl
  rw [quotedAfter, hcount]
  cases quoted <;> rfl

/-- **Texts with whole quotes**, and without a comma outside them. -/
structure Neutral (cs : List Char) : Prop where
  inside : Sealed false cs
  closed : quotedAfter false cs = false

theorem Neutral.append (ha : Neutral as) (hb : Neutral bs) : Neutral (as ++ bs) := by
  refine ⟨ha.inside.append ?_, ?_⟩
  · rw [ha.closed]
    exact hb.inside
  · rw [quotedAfter_append, ha.closed, hb.closed]

theorem neutral_of_plain (h : ∀ c ∈ cs, c ≠ '"' ∧ c ≠ ',') : Neutral cs := by
  refine ⟨?_, quotedAfter_of_plain false fun c hc => (h c hc).1⟩
  rintro before after rfl
  exact absurd rfl (h ',' (by simp)).2

theorem neutral_of_isWord (h : ∀ c ∈ cs, Text.isWord c = true) : Neutral cs := by
  refine neutral_of_plain fun c hc => ?_
  constructor <;> rintro rfl <;> exact absurd (h _ hc) (by decide)

theorem neutral_blanks (h : cs ∈ SortPattern.blanks) : Neutral cs := by
  refine neutral_of_plain fun c hc => ?_
  have hblank := SortPattern.mem_oneOf_kstar.1 h c hc
  constructor <;> rintro rfl <;> exact absurd hblank (by decide)

/-- The commas of a name in brackets stand between its quotes. -/
theorem neutral_step {s : PathStep} (h : s.Plain) : Neutral s.written := by
  cases s with
  | dotted name =>
    have hname : Neutral name := neutral_of_isWord (Grammar.IsIdentifier.isWord h)
    have hdot : Neutral ['.'] := neutral_of_plain (by simp)
    exact hdot.append hname
  | bracketed inner =>
    have hplain : ∀ c ∈ inner, c ≠ '"' := by
      rintro c hc rfl
      exact absurd (h _ hc) (by decide)
    have hquoted : quotedAfter true inner = true := quotedAfter_of_plain true hplain
    have hsealed : Sealed true inner := by
      rintro before after rfl
      exact quotedAfter_of_plain true fun c hc => hplain c (List.mem_append_left _ hc)
    have htext : (PathStep.bracketed inner).written = ['[', '"'] ++ (inner ++ ['"', ']']) := by
      simp [PathStep.written]
    have hopen : quotedAfter false ['[', '"'] = true := by decide
    have hclose : quotedAfter true ['"', ']'] = false := by decide
    rw [htext]
    refine ⟨Sealed.append ?_ (Sealed.append ?_ ?_), ?_⟩
    · exact (sealed_of_ne (by decide)).2 ⟨by decide, sealed_quote.2 sealed_nil⟩
    · rw [hopen]
      exact hsealed
    · rw [hopen, hquoted]
      exact sealed_quote.2 ((sealed_of_ne (by decide)).2 ⟨by decide, sealed_nil⟩)
    · rw [quotedAfter_append, quotedAfter_append, hopen, hquoted, hclose]

theorem neutral_path {p : FieldPath} (h : p.Plain) : Neutral p.written.toList := by
  have hsteps : ∀ steps : List PathStep, (∀ s ∈ steps, s.Plain) →
      Neutral (steps.flatMap PathStep.written) := by
    intro steps hplain
    induction steps with
    | nil => exact neutral_of_plain (by simp)
    | cons s steps ih =>
      rw [List.forall_mem_cons] at hplain
      rw [List.flatMap_cons]
      exact (neutral_step hplain.1).append (ih hplain.2)
  rw [FieldPath.written, String.toList_ofList]
  exact (neutral_of_isWord h.first.isWord).append (hsteps p.steps h.steps)

theorem SortKey.IsWritten.neutral {k : SortKey} (h : k.IsWritten part) : Neutral part := by
  obtain ⟨front, signed, back, hfront, ⟨sign, p, hsign, hp, -, rfl⟩, hback, rfl⟩ := h
  have hsigns : Neutral sign := by
    refine neutral_of_plain fun c hc => ?_
    cases hd : k.direction <;> rw [hd] at hsign
    · rcases hsign with rfl | rfl
      · cases hc
      · rw [List.mem_singleton.1 hc]
        decide
    · rw [hsign] at hc
      rw [List.mem_singleton.1 hc]
      decide
  exact (neutral_blanks hfront).append ((hsigns.append (neutral_path hp)).append
    (neutral_blanks hback))

theorem neutral_of_written {ks : List SortKey} {parts : List (List Char)}
    (h : List.Forall₂ SortKey.IsWritten ks parts) : ∀ part ∈ parts, Neutral part := by
  induction h with
  | nil => simp
  | cons hk _ ih => exact List.forall_mem_cons.2 ⟨hk.neutral, ih⟩

end Neutral

/-! ## What is found in a whole text -/

namespace Scan

variable {α β : Type} {p : Scan α} {f : α → Scan β} {R : α → List Char → Prop} {a : α}
  {text : List Char}

/-- Scanners that find something only where they come to the end of the text. -/
def ToEnd (p : Scan α) : Prop :=
  ∀ here a there, (p here).found = some (a, there) → there.rest = []

theorem toEnd_ending (a : α) : ToEnd (do ending; return a) := by
  intro here b there h
  obtain ⟨u, last, hending, h⟩ := found_bind_eq_some.1 h
  cases h
  unfold ending notBefore at hending
  split at hending
  · next hrest =>
    cases hending
    exact hrest
  · cases hending

theorem ToEnd.bind (h : ∀ a, ToEnd (f a)) : ToEnd (p >>= f) := by
  intro here b there hfound
  obtain ⟨a, next, -, hnext⟩ := found_bind_eq_some.1 hfound
  exact h a next b there hnext

theorem found?_eq_some : p.found? text = some a ↔
    ∃ there, (p (Cursor.start text)).found = some (a, there) := by
  rw [found?, Option.map_eq_some_iff]
  constructor
  · rintro ⟨⟨_, there⟩, hfound, rfl⟩
    exact ⟨there, hfound⟩
  · rintro ⟨there, hfound⟩
    exact ⟨(a, there), hfound, rfl⟩

/-- What is found in a whole text is found for the whole of it. -/
theorem Takes.of_found? (hp : Takes p R) (hend : ToEnd p) (h : p.found? text = some a) :
    R a text := by
  obtain ⟨there, hfound⟩ := found?_eq_some.1 h
  obtain ⟨cs, hcs, -, hR⟩ := hp _ a there trivial hfound
  rw [hend _ a there hfound, List.append_nil] at hcs
  rw [show text = cs from hcs]
  exact hR

theorem Reads.found? (h : Reads p (· = a) text []) : p.found? text = some a := by
  obtain ⟨_, there, hfound, -, -, rfl⟩ := h (Cursor.start text) rfl
  exact found?_eq_some.2 ⟨there, hfound⟩

end Scan

namespace SortGrammar

variable {k : SortKey} {ks : List SortKey} {part text : List Char}

/-- **Which key is found in a part**: the one that is written there. -/
theorem found_loneKey_iff : loneKey.found? part = some k ↔ k.IsWritten part := by
  have hend : Scan.ToEnd loneKey :=
    .bind fun _ => .bind fun k => .bind fun _ => Scan.toEnd_ending k
  exact ⟨fun h => takes_loneKey.of_found? hend h, fun h => (reads_loneKey h).found?⟩

/-- **Which keys are found in a text**: those that are written in its parts. -/
theorem found_keys_iff : keys.found? text = some ks ↔
    List.Forall₂ SortKey.IsWritten ks (sortParts false [] text) := by
  have hend : Scan.ToEnd keys :=
    .bind fun _ => .bind fun first => .bind fun rest => .bind fun _ =>
      Scan.toEnd_ending (first :: rest)
  constructor
  · intro h
    obtain ⟨k, rest, part, parts, rfl, hwritten, rfl⟩ := takes_keys.of_found? hend h
    have hneutral := neutral_of_written hwritten
    have hparts := sortParts_joined (fun p hp => (hneutral p hp).inside)
      fun p hp => (hneutral p (List.dropLast_subset _ hp)).closed
    rw [hparts]
    exact hwritten
  · intro h
    obtain ⟨part, parts, hparts, hcs, -⟩ := exists_sortParts false [] text
    rw [List.reverse_nil, List.nil_append] at hparts
    rw [hparts] at h
    cases h with
    | cons hk hks =>
      rw [hcs]
      exact (reads_keys (.cons hk hks)).found?

end SortGrammar

/-! ## The pattern of several keys -/

namespace SortPattern

variable {cs part text : List Char}

instance : DecidablePred (· ∈ key) := fun part =>
  decidable_of_iff ((SortGrammar.loneKey.found? part).isSome = true) <| by
    change _ ↔ part ∈ key
    rw [mem_key, Option.isSome_iff_exists]
    exact exists_congr fun _ => SortGrammar.found_loneKey_iff

theorem found_loneKey_isNone : (SortGrammar.loneKey.found? part).isNone = true ↔ part ∉ key := by
  rw [mem_key, Option.isNone_iff_eq_none, Option.eq_none_iff_forall_ne_some, not_exists]
  exact forall_congr' fun _ => not_congr SortGrammar.found_loneKey_iff

/-- What is repeated may be cut at either of its two halves. -/
theorem kstar_mul_slide (a b : Language Char) : (a * b)∗ * a = a * (b * a)∗ := by
  apply le_antisymm
  · refine kstar_mul_le (le_mul_of_one_le_right' one_le_kstar) ?_
    calc a * b * (a * (b * a)∗) = a * (b * a * (b * a)∗) := by simp only [mul_assoc]
      _ ≤ a * (b * a)∗ := mul_le_mul_right mul_kstar_le_kstar a
  · refine mul_kstar_le (le_mul_of_one_le_left' one_le_kstar) ?_
    calc (a * b)∗ * a * (b * a) = (a * b)∗ * (a * b) * a := by simp only [mul_assoc]
      _ ≤ (a * b)∗ * a := mul_le_mul_left kstar_mul_le_kstar a

/-- The white space around a comma belongs to the keys before and behind it. -/
theorem keys_eq : keys = key * ({[',']} * key)∗ := by
  have hslide := kstar_mul_slide blanks ({[',']} * (blanks * (SortPattern.sign * field)))
  have hnext : {[',']} * (blanks * (SortPattern.sign * field)) * blanks = {[',']} * key := by
    simp only [key, mul_assoc]
  rw [hnext] at hslide
  calc keys = blanks * (SortPattern.sign * (field *
        ((blanks * ({[',']} * (blanks * (SortPattern.sign * field))))∗ * blanks))) := rfl
    _ = blanks * (SortPattern.sign * (field * (blanks * ({[',']} * key)∗))) := by rw [hslide]
    _ = key * ({[',']} * key)∗ := by simp only [key, mul_assoc]

theorem mem_kstar_comma : cs ∈ ({[',']} * key)∗ ↔
    ∃ parts : List (List Char), (∀ part ∈ parts, part ∈ key) ∧ cs = parts.flatMap (',' :: ·) := by
  rw [Language.mem_kstar]
  constructor
  · rintro ⟨pieces, rfl, hpieces⟩
    induction pieces with
    | nil => exact ⟨[], by simp, rfl⟩
    | cons piece pieces ih =>
      rw [List.forall_mem_cons] at hpieces
      obtain ⟨⟨_, rfl, part, hpart, rfl⟩, hrest⟩ := hpieces
      obtain ⟨parts, hparts, heq⟩ := ih hrest
      refine ⟨part :: parts, List.forall_mem_cons.2 ⟨hpart, hparts⟩, ?_⟩
      rw [List.flatten_cons, heq, List.flatMap_cons]
      rfl
  · rintro ⟨parts, hparts, rfl⟩
    refine ⟨parts.map (',' :: ·), List.flatMap_def, ?_⟩
    intro piece hpiece
    obtain ⟨part, hpart, rfl⟩ := List.mem_map.1 hpiece
    exact ⟨[','], rfl, part, hparts part hpart, rfl⟩

theorem neutral_of_mem_key (h : part ∈ key) : Neutral part := by
  obtain ⟨k, hk⟩ := mem_key.1 h
  exact hk.neutral

/-- **A text matches the pattern of several keys** exactly where each of its parts matches that of
one. -/
theorem mem_keys_iff : text ∈ keys ↔ ∀ part ∈ sortParts false [] text, part ∈ key := by
  rw [keys_eq, Language.mem_mul]
  constructor
  · rintro ⟨part, hpart, rest, hrest, rfl⟩
    obtain ⟨parts, hparts, rfl⟩ := mem_kstar_comma.1 hrest
    have hall : ∀ p ∈ part :: parts, p ∈ key := List.forall_mem_cons.2 ⟨hpart, hparts⟩
    have hsplit := sortParts_joined (fun p hp => (neutral_of_mem_key (hall p hp)).inside)
      fun p hp => (neutral_of_mem_key (hall p (List.dropLast_subset _ hp))).closed
    rw [hsplit]
    exact hall
  · intro h
    obtain ⟨part, parts, hsplit, hcs, -⟩ := exists_sortParts false [] text
    rw [List.reverse_nil, List.nil_append] at hsplit
    rw [hsplit, List.forall_mem_cons] at h
    exact ⟨part, h.1, _, mem_kstar_comma.2 ⟨parts, h.2, rfl⟩, hcs.symm⟩

end SortPattern

/-! ## Sorts -/

/-- A part holds one key only. -/
theorem SortKey.IsWritten.unique {k k' : SortKey} {part : List Char} (h : k.IsWritten part)
    (h' : k'.IsWritten part) : k = k' := by
  have hfound := SortGrammar.found_loneKey_iff.2 h
  rw [SortGrammar.found_loneKey_iff.2 h'] at hfound
  exact (Option.some.inj hfound).symm

/-- Where each part holds a key, there are keys for all of them. -/
theorem exists_forall₂_isWritten {parts : List (List Char)}
    (h : ∀ part ∈ parts, part ∈ SortPattern.key) :
    ∃ ks, List.Forall₂ SortKey.IsWritten ks parts := by
  induction parts with
  | nil => exact ⟨[], .nil⟩
  | cons part parts ih =>
    rw [List.forall_mem_cons] at h
    obtain ⟨k, hk⟩ := SortPattern.mem_key.1 h.1
    obtain ⟨ks, hks⟩ := ih h.2
    exact ⟨k :: ks, .cons hk hks⟩

theorem mem_key_of_forall₂ {ks : List SortKey} {parts : List (List Char)}
    (h : List.Forall₂ SortKey.IsWritten ks parts) : ∀ part ∈ parts, part ∈ SortPattern.key := by
  induction h with
  | nil => simp
  | cons hk _ ih => exact List.forall_mem_cons.2 ⟨SortPattern.mem_key.2 ⟨_, hk⟩, ih⟩

namespace Sorting

theorem keys_ofKeys (ks : List SortKey) : (ofKeys ks).keys = ks := by
  unfold ofKeys
  split <;> rfl

theorem ofKeys_eq_single {ks : List SortKey} : (∃ k, ofKeys ks = .single k) ↔ ks.length = 1 := by
  rw [List.length_eq_one_iff]
  constructor
  · rintro ⟨k, h⟩
    have hkeys := keys_ofKeys ks
    rw [h] at hkeys
    exact ⟨k, hkeys.symm⟩
  · rintro ⟨k, rfl⟩
    exact ⟨k, rfl⟩

variable {text : String} {s : Sorting} {e : SyntaxError}

/-- **Which sort a text stands for**: its keys are those in the parts. -/
theorem ofText_eq_ok : ofText text = .ok s ↔ ∃ ks, s = ofKeys ks ∧
    List.Forall₂ SortKey.IsWritten ks (sortParts false [] text.toList) := by
  unfold ofText
  constructor
  · intro h
    split at h
    · next ks hfound =>
      cases h
      exact ⟨ks, rfl, SortGrammar.found_keys_iff.1 hfound⟩
    · cases h
  · rintro ⟨ks, rfl, h⟩
    rw [SortGrammar.found_keys_iff.2 h]

theorem ofText_eq_error (h : ofText text = .error e) :
    e = .invalidSort (((sortParts false [] text.toList).filter (· ∉ SortPattern.key)).map
      String.ofList) ∧ ∃ part ∈ sortParts false [] text.toList, part ∉ SortPattern.key := by
  have hwrong : ∃ part ∈ sortParts false [] text.toList, part ∉ SortPattern.key := by
    by_contra hnone
    push Not at hnone
    obtain ⟨ks, hks⟩ := exists_forall₂_isWritten hnone
    rw [ofText_eq_ok.2 ⟨ks, rfl, hks⟩] at h
    cases h
  refine ⟨?_, hwrong⟩
  unfold ofText at h
  split at h
  · cases h
  · cases h
    have hfilter : ((sortParts false [] text.toList).filter fun part =>
        (SortGrammar.loneKey.found? part).isNone) =
          (sortParts false [] text.toList).filter (· ∉ SortPattern.key) := by
      refine List.filter_congr fun part _ => ?_
      rw [Bool.eq_iff_iff, decide_eq_true_eq]
      exact SortPattern.found_loneKey_isNone
    simp only [hfilter]

/-- **Sort texts, by their parts between the commas outside quotes.** A text is a sort exactly where
each of its parts matches the pattern of a key, which is where it matches the pattern of several
keys. The sort has the keys that are written in the parts, in order, and is a single one exactly
where there is one part. A refusal names the parts that do not match, in order, and there is one. -/
theorem ofText_parts (text : String) : ∃ parts,
    (∀ ps, IsSplit text.toList ps ↔ ps = parts) ∧
    (text.toList ∈ SortPattern.keys ↔ ∀ part ∈ parts, part ∈ SortPattern.key) ∧
    ((∃ s, ofText text = .ok s) ↔ ∀ part ∈ parts, part ∈ SortPattern.key) ∧
    (∀ s, ofText text = .ok s → List.Forall₂ SortKey.IsWritten s.keys parts ∧
      ((∃ k, s = .single k) ↔ parts.length = 1)) ∧
    ∀ e, ofText text = .error e →
      e = .invalidSort ((parts.filter (· ∉ SortPattern.key)).map String.ofList) ∧
        ∃ part ∈ parts, part ∉ SortPattern.key := by
  refine ⟨sortParts false [] text.toList, fun ps => isSplit_iff.trans eq_comm,
    SortPattern.mem_keys_iff, ⟨?_, ?_⟩, ?_, fun e h => ofText_eq_error h⟩
  · rintro ⟨s, h⟩
    obtain ⟨ks, -, hks⟩ := ofText_eq_ok.1 h
    exact mem_key_of_forall₂ hks
  · intro h
    obtain ⟨ks, hks⟩ := exists_forall₂_isWritten h
    exact ⟨ofKeys ks, ofText_eq_ok.2 ⟨ks, rfl, hks⟩⟩
  · intro s h
    obtain ⟨ks, rfl, hks⟩ := ofText_eq_ok.1 h
    rw [keys_ofKeys, ofKeys_eq_single, hks.length_eq]
    exact ⟨hks, Iff.rfl⟩

/-- The quotes of the first part hide a comma, and two parts are no keys. -/
example : ofText "Henchman[\"a,b\"],-,+1Age" = .error (.invalidSort ["-", "+1Age"]) := by
  decide +kernel

end Sorting

end Sift
