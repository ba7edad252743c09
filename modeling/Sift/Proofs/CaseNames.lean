import Mathlib.Data.List.Forall2
import Sift.Derive.Naming
import Sift.Proofs.Taken

/-!
# ASCII names in other cases

* `Letter.ofText_ascii`: of an ASCII text every character is a letter by itself.
* `NameCase.flatten_words`: the words of a name are the name without what stands between them.
* `NameCase.apply_eq_intercalate`: in another case they are joined again, with other capitals.
* `NameCase.isIdentifier_apply_iff`: **which names are identifiers in another case**;
  `NameCase.toLower_apply_eq_iff`: which become a given word.
-/

namespace Sift

/-! ## ASCII characters -/

namespace Text

/-- What holds of all ASCII characters is found out by trying each. -/
theorem forall_ascii {P : Char → Prop} (h : ∀ n < 0x80, P (Char.ofNat n)) {c : Char}
    (hc : c.toNat < 0x80) : P c :=
  Char.ofNat_toNat c ▸ h c.toNat hc

theorem toNat_lt_of_isWord {c : Char} (h : isWord c = true) : c.toNat < 0x80 := by
  have hcodes : (((decide (65 ≤ c.val ∧ c.val ≤ 90) ||
      (decide (97 ≤ c.val) && decide (c.val ≤ 122))) ||
      (decide (48 ≤ c.val) && decide (c.val ≤ 57))) || c == '_') = true := h
  simp only [Bool.or_eq_true, Bool.and_eq_true, decide_eq_true_eq, beq_iff_eq,
    UInt32.le_iff_toNat_le] at hcodes
  change (((65 ≤ c.toNat ∧ c.toNat ≤ 90) ∨ (97 ≤ c.toNat ∧ c.toNat ≤ 122)) ∨
    (48 ≤ c.toNat ∧ c.toNat ≤ 57)) ∨ c = '_' at hcodes
  rcases hcodes with hcodes | rfl
  · omega
  · decide

theorem toLower_toUpper {c : Char} (h : c.toNat < 0x80) : c.toUpper.toLower = c.toLower :=
  forall_ascii (P := fun c => c.toUpper.toLower = c.toLower) (by decide) h

theorem toLower_toLower {c : Char} (h : c.toNat < 0x80) : c.toLower.toLower = c.toLower :=
  forall_ascii (P := fun c => c.toLower.toLower = c.toLower) (by decide) h

theorem isWordStart_toLower {c : Char} (h : c.toNat < 0x80) :
    isWordStart c.toLower = isWordStart c :=
  forall_ascii (P := fun c => isWordStart c.toLower = isWordStart c) (by decide) h

/-- A table that begins behind ASCII has no ASCII character. -/
theorem inRanges_ascii {ranges : List (Nat × Nat)} {n : Nat}
    (hranges : ranges.all (0x80 ≤ ·.1) = true) (hn : n < 0x80) : inRanges ranges n = false := by
  refine List.any_eq_false.2 fun r hr => ?_
  have hfirst : 0x80 ≤ r.1 := of_decide_eq_true (List.all_eq_true.1 hranges r hr)
  simp only [Bool.and_eq_true, decide_eq_true_eq, not_and]
  omega

theorem lowerAfter_ascii {cs : List Char} (before : List Char) (h : ∀ c ∈ cs, c.toNat < 0x80) :
    lowerAfter before cs = cs.map Char.toLower := by
  induction cs generalizing before with
  | nil => rfl
  | cons c cs ih =>
    obtain ⟨hc, hcs⟩ := List.forall_mem_cons.1 h
    have hsigma : c.toNat ≠ 0x3A3 := by omega
    rw [lowerAfter, if_neg hsigma, lowerChar, if_pos hc, ih _ hcs]
    rfl

theorem lower_ascii {cs : List Char} (h : ∀ c ∈ cs, c.toNat < 0x80) :
    lower cs = cs.map Char.toLower :=
  lowerAfter_ascii [] h

theorem upper_ascii {cs : List Char} (h : ∀ c ∈ cs, c.toNat < 0x80) :
    upper cs = cs.map Char.toUpper := by
  rw [upper, List.map_eq_flatMap]
  refine List.flatMap_congr fun c hc => ?_
  rw [upperChar, if_pos (h c hc)]

end Text

theorem IsName.ascii {cs : List Char} (h : IsName cs) : ∀ c ∈ cs, c.toNat < 0x80 :=
  fun c hc => Text.toNat_lt_of_isWord (h c hc)

/-! ## Letters and words -/

namespace Letter

open Text

theorem joins_ascii {b c : Char} (before : List Char) (hb : b.toNat < 0x80) (hc : c.toNat < 0x80) :
    joins (b :: before) c = false := by
  have hattached : isAttached c = false := by
    have hjoiner : (c.toNat == 0x200D) = false := beq_eq_false_iff_ne.2 (by omega)
    rw [isAttached, isExtender, inRanges_ascii (by decide +kernel) hc,
      inRanges_ascii (by decide +kernel) hc, inRanges_ascii (by decide +kernel) hc, hjoiner]
    rfl
  have hsyllable : joinsSyllable b.toNat c.toNat = false := by
    have hopen : isSyllable b.toNat = false := by
      rw [isSyllable, decide_eq_false (by omega), Bool.false_and]
    rw [joinsSyllable, isOpenSyllable, hopen, inRanges_ascii (by decide) hb,
      inRanges_ascii (by decide) hb, inRanges_ascii (by decide) hb]
    rfl
  rw [joins, hattached, hsyllable, inRanges_ascii (by decide +kernel) hb,
    inRanges_ascii (by decide +kernel) hc]
  rfl

theorem ofTextFrom_ascii {b : Char} {cs : List Char} (h : ∀ c ∈ b :: cs, c.toNat < 0x80) :
    ofTextFrom [b] cs = (b :: cs).map fun c => [c] := by
  induction cs generalizing b with
  | nil => rfl
  | cons c cs ih =>
    obtain ⟨hb, hcs⟩ := List.forall_mem_cons.1 h
    have hjoins := joins_ascii [] hb (hcs c List.mem_cons_self)
    rw [ofTextFrom, hjoins, if_neg Bool.false_ne_true, ih hcs]
    rfl

/-- **Of an ASCII text every character is a letter by itself.** -/
theorem ofText_ascii {cs : List Char} (h : ∀ c ∈ cs, c.toNat < 0x80) :
    ofText cs = cs.map fun c => [c] := by
  cases cs with
  | nil => rfl
  | cons c cs => exact ofTextFrom_ascii h

end Letter

namespace NameCase

variable {name word : List Char}

/-- What stands between words is left out, and everything else is kept. -/
theorem flatten_wordsFrom (word : List Letter) (last : Option Letter) (ls : List Letter) :
    (wordsFrom word last ls).flatten = word.reverse ++ ls.filter (!·.isSeparator) := by
  induction ls generalizing word last with
  | nil => simp [wordsFrom]
  | cons l rest ih =>
    unfold wordsFrom
    cases hl : l.isSeparator with
    | true => simp [hl, ih]
    | false =>
      simp only [Bool.false_eq_true, if_false]
      split <;> simp [hl, ih]

/-- **The words of an ASCII name** are together the name without the marks between them. -/
theorem flatten_words (h : IsName name) : (words name).flatten = name.filter (· ≠ '_') := by
  have hseparator : ∀ c ∈ name, (!Letter.isSeparator [c]) = decide (c ≠ '_') := by
    intro c hc
    have hword := h c hc
    have hdash : c ≠ '-' := by rintro rfl; revert hword; decide
    have hblank : c ≠ ' ' := by rintro rfl; revert hword; decide
    rw [Letter.isSeparator, Bool.eq_iff_iff]
    simp [hdash, hblank]
  rw [words, List.flatten_filter_ne_nil, ← List.flatten_flatten, flatten_wordsFrom,
    List.reverse_nil, List.nil_append, Letter.ofText_ascii h.ascii, List.filter_map,
    ← List.flatMap_def, List.flatMap_singleton']
  exact List.filter_congr hseparator

theorem ne_nil_of_mem_words (h : word ∈ words name) : word ≠ [] :=
  of_decide_eq_true (List.mem_filter.1 h).2

theorem isName_of_mem_words (h : IsName name) (hword : word ∈ words name) : IsName word := by
  intro c hc
  have hmem : c ∈ (words name).flatten := List.mem_flatten_of_mem hword hc
  rw [flatten_words h] at hmem
  exact h c (List.mem_of_mem_filter hmem)

/-! ## Words in another case -/

/-- What a case puts between words. -/
def joint : NameCase → List Char
  | snake | screamingSnake => ['_']
  | kebab => ['-']
  | pascal | camel | flat | upperFlat => []

/-- The words of a name with the capitals of a case. -/
def pieces (c : NameCase) (name : List Char) : List (List Char) :=
  match c, words name with
  | pascal, ws => ws.map capitalized
  | camel, [] => []
  | camel, w :: ws => Text.lower w :: ws.map capitalized
  | snake, ws | kebab, ws | flat, ws => ws.map Text.lower
  | screamingSnake, ws | upperFlat, ws => ws.map Text.upper

theorem intercalate_nil_left (ws : List (List Char)) : List.intercalate [] ws = ws.flatten := by
  cases ws with
  | nil => rfl
  | cons w ws =>
    have h := intercalate_cons [] id w ws
    rw [List.map_id] at h
    rw [h, List.flatten_cons, ← List.flatMap_id]
    rfl

/-- **A name in another case** is its words with the capitals of the case and what this puts
between them. -/
theorem apply_eq_intercalate (c : NameCase) (name : List Char) :
    c.apply name = c.joint.intercalate (c.pieces name) := by
  unfold apply pieces
  cases c with
  | snake | screamingSnake | kebab => rfl
  | pascal | flat | upperFlat => rw [joint, intercalate_nil_left, ← List.flatMap_def]
  | camel =>
    cases words name with
    | nil => rfl
    | cons w ws => rw [joint, intercalate_nil_left, List.flatten_cons, ← List.flatMap_def]

section Same

variable (h : IsName word)
include h

theorem sameIgnoringCase_lower : Text.sameIgnoringCase (Text.lower word) word = true := by
  rw [Text.sameIgnoringCase, Text.lower_ascii h.ascii, List.map_map, beq_iff_eq]
  exact List.map_congr_left fun c hc => Text.toLower_toLower (h.ascii c hc)

theorem sameIgnoringCase_upper : Text.sameIgnoringCase (Text.upper word) word = true := by
  rw [Text.sameIgnoringCase, Text.upper_ascii h.ascii, List.map_map, beq_iff_eq]
  exact List.map_congr_left fun c hc => Text.toLower_toUpper (h.ascii c hc)

theorem sameIgnoringCase_capitalized : Text.sameIgnoringCase (capitalized word) word = true := by
  cases word with
  | nil => rfl
  | cons c rest =>
    have hc : c.toNat < 0x80 := h.ascii c List.mem_cons_self
    have hrest := sameIgnoringCase_lower h.tail
    rw [Text.sameIgnoringCase, beq_iff_eq] at hrest
    rw [Text.sameIgnoringCase, capitalized, Text.upperChar, if_pos hc, List.singleton_append,
      List.map_cons, List.map_cons, Text.toLower_toUpper hc, hrest, beq_self_eq_true]

end Same

/-- What changes capitals alone in a name does so in several. -/
theorem forall₂_map_same {text : List Char → List Char}
    (htext : ∀ w, IsName w → Text.sameIgnoringCase (text w) w = true) {ws : List (List Char)}
    (hws : ∀ w ∈ ws, IsName w) :
    List.Forall₂ (fun p w => Text.sameIgnoringCase p w = true) (ws.map text) ws :=
  List.forall₂_map_left_iff.2 (List.forall₂_same.2 fun w hw => htext w (hws w hw))

/-- In another case the words of an ASCII name differ in capitals alone. -/
theorem forall₂_pieces (c : NameCase) (h : IsName name) :
    List.Forall₂ (fun p w => Text.sameIgnoringCase p w = true) (c.pieces name) (words name) := by
  have hwords : ∀ w ∈ words name, IsName w := fun w hw => isName_of_mem_words h hw
  unfold pieces
  cases c with
  | snake | kebab | flat => exact forall₂_map_same (fun _ => sameIgnoringCase_lower) hwords
  | screamingSnake | upperFlat => exact forall₂_map_same (fun _ => sameIgnoringCase_upper) hwords
  | pascal => exact forall₂_map_same (fun _ => sameIgnoringCase_capitalized) hwords
  | camel =>
    revert hwords
    cases words name with
    | nil => exact fun _ => .nil
    | cons w ws =>
      intro hwords
      obtain ⟨hw, hws⟩ := List.forall_mem_cons.1 hwords
      exact .cons (sameIgnoringCase_lower hw)
        (forall₂_map_same (fun _ => sameIgnoringCase_capitalized) hws)

/-! ## Identifiers in another case -/

end NameCase

/-- What may begin a name. -/
def BeginsName (cs : List Char) : Prop := ∃ c ∈ cs.head?, Text.isWordStart c = true

/-- Whether a text may begin a name has nothing to do with its capitals. -/
theorem beginsName_of_same {p w : List Char} (hp : IsName p) (hw : IsName w)
    (h : Text.sameIgnoringCase p w = true) : BeginsName p ↔ BeginsName w := by
  have hlower : p.map Char.toLower = w.map Char.toLower := beq_iff_eq.1 h
  cases p <;> cases w
  · rfl
  · cases hlower
  · cases hlower
  · next a p b w =>
    have hhead : a.toLower = b.toLower := (List.cons.inj hlower).1
    have hstart : Text.isWordStart a = Text.isWordStart b := by
      rw [← Text.isWordStart_toLower (hp.ascii a List.mem_cons_self), hhead,
        Text.isWordStart_toLower (hw.ascii b List.mem_cons_self)]
    simp [BeginsName, hstart]

namespace Grammar

theorem isIdentifier_iff {cs : List Char} : IsIdentifier cs ↔ IsName cs ∧ BeginsName cs := by
  constructor
  · intro h
    refine ⟨h.isWord, ?_⟩
    obtain ⟨c, rest, rfl, hc, -⟩ := h
    exact ⟨c, rfl, hc⟩
  · rintro ⟨hname, c, hhead, hc⟩
    obtain ⟨rest, rfl⟩ := List.head?_eq_some_iff.1 hhead
    exact ⟨c, rest, rfl, hc, hname.tail⟩

/-- Names with something between them are an identifier if the first begins like one, and if it is
the only one or a name may hold what is between them. -/
theorem isIdentifier_intercalate {sep p : List Char} {ps : List (List Char)} (hp : p ≠ [])
    (hnames : ∀ q ∈ p :: ps, IsName q) :
    IsIdentifier (sep.intercalate (p :: ps)) ↔ BeginsName p ∧ (ps = [] ∨ IsName sep) := by
  have hjoined : sep.intercalate (p :: ps) = p ++ ps.flatMap fun q => sep ++ q := by
    have h := intercalate_cons sep id p ps
    rwa [List.map_id] at h
  obtain ⟨hfirst, hrest⟩ := List.forall_mem_cons.1 hnames
  have hname : IsName (p ++ ps.flatMap fun q => sep ++ q) ↔ ps = [] ∨ IsName sep := by
    constructor
    · intro h
      cases ps with
      | nil => exact .inl rfl
      | cons q ps => exact .inr fun c hc => h c (by simp [hc])
    · rintro (rfl | hsep)
      · simpa using hfirst
      · intro c hc
        simp only [List.mem_append, List.mem_flatMap] at hc
        rcases hc with hc | ⟨q, hq, hc | hc⟩
        · exact hfirst c hc
        · exact hsep c hc
        · exact hrest q hq c hc
  rw [isIdentifier_iff, hjoined, hname, BeginsName, List.head?_append_of_ne_nil _ hp, and_comm]
  rfl

end Grammar

namespace NameCase

variable {name : List Char}

/-- Names with other capitals are names. -/
theorem isName_of_forall₂ {ps ws : List (List Char)}
    (h : List.Forall₂ (fun p w => Text.sameIgnoringCase p w = true) ps ws)
    (hws : ∀ w ∈ ws, IsName w) : ∀ p ∈ ps, IsName p := by
  induction h with
  | nil => exact List.forall_mem_nil _
  | cons hpw _ ih =>
    obtain ⟨hw, hws⟩ := List.forall_mem_cons.1 hws
    exact List.forall_mem_cons.2 ⟨hw.of_lower (beq_iff_eq.1 hpw), ih hws⟩

theorem map_toLower_flatten {ps ws : List (List Char)}
    (h : List.Forall₂ (fun p w => Text.sameIgnoringCase p w = true) ps ws) :
    ps.flatten.map Char.toLower = ws.flatten.map Char.toLower := by
  induction h with
  | nil => rfl
  | cons hpw _ ih =>
    rw [List.flatten_cons, List.flatten_cons, List.map_append, List.map_append, ih,
      beq_iff_eq.1 hpw]

theorem isName_joint_iff (c : NameCase) : IsName c.joint ↔ c ≠ kebab := by
  cases c <;> simp [joint, IsName] <;> decide

/-- **Which ASCII names are identifiers in another case**: those whose first character, marks
between words apart, is a letter. With dashes between words it takes a single word. -/
theorem isIdentifier_apply_iff (c : NameCase) (h : IsName name) :
    Grammar.IsIdentifier (c.apply name) ↔
      BeginsName (name.filter (· ≠ '_')) ∧ (c = kebab → (words name).length = 1) := by
  rw [apply_eq_intercalate, ← flatten_words h]
  have hpieces := forall₂_pieces c h
  have hnames : ∀ w ∈ words name, IsName w := fun w hw => isName_of_mem_words h hw
  have hne : ∀ w ∈ words name, w ≠ [] := fun w hw => ne_nil_of_mem_words hw
  generalize c.pieces name = ps at hpieces ⊢
  generalize words name = ws at hpieces hnames hne ⊢
  have hvariants : ∀ p ∈ ps, IsName p := isName_of_forall₂ hpieces hnames
  cases hpieces with
  | nil => simp [Grammar.isIdentifier_iff, BeginsName]
  | @cons p w ps ws hpw hps =>
    have hw : w ≠ [] := hne w List.mem_cons_self
    have hp : p ≠ [] := by
      rintro rfl
      cases w with
      | nil => exact hw rfl
      | cons => cases hpw
    have hbegins : BeginsName p ↔ BeginsName (w :: ws).flatten := by
      rw [beginsName_of_same (hvariants p List.mem_cons_self) (hnames w List.mem_cons_self) hpw,
        BeginsName, BeginsName, List.flatten_cons, List.head?_append_of_ne_nil _ hw]
    have hsingle : ps = [] ↔ (w :: ws).length = 1 := by
      rw [← List.length_eq_zero_iff, hps.length_eq, List.length_cons, Nat.add_eq_right]
    rw [Grammar.isIdentifier_intercalate hp hvariants, hbegins, isName_joint_iff, hsingle,
      imp_iff_or_not]

theorem joint_cases (c : NameCase) : c.joint = [] ∨ c.joint = ['_'] ∨ c.joint = ['-'] := by
  cases c <;> decide

/-- **Which ASCII names become a word in another case**, capitals apart: those with the letters of
the word and marks between them. Where the case puts something between words it takes a single
one. -/
theorem toLower_apply_eq_iff (c : NameCase) (h : IsName name) {k : List Char} (hne : k ≠ [])
    (hmark : '_' ∉ k) (hdash : '-' ∉ k) :
    (c.apply name).map Char.toLower = k ↔
      (name.filter (· ≠ '_')).map Char.toLower = k ∧
        (c.joint = [] ∨ (words name).length = 1) := by
  rw [apply_eq_intercalate, ← flatten_words h]
  have hpieces := forall₂_pieces c h
  generalize c.pieces name = ps at hpieces ⊢
  generalize words name = ws at hpieces ⊢
  have hlower := map_toLower_flatten hpieces
  have hlength := hpieces.length_eq
  match ps, hlower, hlength with
  | [], hlower, _ =>
    rw [← hlower]
    exact ⟨fun hk => absurd hk.symm hne, fun hk => absurd hk.1.symm hne⟩
  | [p], hlower, hlength =>
    rw [List.intercalate_singleton, ← hlower, List.flatten_singleton]
    exact (and_iff_left (.inr hlength.symm)).symm
  | p :: q :: ps, hlower, hlength =>
    by_cases hjoint : c.joint = []
    · rw [hjoint, intercalate_nil_left, hlower]
      exact (and_iff_left (.inl rfl)).symm
    · -- what stands between the first two words is still there in lower case
      obtain ⟨j, hj, hsame, hk⟩ : ∃ j, c.joint = [j] ∧ j.toLower = j ∧ j ∉ k := by
        rcases joint_cases c with hnil | hmarks | hdashes
        · exact absurd hnil hjoint
        · exact ⟨'_', hmarks, by decide, hmark⟩
        · exact ⟨'-', hdashes, by decide, hdash⟩
      constructor
      · intro heq
        have hmem : j.toLower ∈ k := by
          rw [← heq, hj]
          exact List.mem_map_of_mem (by simp)
        exact absurd (hsame ▸ hmem) hk
      · rintro ⟨-, hnil | hsingle⟩
        · exact absurd hnil hjoint
        · rw [← hlength] at hsingle
          cases hsingle

end NameCase

end Sift
