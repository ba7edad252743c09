import Mathlib.Computability.Language
import Sift.Proofs.TreeText
import Sift.Sorting.Reader

/-!
# The pattern of sort texts

* `SortPattern.key`, `SortPattern.keys`: the texts of a sort key, and of several with commas
  between them, as regular languages.
* `SortKey.IsWritten`: a key as it stands in a part of a text, with its sign and the white space
  around it.
* `takes_loneKey`, `reads_loneKey`: the scanner of a key takes exactly the parts in which one is
  written.
* `takes_keys`, `reads_keys`: the scanner of several keys takes such parts with commas between them.
-/

namespace Sift

open Scan (Reads ReadsMany Fails Takes TakesFrom found_named)
open scoped Computability

/-! ## The pattern -/

namespace SortPattern

/-- The texts of one character of a class. -/
def oneOf (accepts : Char → Bool) : Language Char := {cs | ∃ c, accepts c = true ∧ cs = [c]}

/-- White space. -/
def blanks : Language Char := (oneOf Text.isAsciiBlank)∗

/-- Names. -/
def name : Language Char := oneOf Text.isWordStart * (oneOf Text.isWord)∗

/-- The characters of a name in brackets: neither a quote nor a closing bracket. -/
def isInner (c : Char) : Bool := c != '"' && c != ']'

/-- Names in brackets and quotes. -/
def bracketed : Language Char := {['[', '"']} * (oneOf isInner)∗ * {['"', ']']}

/-- Paths of fields. -/
def field : Language Char := name * ({['.']} * name + bracketed)∗

/-- A sign, which may be missing. -/
def sign : Language Char := 1 + ({['-']} + {['+']})

/-- A key with white space around it. -/
def key : Language Char := blanks * (sign * (field * blanks))

/-- Keys with commas between them, and white space around these. -/
def keys : Language Char :=
  blanks * (sign * (field * ((blanks * ({[',']} * (blanks * (sign * field))))∗ * blanks)))

end SortPattern

/-- The steps of the paths of sort keys. -/
def PathStep.Plain : PathStep → Prop
  | dotted name => Grammar.IsIdentifier name
  | bracketed inner => ∀ c ∈ inner, SortPattern.isInner c = true

/-- **The paths of sort keys**: no name in brackets holds a quote or a closing bracket. -/
structure FieldPath.Plain (p : FieldPath) : Prop where
  first : Grammar.IsIdentifier p.first
  steps : ∀ s ∈ p.steps, s.Plain

namespace SortPattern

theorem mem_singleton {a cs : List Char} : cs ∈ ({a} : Language Char) ↔ cs = a := Iff.rfl

/-- As many characters of a class as there are. -/
theorem mem_oneOf_kstar {accepts : Char → Bool} {cs : List Char} :
    cs ∈ (oneOf accepts)∗ ↔ ∀ c ∈ cs, accepts c = true := by
  rw [Language.mem_kstar]
  constructor
  · rintro ⟨pieces, rfl, hpieces⟩ c hc
    obtain ⟨piece, hmem, hc⟩ := List.mem_flatten.1 hc
    obtain ⟨d, hd, rfl⟩ := hpieces piece hmem
    rw [List.mem_singleton.1 hc]
    exact hd
  · intro h
    refine ⟨cs.map fun c => [c], List.flatMap_singleton' cs |>.symm, ?_⟩
    intro piece hpiece
    obtain ⟨c, hc, rfl⟩ := List.mem_map.1 hpiece
    exact ⟨c, h c hc, rfl⟩

theorem mem_name {cs : List Char} : cs ∈ name ↔ Grammar.IsIdentifier cs := by
  rw [name, Language.mem_mul]
  constructor
  · rintro ⟨_, ⟨c, hc, rfl⟩, rest, hrest, rfl⟩
    exact ⟨c, rest, rfl, hc, mem_oneOf_kstar.1 hrest⟩
  · rintro ⟨c, rest, rfl, hc, hrest⟩
    exact ⟨[c], ⟨c, hc, rfl⟩, rest, mem_oneOf_kstar.2 hrest, rfl⟩

theorem mem_bracketed {cs : List Char} : cs ∈ bracketed ↔
    ∃ inner, (∀ c ∈ inner, isInner c = true) ∧ cs = (PathStep.bracketed inner).written := by
  rw [bracketed, Language.mem_mul]
  constructor
  · rintro ⟨_, ⟨_, rfl, inner, hinner, rfl⟩, _, rfl, rfl⟩
    exact ⟨inner, mem_oneOf_kstar.1 hinner, rfl⟩
  · rintro ⟨inner, hinner, rfl⟩
    exact ⟨['[', '"'] ++ inner, ⟨_, rfl, inner, mem_oneOf_kstar.2 hinner, rfl⟩, _, rfl, rfl⟩

/-- A name after a point, or one in brackets and quotes. -/
theorem mem_step {cs : List Char} : cs ∈ ({['.']} * name + bracketed : Language Char) ↔
    ∃ s : PathStep, s.Plain ∧ cs = s.written := by
  rw [Language.mem_add, Language.mem_mul, mem_bracketed]
  constructor
  · rintro (⟨_, rfl, cs, hname, rfl⟩ | ⟨inner, hinner, rfl⟩)
    · exact ⟨.dotted cs, mem_name.1 hname, rfl⟩
    · exact ⟨.bracketed inner, hinner, rfl⟩
  · rintro ⟨s, hs, rfl⟩
    cases s with
    | dotted cs => exact Or.inl ⟨['.'], rfl, cs, mem_name.2 hs, rfl⟩
    | bracketed inner => exact Or.inr ⟨inner, hs, rfl⟩

theorem mem_steps {cs : List Char} : cs ∈ ({['.']} * name + bracketed : Language Char)∗ ↔
    ∃ steps : List PathStep, (∀ s ∈ steps, s.Plain) ∧ cs = steps.flatMap PathStep.written := by
  rw [Language.mem_kstar]
  constructor
  · rintro ⟨pieces, rfl, hpieces⟩
    induction pieces with
    | nil => exact ⟨[], by simp, rfl⟩
    | cons piece pieces ih =>
      rw [List.forall_mem_cons] at hpieces
      obtain ⟨s, hs, rfl⟩ := mem_step.1 hpieces.1
      obtain ⟨steps, hsteps, heq⟩ := ih hpieces.2
      refine ⟨s :: steps, List.forall_mem_cons.2 ⟨hs, hsteps⟩, ?_⟩
      rw [List.flatten_cons, heq, List.flatMap_cons]
  · rintro ⟨steps, hsteps, rfl⟩
    refine ⟨steps.map PathStep.written, List.flatMap_def, ?_⟩
    intro piece hpiece
    obtain ⟨s, hs, rfl⟩ := List.mem_map.1 hpiece
    exact mem_step.2 ⟨s, hsteps s hs, rfl⟩

/-- **The fields of sort keys** are the written forms of plain paths. -/
theorem mem_field {cs : List Char} :
    cs ∈ field ↔ ∃ path : FieldPath, path.Plain ∧ cs = path.written.toList := by
  rw [field, Language.mem_mul]
  constructor
  · rintro ⟨first, hfirst, rest, hrest, rfl⟩
    obtain ⟨steps, hsteps, rfl⟩ := mem_steps.1 hrest
    exact ⟨⟨first, steps⟩, ⟨mem_name.1 hfirst, hsteps⟩, String.toList_ofList.symm⟩
  · rintro ⟨path, hpath, rfl⟩
    refine ⟨path.first, mem_name.2 hpath.first, _, mem_steps.2 ⟨path.steps, hpath.steps, rfl⟩, ?_⟩
    exact String.toList_ofList.symm

end SortPattern

/-! ## Keys as they stand in a text -/

/-- The signs of a direction; what goes up needs none. -/
def Direction.HasSign : Direction → List Char → Prop
  | ascending, sign => sign = [] ∨ sign = ['+']
  | descending, sign => sign = ['-']

namespace SortKey

/-- A key with its sign. -/
def IsSigned (k : SortKey) (cs : List Char) : Prop :=
  ∃ sign path, k.direction.HasSign sign ∧ FieldPath.Plain path ∧ k.field = path.written ∧
    cs = sign ++ path.written.toList

/-- **A key as it stands in a part of a text**, with white space around it. -/
def IsWritten (k : SortKey) (part : List Char) : Prop :=
  ∃ front cs back, front ∈ SortPattern.blanks ∧ k.IsSigned cs ∧ back ∈ SortPattern.blanks ∧
    part = front ++ (cs ++ back)

end SortKey

namespace SortPattern

variable {cs : List Char}

theorem mem_sign {sign : List Char} :
    sign ∈ SortPattern.sign ↔ ∃ d : Direction, d.HasSign sign := by
  constructor
  · rintro (h | h | h)
    · exact ⟨.ascending, Or.inl h⟩
    · exact ⟨.descending, h⟩
    · exact ⟨.ascending, Or.inr h⟩
  · rintro ⟨d, h⟩
    cases d with
    | ascending => exact h.imp id Or.inr
    | descending => exact Or.inr (Or.inl h)

/-- A sign and a field. -/
theorem mem_signed : cs ∈ SortPattern.sign * field ↔ ∃ k : SortKey, k.IsSigned cs := by
  rw [Language.mem_mul]
  constructor
  · rintro ⟨sign, hsign, written, hfield, rfl⟩
    obtain ⟨d, hd⟩ := mem_sign.1 hsign
    obtain ⟨path, hpath, rfl⟩ := mem_field.1 hfield
    exact ⟨⟨path.written, d⟩, sign, path, hd, hpath, rfl, rfl⟩
  · rintro ⟨k, sign, path, hsign, hpath, -, rfl⟩
    exact ⟨sign, mem_sign.2 ⟨k.direction, hsign⟩, _, mem_field.2 ⟨path, hpath, rfl⟩, rfl⟩

/-- **The parts that match the pattern of a key** are those in which a key is written. -/
theorem mem_key : cs ∈ key ↔ ∃ k : SortKey, k.IsWritten cs := by
  have hassoc : key = blanks * ((SortPattern.sign * field) * blanks) := by
    rw [key, mul_assoc]
  rw [hassoc, Language.mem_mul]
  constructor
  · rintro ⟨front, hfront, _, ⟨signed, hsigned, back, hback, rfl⟩, rfl⟩
    obtain ⟨k, hk⟩ := mem_signed.1 hsigned
    exact ⟨k, front, signed, back, hfront, hk, hback, rfl⟩
  · rintro ⟨k, front, signed, back, hfront, hk, hback, rfl⟩
    exact ⟨front, hfront, _, ⟨signed, mem_signed.2 ⟨k, hk⟩, back, hback, rfl⟩, rfl⟩

end SortPattern

/-! ## What is found -/

namespace SortGrammar

variable {cs front rest : List Char}

theorem takes_blanks : Takes blanks fun _ cs => cs ∈ SortPattern.blanks := by
  refine (Grammar.takes_manyChar Text.isAsciiBlank).bind fun _ cs hcs => Scan.takes_pure ?_
  rw [List.append_nil]
  exact SortPattern.mem_oneOf_kstar.2 hcs.2

theorem takes_name : Takes name fun found cs => found = cs ∧ Grammar.IsIdentifier cs := by
  intro here found there _ hfound
  have hnamed : (Grammar.identifier here).found = some (found, there) :=
    (found_named name here).trans hfound
  exact Grammar.takes_identifier here found there trivial hnamed

theorem takes_step : Takes step fun found cs =>
    ∃ s : PathStep, s.Plain ∧ found = s.written ∧ cs = s.written := by
  refine TakesFrom.orElse ?_ ?_
  · refine (Scan.takes_exactly _).bind fun _ a ha => takes_name.bind fun name b hb =>
      Scan.takes_pure ?_
    obtain ⟨rfl, hname⟩ := hb
    refine ⟨.dotted name, hname, rfl, ?_⟩
    rw [ha, List.append_nil]
    rfl
  · refine (Scan.takes_exactly _).bind fun _ a ha => (Scan.takes_exactly _).bind fun _ b hb =>
      (Grammar.takes_manyChar _).bind fun inner c hc => (Scan.takes_exactly _).bind fun _ d hd =>
        (Scan.takes_exactly _).bind fun _ e he => Scan.takes_pure ?_
    obtain ⟨rfl, hinner⟩ := hc
    refine ⟨.bracketed inner, hinner, rfl, ?_⟩
    rw [ha, hb, hd, he, List.append_nil]
    rfl

theorem takes_path : Takes path fun found cs =>
    ∃ p : FieldPath, p.Plain ∧ found = p.written.toList ∧ cs = p.written.toList := by
  have hsteps := takes_step.many (T := fun found cs => ∃ steps : List PathStep,
    (∀ s ∈ steps, s.Plain) ∧ found.flatten = steps.flatMap PathStep.written ∧
      cs = steps.flatMap PathStep.written) ⟨[], by simp, rfl, rfl⟩ (by
    rintro _ pieces _ cs ⟨s, hs, rfl, rfl⟩ ⟨steps, hsteps, hpieces, rfl⟩
    refine ⟨s :: steps, List.forall_mem_cons.2 ⟨hs, hsteps⟩, ?_, List.flatMap_cons.symm⟩
    rw [List.flatten_cons, hpieces, List.flatMap_cons])
  refine takes_name.bind fun first a ha => hsteps.bind fun pieces b hb => Scan.takes_pure ?_
  obtain ⟨rfl, hfirst⟩ := ha
  obtain ⟨steps, hsteps, hpieces, rfl⟩ := hb
  refine ⟨⟨first, steps⟩, ⟨hfirst, hsteps⟩, ?_, ?_⟩
  · rw [hpieces, FieldPath.written, String.toList_ofList]
  · rw [List.append_nil, FieldPath.written, String.toList_ofList]

theorem takes_key : Takes key fun k cs => k.IsSigned cs := by
  have hsign : Takes (Scan.optional (Scan.char fun c => c == '-' || c == '+')) fun found cs =>
      Direction.HasSign (if found = some '-' then .descending else .ascending) cs := by
    refine (Scan.takes_char _).optional ?_ (Or.inl rfl)
    rintro c _ ⟨hc, rfl⟩
    rw [Bool.or_eq_true, beq_iff_eq, beq_iff_eq] at hc
    rcases hc with rfl | rfl
    · exact rfl
    · exact Or.inr rfl
  refine hsign.bind fun found a ha => takes_path.bind fun written b hb => Scan.takes_pure ?_
  obtain ⟨p, hp, rfl, rfl⟩ := hb
  refine ⟨a, p, ha, hp, String.ofList_toList, ?_⟩
  rw [List.append_nil]

/-- White space, a comma, white space and a key. -/
theorem takes_next : Takes (do blanks; Scan.exactly ','; blanks; key) fun k cs =>
    ∃ back front signed, back ∈ SortPattern.blanks ∧ front ∈ SortPattern.blanks ∧
      k.IsSigned signed ∧ cs = back ++ ',' :: (front ++ signed) := by
  refine takes_blanks.bind fun _ back hback => (Scan.takes_exactly _).bind fun _ b hb =>
    takes_blanks.bind fun _ front hfront => takes_key.mono fun k signed hk => ?_
  refine ⟨back, front, signed, hback, hfront, hk, ?_⟩
  rw [hb]
  rfl

/-- **What a scanner of several keys takes**: parts with commas between them, in each of which one
of the keys is written. -/
theorem takes_keys : Takes keys fun ks cs => ∃ k rest part parts, ks = k :: rest ∧
    List.Forall₂ SortKey.IsWritten (k :: rest) (part :: parts) ∧
      cs = part ++ parts.flatMap (',' :: ·) := by
  -- the white space before a comma belongs to the part before it
  have hnext := takes_next.many (T := fun ks cs => ∀ last ∈ SortPattern.blanks, ∃ back parts,
    back ∈ SortPattern.blanks ∧ List.Forall₂ SortKey.IsWritten ks parts ∧
      cs ++ last = back ++ parts.flatMap (',' :: ·))
    (fun last hlast => ⟨last, [], hlast, .nil, by simp⟩) (by
    rintro k ks _ cs ⟨back, front, signed, hback, hfront, hk, rfl⟩ hrest last hlast
    obtain ⟨back', parts, hback', hparts, heq⟩ := hrest last hlast
    refine ⟨back, (front ++ (signed ++ back')) :: parts, hback,
      .cons ⟨front, signed, back', hfront, hk, hback', rfl⟩ hparts, ?_⟩
    rw [List.append_assoc, heq, List.flatMap_cons]
    simp only [List.append_assoc, List.cons_append])
  refine takes_blanks.bind fun _ front hfront => takes_key.bind fun k signed hk =>
    hnext.bind fun ks b hb => takes_blanks.bind fun _ last hlast =>
      (Scan.takes_notBefore _).bind fun _ e he => Scan.takes_pure ?_
  obtain ⟨back, parts, hback, hparts, heq⟩ := hb last hlast
  refine ⟨k, ks, front ++ (signed ++ back), parts, rfl,
    .cons ⟨front, signed, back, hfront, hk, hback, rfl⟩ hparts, ?_⟩
  rw [he, List.append_nil, List.append_nil, heq]
  simp only [List.append_assoc]

theorem takes_loneKey : Takes loneKey fun k cs => k.IsWritten cs := by
  refine takes_blanks.bind fun _ front hfront => takes_key.bind fun k signed hk =>
    takes_blanks.bind fun _ back hback => (Scan.takes_notBefore _).bind fun _ e he =>
      Scan.takes_pure ?_
  refine ⟨front, signed, back, hfront, hk, hback, ?_⟩
  rw [he, List.append_nil, List.append_nil]

/-! ### Reading them again -/

theorem reads_blanks {P : Unit → Prop} (hP : P ()) (hfront : front ∈ SortPattern.blanks)
    (hrest : ∀ c ∈ rest.head?, Text.isAsciiBlank c = false) :
    Reads blanks P (front ++ rest) rest := by
  have hall : ∀ c ∈ front, Text.isAsciiBlank c = true := SortPattern.mem_oneOf_kstar.1 hfront
  have hmany := (Scan.readsMany_char Text.isAsciiBlank (front ++ rest)).many
  have hdrop : (front ++ rest).dropWhile Text.isAsciiBlank = rest := by
    rw [List.dropWhile_append_of_pos hall]
    exact Scan.dropWhile_of_head hrest
  rw [hdrop] at hmany
  exact hmany.bind fun _ _ => Reads.pure hP

theorem reads_name (h : Grammar.IsIdentifier cs) (hrest : EndsName rest) :
    Reads name (· = cs) (cs ++ rest) rest := by
  intro here hhere
  obtain ⟨found, there, hfound, h⟩ := Grammar.reads_identifier h hrest here hhere
  exact ⟨found, there, (found_named name here).symm.trans hfound, h⟩

theorem reads_step {s : PathStep} (h : s.Plain) (hrest : EndsName rest) :
    Reads step (· = s.written) (s.written ++ rest) rest := by
  cases s with
  | dotted cs =>
    refine Reads.orElse_left (Reads.exactly_bind ?_)
    exact (reads_name h hrest).bind_eq (Reads.pure rfl)
  | bracketed inner =>
    have htext : (PathStep.bracketed inner).written ++ rest =
        '[' :: '"' :: (inner ++ '"' :: ']' :: rest) := by
      simp [PathStep.written]
    have hmany := (Scan.readsMany_char SortPattern.isInner (inner ++ '"' :: ']' :: rest)).many
    rw [List.takeWhile_append_of_pos h, List.dropWhile_append_of_pos h] at hmany
    rw [htext]
    refine Reads.orElse_right (Scan.fails_exactly (by simp)).bind ?_
    refine Reads.exactly_bind (Reads.exactly_bind (hmany.bind_eq ?_))
    refine Reads.exactly_bind (Reads.exactly_bind (Reads.pure ?_))
    rw [PathStep.written, List.takeWhile_cons_of_neg (by decide), List.append_nil]

theorem reads_path {p : FieldPath} (h : p.Plain) (hrest : Grammar.EndsPath rest) :
    Reads path (· = p.written.toList) (p.written.toList ++ rest) rest := by
  have hsteps : ∀ {steps : List PathStep}, (∀ s ∈ steps, s.Plain) →
      ReadsMany step (· = steps.map PathStep.written)
        (steps.flatMap PathStep.written ++ rest) rest := by
    intro steps hplain
    induction steps with
    | nil =>
      have hdot : Fails (Scan.exactly '.') rest := Scan.fails_exactly fun c hc => (hrest c hc).2.2
      have hbracket : Fails (Scan.exactly '[') rest :=
        Scan.fails_exactly fun c hc => (hrest c hc).2.1
      exact ReadsMany.nil (Fails.orElse hdot.bind hbracket.bind) rfl
    | cons s steps ih =>
      rw [List.forall_mem_cons] at hplain
      rw [List.flatMap_cons, List.append_assoc]
      refine ReadsMany.cons (reads_step hplain.1 (Grammar.endsName_steps steps hrest)) ?_
        (ih hplain.2) ?_
      · have hpos : 0 < s.written.length := by cases s <;> simp [PathStep.written]
        simp only [List.length_append]
        omega
      · rintro _ _ rfl rfl
        rfl
  unfold FieldPath.written
  rw [String.toList_ofList, List.append_assoc]
  refine (reads_name h.first (Grammar.endsName_steps p.steps hrest)).bind_eq ?_
  refine (hsteps h.steps).many.bind_eq (Reads.pure ?_)
  rw [List.flatMap_def]

/-- A name begins a path. -/
theorem head_written {p : FieldPath} (h : p.Plain) :
    ∃ c cs, p.written.toList = c :: cs ∧ Text.isWordStart c = true := by
  obtain ⟨c, cs, hfirst, hc, -⟩ := h.first
  refine ⟨c, cs ++ p.steps.flatMap PathStep.written, ?_, hc⟩
  rw [FieldPath.written, hfirst, String.toList_ofList, List.cons_append]

theorem reads_key {k : SortKey} (h : k.IsSigned cs) (hrest : Grammar.EndsPath rest) :
    Reads key (· = k) (cs ++ rest) rest := by
  obtain ⟨sign, p, hsign, hp, hfield, rfl⟩ := h
  have hpath := reads_path hp hrest
  rw [List.append_assoc]
  -- the sign that is read tells the direction
  have hread : ∃ found, Reads (Scan.optional (Scan.char fun c => c == '-' || c == '+'))
      (· = found) (sign ++ (p.written.toList ++ rest)) (p.written.toList ++ rest) ∧
        (if found = some '-' then Direction.descending else .ascending) = k.direction := by
    cases hd : k.direction with
    | ascending =>
      rw [hd] at hsign
      rcases hsign with rfl | rfl
      · obtain ⟨c, cs, hcs, hc⟩ := head_written hp
        have hother : (c == '-' || c == '+') = false := by
          rw [Bool.or_eq_false_iff, beq_eq_false_iff_ne, beq_eq_false_iff_ne]
          constructor <;> rintro rfl <;> exact absurd hc (by decide)
        refine ⟨none, Reads.optional_none (Scan.fails_char ?_) rfl, rfl⟩
        rw [hcs]
        intro d hd
        cases hd
        exact hother
      · exact ⟨some '+', Reads.optional_some (Reads.char rfl rfl), rfl⟩
    | descending =>
      rw [hd] at hsign
      cases hsign
      exact ⟨some '-', Reads.optional_some (Reads.char rfl rfl), rfl⟩
  obtain ⟨found, hread, hdirection⟩ := hread
  refine hread.bind_eq (hpath.bind_eq (Reads.pure ?_))
  rw [hdirection, String.ofList_toList, ← hfield]

/-- The white space of sort texts is none of the characters of a path. -/
theorem not_path_of_isAsciiBlank {c : Char} (h : Text.isAsciiBlank c = true) :
    Text.isWord c = false ∧ c ≠ '[' ∧ c ≠ '.' := by
  have hcontrol : ∀ n < 14, 9 ≤ n → Text.isWord (Char.ofNat n) = false ∧
      Char.ofNat n ≠ '[' ∧ Char.ofNat n ≠ '.' := by decide
  simp only [Text.isAsciiBlank, Bool.or_eq_true, Bool.and_eq_true, decide_eq_true_eq,
    beq_iff_eq] at h
  rcases h with ⟨hmin, hmax⟩ | rfl
  · rw [← Char.ofNat_toNat c]
    exact hcontrol c.toNat (by omega) hmin
  · decide

/-- Behind a path stands white space, a comma or nothing. -/
theorem endsPath_blanks {back : List Char} (hback : back ∈ SortPattern.blanks)
    (hrest : ∀ c ∈ rest.head?, c = ',') : Grammar.EndsPath (back ++ rest) := by
  intro c hc
  cases back with
  | nil =>
    obtain rfl := hrest c hc
    decide
  | cons d back =>
    cases hc
    exact not_path_of_isAsciiBlank (SortPattern.mem_oneOf_kstar.1 hback _ List.mem_cons_self)

/-- No white space begins a key. -/
theorem isAsciiBlank_head_signed {k : SortKey} (h : k.IsSigned cs) :
    ∀ c ∈ (cs ++ rest).head?, Text.isAsciiBlank c = false := by
  obtain ⟨sign, p, hsign, hp, -, rfl⟩ := h
  obtain ⟨c, cs, hcs, hc⟩ := head_written hp
  have hword : Text.isAsciiBlank c = false := by
    cases hblank : Text.isAsciiBlank c with
    | false => rfl
    | true =>
      have hword := Text.isWord_of_isWordStart hc
      rw [(not_path_of_isAsciiBlank hblank).1] at hword
      cases hword
  have hsigns : sign = [] ∨ sign = ['+'] ∨ sign = ['-'] := by
    cases hd : k.direction <;> rw [hd] at hsign
    · exact hsign.imp id Or.inl
    · exact Or.inr (Or.inr hsign)
  intro d hd
  rcases hsigns with rfl | rfl | rfl
  · rw [hcs] at hd
    cases hd
    exact hword
  · cases hd
    decide
  · cases hd
    decide

/-- White space and a key behind it. -/
theorem reads_blanks_key {β : Type} {Q : β → Prop} {after : List Char} {k : SortKey}
    {f : SortKey → Scan β} (hfront : front ∈ SortPattern.blanks) (h : k.IsSigned cs)
    (hrest : Grammar.EndsPath rest) (hf : Reads (f k) Q rest after) :
    Reads (do blanks; let k ← key; f k) Q (front ++ (cs ++ rest)) after :=
  Reads.bind (P := fun _ => True) (reads_blanks trivial hfront (isAsciiBlank_head_signed h))
    fun _ _ => (reads_key h hrest).bind_eq hf

/-- White space at the end of a text. -/
theorem reads_blanks_ending {β : Type} {Q : β → Prop} {back : List Char} {b : β}
    (hback : back ∈ SortPattern.blanks) (hQ : Q b) :
    Reads (do blanks; Scan.ending; return b) Q back [] := by
  have hblanks : Reads blanks (fun _ => True) (back ++ []) [] :=
    reads_blanks trivial hback (by simp)
  rw [List.append_nil] at hblanks
  refine hblanks.bind fun _ _ => ?_
  exact Reads.bind (P := fun _ => True) (Reads.notBefore (by simp) trivial) fun _ _ =>
    Reads.pure hQ

theorem reads_loneKey {k : SortKey} {part : List Char} (h : k.IsWritten part) :
    Reads loneKey (· = k) part [] := by
  obtain ⟨front, signed, back, hfront, hk, hback, rfl⟩ := h
  have hends : Grammar.EndsPath (back ++ []) := endsPath_blanks hback (by simp)
  rw [List.append_nil] at hends
  exact reads_blanks_key hfront hk hends (reads_blanks_ending hback rfl)

/-- The keys behind the first. The white space behind the last of them is left. -/
theorem readsMany_next {ks : List SortKey} {parts : List (List Char)}
    (h : List.Forall₂ SortKey.IsWritten ks parts) : ∀ back ∈ SortPattern.blanks,
      ∃ last ∈ SortPattern.blanks, ReadsMany (do blanks; Scan.exactly ','; blanks; key) (· = ks)
        (back ++ parts.flatMap (',' :: ·)) last := by
  induction h with
  | nil =>
    intro back hback
    refine ⟨back, hback, ?_⟩
    have hblanks : Reads blanks (fun _ => True) (back ++ []) [] :=
      reads_blanks trivial hback (by simp)
    rw [List.flatMap_nil]
    rw [List.append_nil] at hblanks ⊢
    exact ReadsMany.nil (hblanks.bind_fails fun _ _ => (Scan.fails_exactly (by simp)).bind) rfl
  | @cons k part ks parts hk _ ih =>
    intro back hback
    obtain ⟨front, signed, back', hfront, hsigned, hback', rfl⟩ := hk
    obtain ⟨last, hlast, hrest⟩ := ih back' hback'
    refine ⟨last, hlast, ?_⟩
    have htext : back ++ ((front ++ (signed ++ back')) :: parts).flatMap (',' :: ·) =
        back ++ ',' :: (front ++ (signed ++ (back' ++ parts.flatMap (',' :: ·)))) := by
      simp
    have hends : Grammar.EndsPath (back' ++ parts.flatMap (',' :: ·)) := by
      refine endsPath_blanks hback' ?_
      cases parts <;> simp
    rw [htext]
    refine ReadsMany.cons (P := (· = k)) ?_ ?_ hrest (by rintro _ _ rfl rfl; rfl)
    · refine Reads.bind (P := fun _ => True) (reads_blanks trivial hback (by simp; decide))
        fun _ _ => Reads.exactly_bind ?_
      exact Reads.bind (P := fun _ => True)
        (reads_blanks trivial hfront (isAsciiBlank_head_signed hsigned))
        fun _ _ => reads_key hsigned hends
    · simp only [List.length_append, List.length_cons]
      omega

theorem reads_keys {k : SortKey} {ks : List SortKey} {part : List Char} {parts : List (List Char)}
    (h : List.Forall₂ SortKey.IsWritten (k :: ks) (part :: parts)) :
    Reads keys (· = k :: ks) (part ++ parts.flatMap (',' :: ·)) [] := by
  cases h with
  | cons hk hks =>
    obtain ⟨front, signed, back, hfront, hsigned, hback, rfl⟩ := hk
    obtain ⟨last, hlast, hnext⟩ := readsMany_next hks back hback
    have hends : Grammar.EndsPath (back ++ parts.flatMap (',' :: ·)) := by
      refine endsPath_blanks hback ?_
      cases parts <;> simp
    rw [List.append_assoc, List.append_assoc]
    refine reads_blanks_key hfront hsigned hends (hnext.many.bind_eq ?_)
    exact reads_blanks_ending hlast rfl

end SortGrammar

end Sift
