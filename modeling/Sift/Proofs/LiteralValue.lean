import Sift.Proofs.OperandText
import Sift.Query.Coercion

/-!
# The values of written literals

* `Dashed`: a date begins with a number and a dash behind it, `dashed_written`.
* `Dashed.readInt?_eq_none`, `Dashed.readFloat?_eq_none`, `Dashed.readBoolean?_eq_none`: so it is no
  number and no truth value.
* `Literal.readScalar?_plainText`: a literal and its text are the same value of every kind.
-/

namespace Sift

open Number

theorem yearText_eq (year : Int) : ∃ sign ds, yearText year = sign ++ ds ∧
    (sign = [] ∨ sign = ['+'] ∨ sign = ['-']) ∧ ds ≠ [] ∧ ∀ c ∈ ds, c.isDigit = true := by
  have hds : ∀ c ∈ padded 4 year.natAbs, c.isDigit = true := fun c hc => isDigit_of_mem_padded hc
  have hne := padded_ne_nil 4 year.natAbs
  unfold yearText
  split
  · exact ⟨[], _, rfl, Or.inl rfl, hne, hds⟩
  · split
    · exact ⟨['-'], _, rfl, Or.inr (Or.inr rfl), hne, hds⟩
    · exact ⟨['+'], _, rfl, Or.inr (Or.inl rfl), hne, hds⟩

/-- **A text begins with a number** in digits, which may have a sign, **and a dash behind it.** -/
def Dashed (cs : List Char) : Prop :=
  ∃ sign ds rest, cs = sign ++ (ds ++ '-' :: rest) ∧
    (sign = [] ∨ sign = ['+'] ∨ sign = ['-']) ∧ ds ≠ [] ∧ ∀ c ∈ ds, c.isDigit = true

/-- Dates and times are written such. -/
theorem dashed_written {l : Literal} (hl : ∀ s, l ≠ .text s) : Dashed l.written := by
  match l with
  | .text s => exact absurd rfl (hl s)
  | .date d =>
    obtain ⟨sign, ds, htext, hds⟩ := yearText_eq d.year
    refine ⟨sign, ds, padded 2 d.month ++ '-' :: padded 2 d.day, ?_, hds⟩
    simp only [Literal.written, Date.text, htext, List.append_assoc, List.cons_append]
  | .dateTime t offset =>
    obtain ⟨sign, ds, htext, hds⟩ := yearText_eq t.date.year
    refine ⟨sign, ds, padded 2 t.date.month ++ '-' :: (padded 2 t.date.day ++
      'T' :: (t.time.text ++ offset.elim [] UtcOffset.text)), ?_, hds⟩
    simp only [Literal.written, LocalDateTime.text, Date.text, htext, List.append_assoc,
      List.cons_append]

section Numbers

variable {ds rest : List Char}

theorem takeWhile_digits (hds : ∀ c ∈ ds, c.isDigit = true) :
    (ds ++ '-' :: rest).takeWhile Char.isDigit = ds ∧
      (ds ++ '-' :: rest).dropWhile Char.isDigit = '-' :: rest := by
  rw [List.takeWhile_append_of_pos hds, List.dropWhile_append_of_pos hds]
  simp

theorem readNat?_dash (ds rest : List Char) : readNat? (ds ++ '-' :: rest) = none := by
  unfold readNat?
  rw [if_neg]
  simp

theorem readMagnitude?_dash (f : BinaryFormat) (negative : Bool)
    (hds : ∀ c ∈ ds, c.isDigit = true) : readMagnitude? f negative (ds ++ '-' :: rest) = none := by
  -- no name of a number has a dash, and behind the digits of one there is none
  have hdash : ∀ name : List Char, '-' ∉ name → (ds ++ '-' :: rest).map Char.toLower ≠ name := by
    rintro name hname rfl
    exact hname (List.mem_map.2 ⟨'-', by simp, rfl⟩)
  have hdecimal : readDecimal? (ds ++ '-' :: rest) = none := by
    unfold readDecimal?
    rw [(takeWhile_digits hds).1, (takeWhile_digits hds).2]
    simp
  unfold readMagnitude?
  simp only [hdash ['n', 'a', 'n'] (by decide), hdash ['i', 'n', 'f'] (by decide),
    hdash ['i', 'n', 'f', 'i', 'n', 'i', 't', 'y'] (by decide), if_false, or_self, hdecimal,
    Option.map_none]

theorem exists_digit_head (hne : ds ≠ []) (hds : ∀ c ∈ ds, c.isDigit = true) :
    ∃ c cs, ds = c :: cs ∧ c.isDigit = true := by
  obtain ⟨c, cs, rfl⟩ := List.exists_cons_of_ne_nil hne
  exact ⟨c, cs, rfl, hds c List.mem_cons_self⟩

theorem toLower_of_isDigit {c : Char} (hc : c.isDigit = true) : c.toLower = c := by
  have hrange : c.toNat ≤ 57 := by
    unfold Char.isDigit at hc
    simp only [Bool.and_eq_true, decide_eq_true_eq] at hc
    exact hc.2
  have hupper : ¬(65 ≤ c.toNat ∧ c.toNat ≤ 90) := by omega
  unfold Char.toLower
  exact dif_neg hupper

/-- No truth value begins with a sign or a digit. -/
theorem readBoolean?_of_head {c : Char} {tail : List Char}
    (hc : c = '+' ∨ c = '-' ∨ c.isDigit = true) : readBoolean? (c :: tail) = none := by
  -- signs and digits have no case, so the text in lower case begins with them too
  have hlower : Text.lowerChar c = [c] ∧ c.toNat ≠ 0x3A3 ∧ c ≠ 't' ∧ c ≠ 'f' := by
    rcases hc with rfl | rfl | hc
    · decide
    · decide
    · have hrange : c.toNat ≤ 57 := by
        unfold Char.isDigit at hc
        simp only [Bool.and_eq_true, decide_eq_true_eq] at hc
        exact hc.2
      refine ⟨?_, by omega, ?_, ?_⟩
      · unfold Text.lowerChar
        rw [if_pos (by omega), toLower_of_isDigit hc]
      · rintro rfl
        exact absurd hc (by decide)
      · rintro rfl
        exact absurd hc (by decide)
  have hword : ∃ lowered, Text.lower (c :: tail) = c :: lowered := by
    unfold Text.lower Text.lowerAfter
    rw [if_neg hlower.2.1, hlower.1]
    exact ⟨_, rfl⟩
  obtain ⟨lowered, hword⟩ := hword
  unfold readBoolean?
  rw [hword]
  simp [hlower.2.2.1, hlower.2.2.2]

end Numbers

namespace Dashed

variable {cs : List Char}

theorem readInt?_eq_none (h : Dashed cs) : readInt? cs = none := by
  obtain ⟨sign, ds, rest, rfl, hsign, hne, hds⟩ := h
  rcases hsign with rfl | rfl | rfl
  · obtain ⟨c, cs, rfl, hc⟩ := exists_digit_head hne hds
    have hnat := readNat?_dash (c :: cs) rest
    rw [List.nil_append]
    rw [List.cons_append] at hnat ⊢
    unfold readInt?
    split
    · next heq => cases heq; exact absurd hc (by decide)
    · next heq => cases heq; exact absurd hc (by decide)
    · rw [hnat, Option.map_none]
  · simp only [readInt?, List.singleton_append, readNat?_dash, Option.map_none]
  · simp only [readInt?, List.singleton_append, readNat?_dash, Option.map_none]

theorem readFloat?_eq_none (f : BinaryFormat) (h : Dashed cs) : readFloat? f cs = none := by
  obtain ⟨sign, ds, rest, rfl, hsign, hne, hds⟩ := h
  rcases hsign with rfl | rfl | rfl
  · have hmagnitude : readMagnitude? f false (ds ++ '-' :: rest) = none :=
      readMagnitude?_dash f false hds
    obtain ⟨c, cs, rfl, hc⟩ := exists_digit_head hne hds
    rw [List.nil_append]
    rw [List.cons_append] at hmagnitude ⊢
    unfold readFloat?
    split
    · next heq => cases heq; exact absurd hc (by decide)
    · next heq => cases heq; exact absurd hc (by decide)
    · exact hmagnitude
  · simp only [readFloat?, List.singleton_append, readMagnitude?_dash f _ hds]
  · simp only [readFloat?, List.singleton_append, readMagnitude?_dash f _ hds]

theorem readBoolean?_eq_none (h : Dashed cs) : readBoolean? cs = none := by
  obtain ⟨sign, ds, rest, rfl, hsign, hne, hds⟩ := h
  obtain ⟨d, ds, rfl, hd⟩ := exists_digit_head hne hds
  rcases hsign with rfl | rfl | rfl
  · exact readBoolean?_of_head (Or.inr (Or.inr hd))
  · exact readBoolean?_of_head (Or.inl rfl)
  · exact readBoolean?_of_head (Or.inr (Or.inl rfl))

/-- So it has no value of the kinds of these. -/
theorem readScalar?_eq_none {s : String} {kind : Kind} (h : Dashed (Text.trim s.toList))
    (hkind : kind = .integer ∨ kind = .float ∨ kind = .boolean) : readScalar? s kind = none := by
  rcases hkind with rfl | rfl | rfl
  · simp only [readScalar?, readInt64?, h.readInt?_eq_none, Option.bind_none, Option.map_none]
  · simp only [readScalar?, h.readFloat?_eq_none, Option.map_none]
  · simp only [readScalar?, h.readBoolean?_eq_none, Option.map_none]

end Dashed

variable {l : Literal}

/-- A date is no number and no truth value. -/
theorem Literal.temporalAs?_eq_none {kind : Kind}
    (hkind : kind = .integer ∨ kind = .float ∨ kind = .boolean) : l.temporalAs? kind = none := by
  unfold Literal.temporalAs? Literal.temporalScalar?
  split
  · rcases hkind with rfl | rfl | rfl <;> contradiction
  · split
    · rfl
    · rcases hkind with rfl | rfl | rfl <;> rfl
    · rcases hkind with rfl | rfl | rfl <;> rfl
    · split <;> rcases hkind with rfl | rfl | rfl <;> rfl

theorem Literal.as?_of_ne_text (hl : ∀ s, l ≠ .text s) (kind : Kind) :
    l.as? kind = l.temporalAs? kind := by
  cases l with
  | text s => exact absurd rfl (hl s)
  | _ => rfl

/-- **A literal and its text are the same value** of every kind. -/
theorem Literal.readScalar?_plainText (h : l.Legible) (kind : Kind) :
    readScalar? (String.ofList l.plainText) kind = l.as? kind := by
  rcases l.eq_text_or with ⟨s, rfl⟩ | hl
  · rw [Literal.plainText, String.ofList_toList, Literal.as?]
  · have has := Literal.as?_of_ne_text hl kind
    have htrim : Text.trim l.written = l.written := Text.trim_of_tight (tight_written l)
    rw [has, plainText_of_ne_text hl]
    have hdashed : Dashed (Text.trim (String.ofList l.written).toList) := by
      rw [String.toList_ofList, htrim]
      exact dashed_written hl
    cases kind with
    | string => simp only [readScalar?, Literal.temporalAs?, if_true]
    | integer | float | boolean =>
      rw [Literal.temporalAs?_eq_none (by simp), hdashed.readScalar?_eq_none (by simp)]
    | date | dateTime | offsetDateTime =>
      simp only [readScalar?, String.toList_ofList, htrim, temporal?_written h hl,
        Option.bind_some]

end Sift
