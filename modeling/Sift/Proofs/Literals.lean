import Sift.Derive.Table
import Sift.Derive.TextLiteral
import Sift.Proofs.JsonText

/-!
# Literals read back

* `TextLiteral.hexValue_toDigits`: a number is read back from its hexadecimal digits.
* `TextLiteral.reads_inspectedChar`: a character is read back, also where it is escaped.
* `MemberEntry.value_literal`: **the literal of a member stands for its name.**
-/

namespace Sift

open Scan

namespace TextLiteral

variable {rest : List Char}

/-! ## Hexadecimal digits -/

theorem hexValue_append (ds : List Char) (d : Char) :
    hexValue (ds ++ [d]) = 16 * hexValue ds + (Number.hexValue? d).getD 0 := by
  rw [hexValue, List.foldl_append]
  rfl

theorem hexValue?_digitChar {k : Nat} (h : k < 16) :
    Number.hexValue? (Nat.digitChar k) = some k :=
  JsonGrammar.hexValue?_digitChar k h

/-- **A number is read back** from its hexadecimal digits. -/
theorem hexValue_toDigits (n : Nat) : hexValue (Nat.toDigits 16 n) = n := by
  induction n using Nat.strong_induction_on with
  | _ n ih =>
    rw [Nat.toDigits_eq_if (by decide)]
    split
    · next h =>
      show 16 * 0 + (Number.hexValue? n.digitChar).getD 0 = n
      rw [hexValue?_digitChar h, Option.getD_some]
      omega
    · next h =>
      have hlast : n % 16 < 16 := Nat.mod_lt n (by decide)
      rw [hexValue_append, ih (n / 16) (by omega), hexValue?_digitChar hlast, Option.getD_some]
      omega

theorem isSome_hexValue?_of_mem {n : Nat} {d : Char} (h : d ∈ Nat.toDigits 16 n) :
    (Number.hexValue? d).isSome = true := by
  induction n using Nat.strong_induction_on with
  | _ n ih =>
    rw [Nat.toDigits_eq_if (by decide)] at h
    split at h
    · next hn =>
      rw [List.mem_singleton] at h
      rw [h, hexValue?_digitChar hn]
      rfl
    · next hn =>
      rcases List.mem_append.1 h with h | h
      · exact ih (n / 16) (by omega) h
      · rw [List.mem_singleton] at h
        rw [h, hexValue?_digitChar (Nat.mod_lt n (by decide))]
        rfl

/-! ## Characters -/

theorem fails_plain {c : Char} (h : c = '"' ∨ c = '\\') :
    Fails (char fun c => c != '"' && c != '\\') (c :: rest) := by
  refine fails_char fun d hd => ?_
  cases hd
  rcases h with rfl | rfl <;> decide

theorem reads_plain {c : Char} (hquote : c ≠ '"') (hslash : c ≠ '\\') :
    Reads character (· = c) (c :: rest) rest :=
  Reads.orElse_left (Reads.char (by simp [hquote, hslash]) rfl)

theorem fails_asciiNumber (h : ∀ d ∈ rest.head?, d ≠ 'x') : Fails asciiNumber rest :=
  (fails_exactly h).bind

theorem fails_scalarNumber (h : ∀ d ∈ rest.head?, d ≠ 'u') : Fails scalarNumber rest :=
  (fails_exactly h).bind

/-- A letter after a backslash is read as what it stands for. -/
theorem reads_escaped {c d : Char} (hx : d ≠ 'x') (hu : d ≠ 'u') (h : escaped? d = some c) :
    Reads character (· = c) ('\\' :: d :: rest) rest := by
  refine Reads.orElse_right (fails_plain (Or.inr rfl)) (Reads.exactly_bind ?_)
  refine Reads.orElse_right (fails_asciiNumber (by simpa using hx)) ?_
  refine Reads.orElse_right (fails_scalarNumber (by simpa using hu)) ?_
  refine (Reads.char (P := (· = d)) (by rw [h]; rfl) rfl).bind_eq ?_
  exact Reads.pure (by rw [h]; rfl)

/-- A NUL is read back from two zeros. -/
theorem reads_zeros :
    Reads character (· = Char.ofNat 0) ('\\' :: 'x' :: '0' :: '0' :: rest) rest := by
  have hzero : Number.hexValue? '0' = some 0 := by decide
  have hnumber : Reads (hexNumber 2 0) (· = 0) ('0' :: '0' :: rest) rest :=
    JsonGrammar.reads_hexDigit hzero (JsonGrammar.reads_hexDigit hzero (Reads.pure rfl))
  refine Reads.orElse_right (fails_plain (Or.inr rfl)) (Reads.exactly_bind ?_)
  refine Reads.orElse_left (Reads.exactly_bind (hnumber.bind_eq ?_))
  exact Reads.pure rfl

/-- A character is read back from its number. -/
theorem reads_scalarNumber (c : Char) (rest : List Char) : Reads character (· = c)
    ('\\' :: 'u' :: '\x7b' :: (Nat.toDigits 16 c.toNat ++ '\x7d' :: rest)) rest := by
  have hdigits : ∀ d ∈ Nat.toDigits 16 c.toNat, (Number.hexValue? d).isSome = true :=
    fun d hd => isSome_hexValue?_of_mem hd
  have hread : Reads (many (char fun d => (Number.hexValue? d).isSome))
      (· = Nat.toDigits 16 c.toNat) (Nat.toDigits 16 c.toNat ++ '\x7d' :: rest)
      ('\x7d' :: rest) := by
    have hmany := readsMany_char (fun d => (Number.hexValue? d).isSome)
      (Nat.toDigits 16 c.toNat ++ '\x7d' :: rest)
    rw [List.takeWhile_append_of_pos hdigits, List.dropWhile_append_of_pos hdigits,
      List.takeWhile_cons_of_neg (by decide), List.dropWhile_cons_of_neg (by decide),
      List.append_nil] at hmany
    exact hmany.many
  have hlength : 1 ≤ (Nat.toDigits 16 c.toNat).length ∧ (Nat.toDigits 16 c.toNat).length ≤ 6 := by
    have hlt : c.toNat < 16 ^ 6 := by
      rcases c.valid with h | ⟨-, h⟩
      · exact Nat.lt_trans h (by decide)
      · exact Nat.lt_trans h (by decide)
    refine ⟨?_, (Nat.length_toDigits_le_iff (by decide) (by decide)).2 hlt⟩
    exact List.length_pos_iff.2 Nat.toDigits_ne_nil
  refine Reads.orElse_right (fails_plain (Or.inr rfl)) (Reads.exactly_bind ?_)
  refine Reads.orElse_right (fails_asciiNumber (by simp)) (Reads.orElse_left ?_)
  refine Reads.exactly_bind (Reads.exactly_bind (hread.bind_eq (Reads.exactly_bind ?_)))
  rw [if_pos hlength, hexValue_toDigits, Char.ofNat_toNat]
  exact Reads.pure rfl

/-- **A character is read back**, also where it is escaped. -/
theorem reads_inspectedChar (c : Char) :
    Reads character (· = c) (Text.inspectedChar c ++ rest) rest := by
  unfold Text.inspectedChar
  -- quote and backslash, the escapes by a letter, those by a number, all others
  split
  · next h => rcases h with rfl | rfl <;> exact reads_escaped (by decide) (by decide) rfl
  split
  · next h => exact h ▸ reads_escaped (by decide) (by decide) rfl
  split
  · next h => exact h ▸ reads_escaped (by decide) (by decide) rfl
  split
  · next h => exact h ▸ reads_escaped (by decide) (by decide) rfl
  split
  · next h =>
    have hc : c = Char.ofNat 0 := by rw [← h, Char.ofNat_toNat]
    exact reads_escaped (by decide) (by decide) (hc ▸ rfl)
  split
  · have hread := reads_scalarNumber c rest
    simpa using hread
  · next hspecial _ _ _ _ _ =>
    rw [not_or] at hspecial
    exact reads_plain hspecial.1 hspecial.2

theorem inspectedChar_ne_nil (c : Char) : Text.inspectedChar c ≠ [] := by
  unfold Text.inspectedChar
  repeat' split
  all_goals simp

theorem length_lt_of_ne_nil {piece after : List Char} (h : piece ≠ []) :
    after.length < (piece ++ after).length := by
  have hpos : 0 < piece.length := List.length_pos_iff.2 h
  rw [List.length_append]
  omega

/-- The characters of a literal are read back one after the other. -/
theorem readsMany_literalText (cs : List Char) :
    ReadsMany character (· = cs) (MemberEntry.literalText cs ++ '"' :: rest) ('"' :: rest) := by
  induction cs with
  | nil =>
    have hquote : Fails (exactly '\\') ('"' :: rest) := fails_exactly (by simp)
    exact ReadsMany.nil (Fails.orElse (fails_plain (Or.inl rfl)) hquote.bind) rfl
  | cons c cs ih =>
    rw [MemberEntry.literalText, List.append_assoc]
    refine ReadsMany.cons (P := (· = c)) ?_ ?_ ih ?_
    · split
      · next h =>
        have hc : c = Char.ofNat 0 := by rw [← h.1, Char.ofNat_toNat]
        exact hc ▸ reads_zeros
      · exact reads_inspectedChar c
    · refine length_lt_of_ne_nil ?_
      split
      · exact List.cons_ne_nil _ _
      · exact inspectedChar_ne_nil c
    · rintro _ _ rfl rfl
      rfl

end TextLiteral

namespace MemberEntry

/-- **The literal of a member stands for its name**, whatever characters are in the name. -/
theorem value_literal (m : MemberEntry) : TextLiteral.value? m.literal = some m.name := by
  have hread : Reads TextLiteral.quoted (· = m.name) m.literal.toList [] := by
    rw [literal, String.toList_ofList]
    refine Reads.exactly_bind ((TextLiteral.readsMany_literalText m.name.toList).many.bind_eq ?_)
    refine Reads.exactly_bind ?_
    refine Reads.bind (P := fun _ => True) (Reads.notBefore (by simp) trivial) fun _ _ => ?_
    exact Reads.pure String.ofList_toList
  obtain ⟨found, there, hfound, -, -, rfl⟩ := hread (Cursor.start m.literal.toList) rfl
  rw [TextLiteral.value?, hfound]
  rfl

end MemberEntry

end Sift
