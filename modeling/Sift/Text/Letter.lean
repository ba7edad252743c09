import Sift.Text.LetterTable
import Sift.Text.Property

/-!
# Letters of a text

A letter is what a reader takes for one: a character with everything that joins it, by the rules
of the Unicode standard for extended grapheme clusters. The rules for line ends, controls, flags
and pictures are left out, because letters are only looked for in names.

* `Letter.joins`: whether a character belongs to the letter begun before it.
* `Letter.ofText`: the letters of a text.
* `Letter.flatten_ofText`: together they are the text.
* `Letter.ne_nil_of_mem_ofText`: none of them is empty.
-/

namespace Sift

/-- A letter of a text, as the characters it is made of. -/
abbrev Letter := List Char

namespace Letter

open Text

/-- Whether a character belongs to the letter before it, whatever that is: a mark of any width, or
the joiner of width zero. -/
def isAttached (c : Char) : Bool :=
  isExtender c || inRanges spacingMarks c.toNat || c.toNat == 0x200D

/-! ## Syllables -/

/-- The syllables that are one character. -/
def isSyllable (n : Nat) : Bool := 0xAC00 ≤ n && n ≤ 0xD7A3

/-- The syllables that are one character and end with their vowel: of each first consonant and
vowel the first one of 28. -/
def isOpenSyllable (n : Nat) : Bool := isSyllable n && (n - 0xAC00) % 28 == 0

/-- Whether two characters are neighbouring parts of one syllable. -/
def joinsSyllable (b c : Nat) : Bool :=
  (inRanges leadingJamo b && (inRanges leadingJamo c || inRanges vowelJamo c || isSyllable c)) ||
    ((isOpenSyllable b || inRanges vowelJamo b) &&
      (inRanges vowelJamo c || inRanges trailingJamo c)) ||
    ((isSyllable b || inRanges trailingJamo b) && inRanges trailingJamo c)

/-! ## Linked consonants -/

/-- Whether a letter, given in reverse, is ready for one more consonant: after its last consonant
stand a linker and otherwise marks only. `linked` tells whether a linker was met. -/
def endsLinked (linked : Bool) : List Char → Bool
  | [] => false
  | c :: before =>
    if inRanges linkers c.toNat then endsLinked true before
    else if (isExtender c && c.toNat != 0x200C) || c.toNat == 0x200D then endsLinked linked before
    else linked && inRanges consonants c.toNat

/-! ## Letters -/

/-- Whether a character belongs to the letter begun before it, which is given in reverse. -/
def joins (before : List Char) (c : Char) : Bool :=
  match before with
  | [] => true
  | b :: _ =>
    isAttached c || inRanges leaders b.toNat || joinsSyllable b.toNat c.toNat ||
      (inRanges consonants c.toNat && endsLinked false before)

/-- The letters of a text after the part `begun` of a letter, given in reverse. -/
def ofTextFrom (begun : List Char) : List Char → List Letter
  | [] => if begun = [] then [] else [begun.reverse]
  | c :: rest =>
    if joins begun c then ofTextFrom (c :: begun) rest else begun.reverse :: ofTextFrom [c] rest

/-- The letters of a text. -/
def ofText (cs : List Char) : List Letter := ofTextFrom [] cs

theorem flatten_ofTextFrom (begun cs : List Char) :
    (ofTextFrom begun cs).flatten = begun.reverse ++ cs := by
  induction cs generalizing begun with
  | nil => by_cases h : begun = [] <;> simp [ofTextFrom, h]
  | cons c rest ih =>
    rw [ofTextFrom]
    split <;> simp [ih]

/-- **Nothing is lost between the letters.** -/
theorem flatten_ofText (cs : List Char) : (ofText cs).flatten = cs := by
  simp [ofText, flatten_ofTextFrom]

theorem ne_nil_of_mem_ofTextFrom {begun cs : List Char} {l : Letter}
    (h : l ∈ ofTextFrom begun cs) : l ≠ [] := by
  induction cs generalizing begun with
  | nil =>
    by_cases hb : begun = []
    · simp [ofTextFrom, hb] at h
    · simp only [ofTextFrom, hb, if_false, List.mem_singleton] at h
      simpa [h] using hb
  | cons c rest ih =>
    rw [ofTextFrom] at h
    split at h
    · exact ih h
    · next hj =>
      rcases List.mem_cons.1 h with rfl | h
      · intro hb
        simp [List.reverse_eq_nil_iff.1 hb, joins] at hj
      · exact ih h

/-- **No letter is empty.** -/
theorem ne_nil_of_mem_ofText {cs : List Char} {l : Letter} (h : l ∈ ofText cs) : l ≠ [] :=
  ne_nil_of_mem_ofTextFrom h

end Letter

end Sift
