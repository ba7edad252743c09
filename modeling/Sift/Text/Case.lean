import Sift.Text.CaseTable

/-!
# Lower and upper case of whole texts

Full case conversion: a character may become several, and a capital sigma at the end of a word
has a lower-case form of its own.

* `lower`, `upper`: the two conversions.
* `lower_eq_nil_iff`: only the empty text becomes empty.
-/

namespace Sift.Text

/-- The character a distance away in code points. -/
def shiftChar (c : Char) (shift : Int) : Char := Char.ofNat (c.toNat + shift).toNat

/-- The lower-case form of a character, wherever it stands. -/
def lowerChar (c : Char) : List Char :=
  if c.toNat < 0x80 then [c.toLower]
  else if c.toNat = 0x130 then ['i', Char.ofNat 0x307]
  else match lowerShifts.find? (·.covers c.toNat) with
    | some s => [shiftChar c s.shift]
    | none => [c]

/-- The upper-case form of a character. -/
def upperChar (c : Char) : List Char :=
  if c.toNat < 0x80 then [c.toUpper]
  else match upperExpansions.lookup c.toNat with
    | some codes => codes.map Char.ofNat
    | none => match upperShifts.find? (·.covers c.toNat) with
      | some s => [shiftChar c s.shift]
      | none => [c]

/-- Characters passed over when looking for the end of a word. -/
def isCaseIgnorable (c : Char) : Bool :=
  inRanges marks c.toNat || inRanges formats c.toNat || inRanges modifiers c.toNat

/-- Whether the nearest character that is not ignorable has case. -/
def meetsCased (cs : List Char) : Bool :=
  match cs.dropWhile isCaseIgnorable with
  | [] => false
  | c :: _ => inRanges cased c.toNat

/-- The lower-case form of a text with `before`, reversed, in front of it. A capital sigma is a
final one when a letter stands before it and none after. -/
def lowerAfter (before : List Char) : List Char → List Char
  | [] => []
  | c :: rest =>
    (if c.toNat = 0x3A3 then
      [if meetsCased before && !meetsCased rest then Char.ofNat 0x3C2 else Char.ofNat 0x3C3]
    else lowerChar c) ++ lowerAfter (c :: before) rest

/-- The lower-case form of a text. -/
def lower (cs : List Char) : List Char := lowerAfter [] cs

/-- The upper-case form of a text. -/
def upper (cs : List Char) : List Char := cs.flatMap upperChar

/-- The lower-case form of a string. -/
def lowerString (s : String) : String := String.ofList (lower s.toList)

theorem lowerChar_ne_nil (c : Char) : lowerChar c ≠ [] := by
  unfold lowerChar
  split
  · simp
  · split
    · simp
    · split <;> simp

/-- Only the empty text has an empty lower-case form. -/
theorem lower_eq_nil_iff {cs : List Char} : lower cs = [] ↔ cs = [] := by
  cases cs with
  | nil => simp [lower, lowerAfter]
  | cons c rest =>
    simp only [lower, lowerAfter, List.append_eq_nil_iff]
    constructor
    · rintro ⟨h, _⟩
      split at h
      · simp at h
      · exact absurd h (lowerChar_ne_nil c)
    · simp

end Sift.Text
