/-!
# ASCII letters and words

The names and keywords of the filter language are ASCII, whatever the texts around them hold.

* `isWordStart`, `isWord`: the characters that begin and continue a name.
* `sameIgnoringCase`: equality up to the case of ASCII letters, which is how keywords, operators
  and number names are recognised.
-/

namespace Sift.Text

/-- The white space of sort texts: ASCII only. -/
def isAsciiBlank (c : Char) : Bool :=
  (9 ≤ c.toNat && c.toNat ≤ 13) || c == ' '

/-- An ASCII letter or an underscore begins a name. -/
def isWordStart (c : Char) : Bool := c.isAlpha || c == '_'

/-- ASCII letters, digits and underscores continue a name. -/
def isWord (c : Char) : Bool := c.isAlphanum || c == '_'

theorem isWord_of_isWordStart {c : Char} (h : isWordStart c) : isWord c := by
  simp only [isWordStart, isWord, Char.isAlphanum, Bool.or_eq_true] at h ⊢
  rcases h with h | h <;> simp [h]

/-- Equality up to the case of ASCII letters. -/
def sameIgnoringCase (a b : List Char) : Bool := a.map Char.toLower == b.map Char.toLower

/-- `sameIgnoringCase` on strings. -/
def sameWord (a b : String) : Bool := sameIgnoringCase a.toList b.toList

end Sift.Text
