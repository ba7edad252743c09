import Sift.Text.Blank
import Sift.Text.Property

/-!
# Texts that show every character

* `isInvisible`: the characters that show nothing of their own.
* `inspectedChar`: a character, or an escape for it where it has a meaning or cannot be seen.
* `inspected`: a text between quotes, made of such characters.
-/

namespace Sift.Text

/-- Letters that only hold an empty place in a syllable. -/
def isFiller (c : Char) : Bool :=
  let n := c.toNat
  n == 0x115F || n == 0x1160 || n == 0x3164 || n == 0xFFA0

/-- Control characters. -/
def isControl (c : Char) : Bool := c.toNat < 0x20 || (0x7F ≤ c.toNat && c.toNat ≤ 0x9F)

/-- Characters for private use. -/
def isPrivate (c : Char) : Bool :=
  let n := c.toNat
  (0xE000 ≤ n && n ≤ 0xF8FF) || (0xF0000 ≤ n && n ≤ 0xFFFFD) || (0x100000 ≤ n && n ≤ 0x10FFFD)

/-- The characters that show nothing of their own. The space is not one of them. -/
def isInvisible (c : Char) : Bool :=
  isControl c || (isBlank c && c != ' ') || isFiller c || isPrivate c || isExtender c ||
    inRanges formats c.toNat || inRanges unassigned c.toNat

/-- A character in an inspected text. What cannot be seen is shown by its number. -/
def inspectedChar (c : Char) : List Char :=
  if c = '"' ∨ c = '\\' then ['\\', c]
  else if c = '\n' then ['\\', 'n']
  else if c = '\r' then ['\\', 'r']
  else if c = '\t' then ['\\', 't']
  else if c.toNat = 0 then ['\\', '0']
  else if isInvisible c then ['\\', 'u', '\x7b'] ++ Nat.toDigits 16 c.toNat ++ ['\x7d']
  else [c]

/-- A text between quotes. -/
def inspected (cs : List Char) : List Char := '"' :: cs.flatMap inspectedChar ++ ['"']

end Sift.Text
