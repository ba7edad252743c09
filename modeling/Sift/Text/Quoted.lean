/-!
# Quoted text

Inside double quotes a backslash keeps the character after it: a quote and a backslash are
written with one before them, everything else as it is.

* `escape`, `unescape`: the two directions.
* `unescape_escape`: nothing is lost.
-/

namespace Sift.Text.Quoted

/-- The inside of the quotes around a text. -/
def escape : List Char → List Char
  | [] => []
  | c :: rest => if c == '"' || c == '\\' then '\\' :: c :: escape rest else c :: escape rest

/-- The text between two quotes. A backslash at the end stands for nothing. -/
def unescape : List Char → List Char
  | [] => []
  | ['\\'] => []
  | '\\' :: c :: rest => c :: unescape rest
  | c :: rest => c :: unescape rest

/-- A text between quotes. -/
def quote (cs : List Char) : List Char := '"' :: escape cs ++ ['"']

theorem unescape_cons {c : Char} (h : c ≠ '\\') (rest : List Char) :
    unescape (c :: rest) = c :: unescape rest := by
  rw [unescape]
  · intro hc; exact absurd hc h
  · intro d r hc; exact absurd hc h

/-- **Nothing is lost between the quotes.** -/
theorem unescape_escape (cs : List Char) : unescape (escape cs) = cs := by
  induction cs with
  | nil => rfl
  | cons c rest ih =>
    by_cases hq : c = '"'
    · subst hq; simp [escape, unescape, ih]
    · by_cases hb : c = '\\'
      · subst hb; simp [escape, unescape, ih]
      · simp [escape, hq, hb, unescape_cons hb, ih]

end Sift.Text.Quoted
