import Sift.Error

/-!
# Nesting

Brackets outside quotes are counted before a text is read any further, so that a deeply nested
text is refused early.

* `overDeep?`: the first bracket that nests deeper than a limit.
* `checkDepth`: the refusal of such a text.
-/

namespace Sift

/-- Where a character stands: in the open, between quotes, or behind a backslash there. -/
inductive Surroundings where
  | outside
  | quoted
  | escaped
  deriving DecidableEq, Repr

/-- Where the next character stands. -/
def Surroundings.after : Surroundings → Char → Surroundings
  | outside, c => if c == '"' then quoted else outside
  | quoted, c => if c == '\\' then escaped else if c == '"' then outside else quoted
  | escaped, _ => quoted

/-- The number of open brackets after a character. Closing brackets too many do not count. -/
def depthAfter (depth : Nat) (c : Char) : Nat :=
  if ['(', '\x7b', '['].contains c then depth + 1
  else if [')', '\x7d', ']'].contains c then depth - 1
  else depth

/-- The offset of the first bracket in a text that nests deeper than `limit`, when `depth` brackets
are open before it. -/
def overDeep? (limit depth : Nat) (s : Surroundings) (offset : Nat) : List Char → Option Nat
  | [] => none
  | c :: rest =>
    let depth := if s = .outside then depthAfter depth c else depth
    if limit < depth then some offset
    else overDeep? limit depth (s.after c) (offset + c.utf8Size) rest

/-- Refuses a text that nests deeper than `limit`. -/
def checkDepth (limit : Nat) (text : String) : Except SyntaxError Unit :=
  match overDeep? limit 0 .outside 0 text.toList with
  | some offset => .error (.malformed text ⟨offset, 1⟩ (.tooDeep limit))
  | none => .ok ()

end Sift
