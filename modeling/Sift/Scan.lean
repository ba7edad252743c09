import Sift.Number.Integer
import Sift.Text.Ascii

/-!
# Scanning a text

A scanner reads from a place in a text on, or fails there. Choices are ordered: the second one is
tried where the first fails, and never again after the first has read something. What was tried in
vain is not lost: an outcome records the furthest place at which a named rule failed, which is
where a reader of the text should look.

* `Cursor`: a place in a text, with its offset in bytes.
* `Scan`: the scanners, with the failures of named rules.
* `Scan.many`, `Scan.manySpaced`: repetition, without and with white space between.
-/

namespace Sift

/-- A place in a text: its offset in bytes and what follows. -/
structure Cursor where
  offset : Nat
  rest : List Char
  deriving DecidableEq, Repr

namespace Cursor

/-- The beginning of a text. -/
def start (text : List Char) : Cursor := ⟨0, text⟩

/-- The place after a character. -/
def step (here : Cursor) (c : Char) (rest : List Char) : Cursor := ⟨here.offset + c.utf8Size, rest⟩

end Cursor

/-- What a scanner finds, with the place after it, and the furthest place at which a named rule
failed on the way. -/
structure Outcome (α : Type) where
  found : Option (α × Cursor)
  reach : Nat

/-- A scanner. -/
def Scan (α : Type) := Cursor → Outcome α

namespace Scan

variable {α β : Type}

/-- Finds a value without reading. -/
def pure (a : α) : Scan α := fun here => ⟨some (a, here), 0⟩

/-- Finds nothing. -/
def fail : Scan α := fun _ => ⟨none, 0⟩

/-- One scanner after another. -/
def bind (p : Scan α) (f : α → Scan β) : Scan β := fun here =>
  let first := p here
  match first.found with
  | none => ⟨none, first.reach⟩
  | some (a, there) =>
    let second := f a there
    ⟨second.found, max first.reach second.reach⟩

/-- The second scanner where the first fails. -/
def orElse (p : Scan α) (q : Unit → Scan α) : Scan α := fun here =>
  let first := p here
  match first.found with
  | some _ => first
  | none =>
    let second := q () here
    ⟨second.found, max first.reach second.reach⟩

instance : Monad Scan where
  pure := pure
  bind := bind

instance : OrElse (Scan α) := ⟨orElse⟩

/-- A rule whose failure is recorded at the place where it began. -/
def named (p : Scan α) : Scan α := fun here =>
  let outcome := p here
  match outcome.found with
  | some _ => outcome
  | none => ⟨none, max outcome.reach here.offset⟩

/-- The place reached so far. -/
def position : Scan Nat := fun here => ⟨some (here.offset, here), 0⟩

/-- A character of a class. -/
def char (accepts : Char → Bool) : Scan Char := fun here =>
  match here.rest with
  | [] => ⟨none, 0⟩
  | c :: rest => if accepts c then ⟨some (c, here.step c rest), 0⟩ else ⟨none, 0⟩

/-- One character. -/
def exactly (c : Char) : Scan Unit := do
  let _ ← char (· == c)

/-- A word, the case of ASCII letters aside. -/
def word : List Char → Scan Unit
  | [] => pure ()
  | w :: ws => do
    let _ ← char (·.toLower == w.toLower)
    word ws

/-- A fixed text. -/
def fixed : List Char → Scan Unit
  | [] => pure ()
  | c :: rest => do
    exactly c
    fixed rest

/-- A number of `n` hexadecimal digits, with the value of those before it. -/
def hexNumber : (n value : Nat) → Scan Nat
  | 0, value => pure value
  | n + 1, value => do
    let c ← char fun c => (Number.hexValue? c).isSome
    hexNumber n (16 * value + (Number.hexValue? c).getD 0)

/-- Succeeds where no character of a class follows. -/
def notBefore (stops : Char → Bool) : Scan Unit := fun here =>
  match here.rest with
  | [] => ⟨some ((), here), 0⟩
  | c :: _ => if stops c then ⟨none, 0⟩ else ⟨some ((), here), 0⟩

/-- The end of the text. -/
def ending : Scan Unit := notBefore fun _ => true

/-- A value if there is one. -/
def optional (p : Scan α) : Scan (Option α) := (some <$> p) <|> pure none

/-- The first choice that is found. -/
def choose : List (Scan α) → Scan α
  | [] => fail
  | p :: rest => p <|> choose rest

/-- As many as there are, one for each character of `room` at most. After the last of them one more
is looked for in vain. -/
def manyWithin : (room : List Char) → Scan α → Scan (List α)
  | [], p => fun here => ⟨some ([], here), (p here).reach⟩
  | _ :: room, p => (do
      let a ← p
      let rest ← manyWithin room p
      return a :: rest) <|> pure []

/-- As many as there are; each has to read something. -/
def many (p : Scan α) : Scan (List α) := fun here => manyWithin here.rest p here

/-- The white space between the parts of a rule. -/
def isBlank (c : Char) : Bool := c == ' ' || c == '\t' || c == '\r' || c == '\n'

/-- All the white space here. -/
def blanks : Scan Unit := do
  let _ ← many (char isBlank)

/-- A value after white space. -/
def spaced (p : Scan α) : Scan α := do
  blanks
  p

/-- As many as there are, with white space between them. -/
def manySpaced (p : Scan α) : Scan (List α) :=
  (do
    let a ← p
    let rest ← many (spaced p)
    return a :: rest) <|> pure []

/-- A value and the bytes it takes up. -/
def withSpan (p : Scan α) : Scan (α × Nat × Nat) := do
  let first ← position
  let a ← p
  let last ← position
  return (a, first, last - first)

end Scan

end Sift
