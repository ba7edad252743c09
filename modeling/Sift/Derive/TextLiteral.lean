import Sift.Scan

/-!
# Literals of texts

A text stands in generated code as a literal between double quotes, in which a backslash begins an
escape.

* `TextLiteral.character`: a character in a literal.
* `TextLiteral.value?`: the text that a literal stands for.
-/

namespace Sift.TextLiteral

open Scan

/-- The character that a letter after a backslash stands for. -/
def escaped? : Char → Option Char
  | '"' => some '"'
  | '\'' => some '\''
  | '\\' => some '\\'
  | 'n' => some '\n'
  | 'r' => some '\r'
  | 't' => some '\t'
  | '0' => some (Char.ofNat 0)
  | _ => none

/-- The number that hexadecimal digits stand for. -/
def hexValue (ds : List Char) : Nat :=
  ds.foldl (fun n d => 16 * n + (Number.hexValue? d).getD 0) 0

/-- An ASCII character by its number in two digits. -/
def asciiNumber : Scan Char := do
  exactly 'x'
  let n ← hexNumber 2 0
  if n < 128 then return Char.ofNat n else fail

/-- A character by its number in one to six digits. -/
def scalarNumber : Scan Char := do
  exactly 'u'
  exactly '\x7b'
  let ds ← many (char fun d => (Number.hexValue? d).isSome)
  exactly '\x7d'
  if 1 ≤ ds.length ∧ ds.length ≤ 6 then return Char.ofNat (hexValue ds) else fail

/-- A character in a literal. -/
def character : Scan Char :=
  char (fun c => c != '"' && c != '\\') <|>
  (do
    exactly '\\'
    asciiNumber <|> scalarNumber <|> (do
      let c ← char fun c => (escaped? c).isSome
      return (escaped? c).getD c))

/-- A literal. -/
def quoted : Scan String := do
  exactly '"'
  let cs ← many character
  exactly '"'
  ending
  return String.ofList cs

/-- The text that a literal stands for. -/
def value? (literal : String) : Option String :=
  (quoted (Cursor.start literal.toList)).found.map Prod.fst

end Sift.TextLiteral
