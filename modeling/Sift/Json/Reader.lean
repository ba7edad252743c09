import Sift.Json.Number
import Sift.Scan

/-!
# Reading JSON

Texts follow the grammar of JSON strictly. Arrays and objects nest 127 deep at most.

* `JsonGrammar.value`: a value, as a scanner.
* `Json.read?`: the value that a whole text is.
-/

namespace Sift

namespace JsonGrammar

open Scan

/-! ## Numbers -/

/-- Digits, at least one. -/
def digits : Scan (List Char) := do
  let first ← char Char.isDigit
  let rest ← many (char Char.isDigit)
  return first :: rest

/-- The digits before the point, without zeros in front. -/
def wholePart : Scan (List Char) := do
  let ds ← digits
  if ds.head? = some '0' ∧ 1 < ds.length then fail else return ds

/-- The digits after the point. -/
def fractionPart : Scan (List Char) := do
  exactly '.'
  digits

/-- The exponent. -/
def exponentPart : Scan Int := do
  let _ ← char fun c => c == 'e' || c == 'E'
  let sign ← optional (char fun c => c == '+' || c == '-')
  let n := Number.digitsValue (← digits)
  return if sign = some '-' then -n else n

/-- A number; one beyond every double is none. -/
def number : Scan Json := do
  let sign ← optional (exactly '-')
  let whole ← wholePart
  let fraction ← optional fractionPart
  let exponent ← optional exponentPart
  match Json.ofParts? sign.isSome whole fraction exponent with
  | some n => return n
  | none => fail

/-! ## Strings -/

/-- A character by the code units of UTF-16, two for those beyond the first plane. -/
def codeUnits : Scan Char := do
  let first ← hexNumber 4 0
  if 0xD800 ≤ first ∧ first < 0xDC00 then
    fixed ['\\', 'u']
    let second ← hexNumber 4 0
    if 0xDC00 ≤ second ∧ second < 0xE000 then
      return Char.ofNat (0x10000 + (first - 0xD800) * 0x400 + (second - 0xDC00))
    else fail
  else if 0xDC00 ≤ first ∧ first < 0xE000 then fail
  else return Char.ofNat first

/-- The character that a letter after a backslash stands for. -/
def escaped? : Char → Option Char
  | '"' => some '"'
  | '\\' => some '\\'
  | '/' => some '/'
  | 'b' => some (Char.ofNat 8)
  | 'f' => some (Char.ofNat 12)
  | 'n' => some '\n'
  | 'r' => some '\r'
  | 't' => some '\t'
  | _ => none

/-- A character inside a string. -/
def character : Scan Char :=
  char (fun c => 32 ≤ c.toNat && c != '"' && c != '\\') <|>
  (do
    exactly '\\'
    (do
      exactly 'u'
      codeUnits) <|>
    (do
      let c ← char fun c => (escaped? c).isSome
      return (escaped? c).getD c))

/-- A string. -/
def quoted : Scan String := do
  exactly '"'
  let cs ← many character
  exactly '"'
  return String.ofList cs

/-! ## Values -/

/-- Values with commas between them and white space around them. -/
def listed {α : Type} (item : Scan α) : Scan (List α) := do
  let first ← spaced (optional item)
  match first with
  | none => return []
  | some a =>
    let rest ← many do
      spaced (exactly ',')
      spaced item
    blanks
    return a :: rest

/-- An array of values. -/
def arrayOf (value : Scan Json) : Scan Json := do
  exactly '['
  let items ← listed value
  exactly ']'
  return .array items

/-- A member of an object. -/
def pair (value : Scan Json) : Scan (String × Json) := do
  let key ← quoted
  spaced (exactly ':')
  let v ← spaced value
  return (key, v)

/-- An object of values. -/
def objectOf (value : Scan Json) : Scan Json := do
  exactly '\x7b'
  let members ← listed (pair value)
  exactly '\x7d'
  return .object members

/-- A value without others in it. -/
def scalar : Scan Json :=
  (do
    fixed ['n', 'u', 'l', 'l']
    return .null) <|>
  (do
    fixed ['t', 'r', 'u', 'e']
    return .boolean true) <|>
  (do
    fixed ['f', 'a', 'l', 's', 'e']
    return .boolean false) <|>
  (Json.string <$> quoted) <|> number

/-- A value in which arrays and objects nest to a depth. -/
def value : (depth : Nat) → Scan Json
  | 0 => scalar
  | depth + 1 => scalar <|> arrayOf (value depth) <|> objectOf (value depth)

/-- The depth to which arrays and objects nest. -/
def maxDepth : Nat := 127

/-- A value with white space around it, and nothing else. -/
def document : Scan Json := do
  let j ← spaced (value maxDepth)
  spaced ending
  return j

end JsonGrammar

/-- The value that a text is. -/
def Json.read? (text : String) : Option Json :=
  (JsonGrammar.document (Cursor.start text.toList)).found.map Prod.fst

end Sift
