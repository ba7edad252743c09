import Sift.Error
import Sift.Json.Token
import Sift.Scan
import Sift.Sorting.Basic

/-!
# Reading sorts

    -Age, Name, Henchman["Weapons"].Level

Names are ASCII, and a name in brackets stands between quotes of which it holds none.

* `Sorting.ofText`: the sort that a text stands for, or its parts that are no keys.
* `sortParts`: the parts of a text, at the commas outside quotes.
* `Sorting.ofJson?`: the sort that a JSON value stands for.
-/

namespace Sift

open Scan

namespace SortGrammar

/-- All the white space here. -/
def blanks : Scan Unit := do
  let _ ← many (char Text.isAsciiBlank)

/-- A plain name. -/
def name : Scan (List Char) := do
  let first ← char Text.isWordStart
  let rest ← many (char Text.isWord)
  return first :: rest

/-- A step of a path as it is written: a name after a point, or in brackets and quotes. -/
def step : Scan (List Char) :=
  (do
    exactly '.'
    let cs ← name
    return '.' :: cs) <|>
  (do
    exactly '['
    exactly '"'
    let cs ← many (char fun c => c != '"' && c != ']')
    exactly '"'
    exactly ']'
    return '[' :: '"' :: cs ++ ['"', ']'])

/-- A path as it is written. -/
def path : Scan (List Char) := do
  let first ← name
  let steps ← many step
  return first ++ steps.flatten

/-- A path with a sign before it. -/
def key : Scan SortKey := do
  let sign ← optional (char fun c => c == '-' || c == '+')
  let cs ← path
  return ⟨String.ofList cs, if sign = some '-' then .descending else .ascending⟩

/-- A key alone in a text. -/
def loneKey : Scan SortKey := do
  blanks
  let k ← key
  blanks
  ending
  return k

/-- Keys with commas between them. -/
def keys : Scan (List SortKey) := do
  blanks
  let first ← key
  let rest ← many do
    blanks
    exactly ','
    blanks
    key
  blanks
  ending
  return first :: rest

end SortGrammar

/-- What a scanner finds in a whole text. -/
def Scan.found? {α : Type} (p : Scan α) (text : List Char) : Option α :=
  (p (Cursor.start text)).found.map Prod.fst

/-- The parts of a text between the commas outside quotes, when `part` stands, reversed, before it
in its first part. -/
def sortParts (quoted : Bool) (part : List Char) : List Char → List (List Char)
  | [] => [part.reverse]
  | c :: rest =>
    if c == '"' then sortParts (!quoted) (c :: part) rest
    else if c == ',' && !quoted then part.reverse :: sortParts quoted [] rest
    else sortParts quoted (c :: part) rest

/-- The sort that a text stands for. A refusal names all parts that are no keys. -/
def Sorting.ofText (text : String) : Except SyntaxError Sorting :=
  match SortGrammar.keys.found? text.toList with
  | some keys => .ok (.ofKeys keys)
  | none =>
    let parts := sortParts false [] text.toList
    let wrong := parts.filter fun part => (SortGrammar.loneKey.found? part).isNone
    .error (.invalidSort (wrong.map String.ofList))

/-! ## JSON -/

/-- A direction by its exact word. -/
def Direction.ofJson? : Json → Option Direction :=
  Json.token? fun s => [Direction.ascending, Direction.descending].find? fun d => d.token == s

/-- The parts of a key that are known. -/
structure SortKeyParts where
  field : Option String := none
  direction : Option Direction := none

namespace SortKeyParts

/-- One more part. Parts cannot be repeated; there may be others, which mean nothing. -/
def add? (parts : SortKeyParts) (key : String) (value : Json) : Option SortKeyParts :=
  if key = "field" then
    match parts.field, value with
    | none, .string s => some { parts with field := some s }
    | _, _ => none
  else if key = "direction" then
    match parts.direction with
    | none => (Direction.ofJson? value).map fun d => { parts with direction := some d }
    | some _ => none
  else some parts

/-- The key of the parts, ascending where no direction is given. -/
def key? (parts : SortKeyParts) : Option SortKey :=
  parts.field.map fun field => ⟨field, parts.direction.getD .ascending⟩

/-- The key that keyed parts make up. -/
def ofMembers? (members : List (String × Json)) : Option SortKey :=
  (members.foldlM (fun parts m => SortKeyParts.add? parts m.1 m.2) {}).bind key?

end SortKeyParts

/-- The key that a JSON value stands for: an object of its parts, or an array of them in order, of
which the last may be missing. -/
def SortKey.ofJson? : Json → Option SortKey
  | .object members => SortKeyParts.ofMembers? members
  | .array items =>
    if 2 < items.length then none else SortKeyParts.ofMembers? (["field", "direction"].zip items)
  | _ => none

/-- The sort that a JSON value stands for: a key, or else an array of keys. -/
def Sorting.ofJson? (j : Json) : Option Sorting :=
  ((SortKey.ofJson? j).map .single).or <|
    match j with
    | .array items => (items.mapM SortKey.ofJson?).map .several
    | _ => none

end Sift
