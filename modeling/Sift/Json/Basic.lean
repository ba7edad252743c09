import Sift.Number.Layout

/-!
# JSON values

* `Json`: values, with the members of objects in their order and with repetitions.
* `Json.text`: the compact text of a value.
-/

namespace Sift

/-- A JSON value. Whole numbers of 64 bits are kept apart from other numbers. -/
inductive Json where
  | null
  | boolean (b : Bool)
  | integer (i : Int64)
  | float (f : Binary64)
  | string (s : String)
  | array (items : List Json)
  | object (members : List (String × Json))

namespace Json

/-- A text or null. -/
def ofOption (s : Option String) : Json := s.elim null string

/-- A character inside a string. -/
def escape (c : Char) : List Char :=
  if c = '"' ∨ c = '\\' then ['\\', c]
  else if c = '\n' then ['\\', 'n']
  else if c = '\r' then ['\\', 'r']
  else if c = '\t' then ['\\', 't']
  else if c.toNat = 8 then ['\\', 'b']
  else if c.toNat = 12 then ['\\', 'f']
  else if c.toNat < 32 then
    ['\\', 'u', '0', '0', Nat.digitChar (c.toNat / 16), Nat.digitChar (c.toNat % 16)]
  else [c]

/-- The text of a string. -/
def stringText (s : String) : List Char := '"' :: s.toList.flatMap escape ++ ['"']

/-- The text of a number; there is none for NaN and the infinities. -/
def floatText : Binary64 → List Char
  | .finite negative steps fits => Number.Layout.json.text (.finite negative steps fits)
  | _ => ['n', 'u', 'l', 'l']

mutual

/-- The text of a value, without white space. -/
def text : Json → List Char
  | null => ['n', 'u', 'l', 'l']
  | boolean b => if b then ['t', 'r', 'u', 'e'] else ['f', 'a', 'l', 's', 'e']
  | integer i => Number.intText i.toInt
  | float f => floatText f
  | string s => stringText s
  | array items => '[' :: itemsText items ++ [']']
  | object members => '\x7b' :: membersText members ++ ['\x7d']

/-- The texts of values with commas between them. -/
def itemsText : List Json → List Char
  | [] => []
  | [item] => text item
  | item :: rest => text item ++ ',' :: itemsText rest

/-- The texts of members with commas between them. -/
def membersText : List (String × Json) → List Char
  | [] => []
  | [(key, value)] => stringText key ++ ':' :: text value
  | (key, value) :: rest => stringText key ++ ':' :: text value ++ ',' :: membersText rest

end

end Json

end Sift
