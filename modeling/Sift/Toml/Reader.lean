import Sift.Calendar.DateTime
import Sift.Scan
import Sift.Toml.Basic

/-!
# Reading TOML

* `TomlGrammar.value`: a value, as a scanner. Arrays and inline tables nest 79 deep at most.
* `TomlGrammar.line`: a line of a document.
* `Toml.read?`: the document that a text is.
-/

namespace Sift

namespace TomlGrammar

open Scan

/-! ## White space and ends of lines -/

/-- White space inside a line. -/
def isSpace (c : Char) : Bool := c == ' ' || c == '\t'

/-- Anything but a control character; a tab is allowed. -/
def isPrintable (c : Char) : Bool := c == '\t' || (32 ≤ c.toNat && c.toNat != 127)

/-- The white space here. -/
def spaces : Scan Unit := do
  let _ ← many (char isSpace)

/-- An end of a line. -/
def newline : Scan Unit :=
  exactly '\n' <|> (do
    exactly '\r'
    exactly '\n')

/-- A comment, up to the end of its line. -/
def comment : Scan Unit := do
  exactly '#'
  let _ ← many (char isPrintable)

/-- The end of a line or of the text. -/
def lineEnd : Scan Unit := newline <|> ending

/-- What may follow on a line that is complete. -/
def lineRest : Scan Unit := do
  spaces
  let _ ← optional comment
  lineEnd

/-- White space, comments and ends of lines. -/
def gap : Scan Unit := do
  let _ ← many ((do
    let _ ← char isSpace) <|> newline <|> (do
    comment
    newline))

/-! ## Strings -/

/-- A character by its number, if there is one. -/
def charOfCode (n : Nat) : Scan Char :=
  if h : n.isValidChar then Scan.pure (Char.ofNatAux n h) else fail

/-- The character that a letter after a backslash stands for. -/
def escaped? : Char → Option Char
  | 'b' => some (Char.ofNat 8)
  | 't' => some '\t'
  | 'n' => some '\n'
  | 'f' => some (Char.ofNat 12)
  | 'r' => some '\r'
  | '"' => some '"'
  | '\\' => some '\\'
  | _ => none

/-- A character behind a backslash. -/
def escape : Scan Char := do
  exactly '\\'
  let c ← char fun _ => true
  match c, escaped? c with
  | _, some c => return c
  | 'u', none => charOfCode (← hexNumber 4 0)
  | 'U', none => charOfCode (← hexNumber 8 0)
  | _, none => fail

/-- A character between double quotes. -/
def basicChar : Scan Char := char (fun c => isPrintable c && c != '"' && c != '\\') <|> escape

/-- A text between double quotes. -/
def basicString : Scan (List Char) := do
  exactly '"'
  let cs ← many basicChar
  exactly '"'
  return cs

/-- A text between single quotes, where nothing is escaped. -/
def literalString : Scan (List Char) := do
  exactly '\''
  let cs ← many (char fun c => isPrintable c && c != '\'')
  exactly '\''
  return cs

/-- A quote that is written as often as given. -/
def quotes (c : Char) : Nat → Scan (List Char)
  | 0 => Scan.pure []
  | n + 1 => do
    exactly c
    return c :: (← quotes c n)

/-- One or two quotes in the middle of a text over several lines. -/
def innerQuotes (c : Char) : Scan (List Char) :=
  (do
    let cs ← quotes c 2
    notBefore (· == c)
    return cs) <|>
  (do
    let cs ← quotes c 1
    notBefore (· == c)
    return cs)

/-- The three quotes that end a text over several lines, with up to two that belong to it. -/
def closingQuotes (c : Char) : Scan (List Char) := do
  let cs ← quotes c 5 <|> quotes c 4 <|> quotes c 3
  return cs.drop 3

/-- A backslash at the end of a line: what follows is taken up at the next text. -/
def continuation : Scan (List Char) := do
  exactly '\\'
  spaces
  newline
  let _ ← many ((do
    let _ ← char isSpace) <|> newline)
  return []

/-- An end of a line inside a text. -/
def innerNewline : Scan (List Char) := do
  newline
  return ['\n']

/-- A text over several lines, from pieces of it. -/
def multiline (quote : Char) (piece : Scan (List Char)) : Scan (List Char) := do
  let _ ← quotes quote 3
  let _ ← optional newline
  let pieces ← many (piece <|> innerNewline <|> innerQuotes quote)
  let last ← closingQuotes quote
  return pieces.flatten ++ last

/-- A text of any form. -/
def anyString : Scan (List Char) :=
  multiline '"' (((fun c => [c]) <$> basicChar) <|> continuation) <|>
  basicString <|>
  multiline '\'' ((fun c => [c]) <$> char fun c => isPrintable c && c != '\'') <|>
  literalString

/-! ## Numbers, dates and times -/

/-- Digits of a class, with single underscores between them. -/
def digitRun (isDigit : Char → Bool) : Scan (List Char) := do
  let first ← char isDigit
  let rest ← many (char isDigit <|> (do
    exactly '_'
    char isDigit))
  return first :: rest

/-- Decimal digits without zeros in front. -/
def decimal : Scan (List Char) := do
  let ds ← digitRun Char.isDigit
  if ds.head? = some '0' ∧ 1 < ds.length then fail else return ds

/-- The integer with some digits in a base. -/
def ofDigits (base : Nat) (negative : Bool) (ds : List Char) : Scan Toml :=
  let n := ds.foldl (fun n c => base * n + (Number.hexValue? c).getD 0) 0
  match Number.toInt64? (if negative then -n else n) with
  | some i => Scan.pure (.integer i)
  | none => fail

/-- An integer in a base that letters announce. -/
def based (letter : Char) (base : Nat) (isDigit : Char → Bool) : Scan Toml := do
  exactly '0'
  exactly letter
  ofDigits base false (← digitRun isDigit)

/-- A sign, if there is one. -/
def sign : Scan (Option Char) := optional (char fun c => c == '+' || c == '-')

/-- An integer. -/
def integer : Scan Toml :=
  based 'x' 16 (fun c => (Number.hexValue? c).isSome) <|>
  based 'o' 8 (fun c => '0' ≤ c && c ≤ '7') <|>
  based 'b' 2 (fun c => c == '0' || c == '1') <|>
  (do
    let s ← sign
    ofDigits 10 (s == some '-') (← decimal))

/-- The fraction of a number. -/
def fraction : Scan Unit := do
  exactly '.'
  let _ ← digitRun Char.isDigit

/-- The exponent of a number. -/
def exponent : Scan Unit := do
  let _ ← char fun c => c == 'e' || c == 'E'
  let _ ← sign
  let _ ← digitRun Char.isDigit

/-- A number with a fraction or an exponent, or a name for one. -/
def float : Scan Toml := do
  let _ ← sign
  fixed ['i', 'n', 'f'] <|> fixed ['n', 'a', 'n'] <|> (do
    let _ ← decimal
    exponent <|> (do
      fraction
      let _ ← optional exponent))
  return .other

/-- A number of some decimal digits, at most `last`. -/
def number (width last : Nat) : Scan Nat := do
  let n := Number.digitsValue (← digitsOf width)
  if n ≤ last then return n else fail
where
  digitsOf : Nat → Scan (List Char)
    | 0 => Scan.pure []
    | n + 1 => do
      let c ← char Char.isDigit
      return c :: (← digitsOf n)

/-- A date. -/
def date : Scan Unit := do
  let year ← number 4 9999
  exactly '-'
  let month ← number 2 12
  exactly '-'
  let day ← number 2 31
  if 1 ≤ month ∧ 1 ≤ day ∧ day ≤ daysInMonth year month then return () else fail

/-- A time of day. -/
def time : Scan Unit := do
  let _ ← number 2 23
  exactly ':'
  let _ ← number 2 59
  exactly ':'
  let _ ← number 2 60
  let _ ← optional do
    exactly '.'
    let _ ← char Char.isDigit
    many (char Char.isDigit)

/-- An offset from UTC. -/
def offset : Scan Unit :=
  (do
    let _ ← char fun c => c == 'Z' || c == 'z') <|>
  (do
    let _ ← char fun c => c == '+' || c == '-'
    let _ ← number 2 23
    exactly ':'
    let _ ← number 2 59)

/-- A date, a time, or both. -/
def moment : Scan Toml := do
  (do
    date
    let _ ← optional do
      let _ ← char fun c => c == 'T' || c == 't' || c == ' '
      time
      optional offset) <|> time
  return .other

/-! ## Keys and values -/

/-- One part of a key. -/
def simpleKey : Scan String :=
  String.ofList <$> (basicString <|> literalString <|> (do
    let first ← char isBareKey
    let rest ← many (char isBareKey)
    return first :: rest))
where
  isBareKey (c : Char) : Bool := c.isAlphanum || c == '_' || c == '-'

/-- A key: its parts with points between them. -/
def key : Scan (List String) := do
  let first ← part
  let rest ← many do
    exactly '.'
    part
  if 79 < (first :: rest).length then fail else return first :: rest
where
  part : Scan String := do
    spaces
    let k ← simpleKey
    spaces
    return k

/-- A key with a value: the names before the last, the last name and the value. -/
def entry (value : Scan Toml) : Scan (List String × String × Toml) := do
  let path ← key
  exactly '='
  spaces
  let v ← value
  return (path.dropLast, path.getLast?.getD "", v)

/-- Values with commas between them. -/
def array (value : Scan Toml) : Scan Toml := do
  exactly '['
  gap
  let first ← optional value
  match first with
  | none =>
    exactly ']'
    return .array []
  | some first =>
    gap
    let rest ← many do
      exactly ','
      gap
      let v ← value
      gap
      return v
    let _ ← optional (exactly ',')
    gap
    exactly ']'
    return .array (first :: rest)

/-- A table on one line. -/
def inlineTable (value : Scan Toml) : Scan Toml := do
  exactly '\x7b'
  spaces
  let first ← optional (entry value)
  let rest ← match first with
    | none => Scan.pure []
    | some _ => do
      spaces
      many do
        exactly ','
        let e ← entry value
        spaces
        return e
  exactly '\x7d'
  let members := (first.toList ++ rest).foldlM
    (fun members (path, k, v) => Toml.insert? path k v .value members) []
  match members with
  | some members => return .table .value members
  | none => fail

/-- A value that holds no others. -/
def scalar : Scan Toml :=
  (do
    let cs ← anyString
    return .string (String.ofList cs)) <|>
  (do
    fixed ['t', 'r', 'u', 'e']
    return .boolean true) <|>
  (do
    fixed ['f', 'a', 'l', 's', 'e']
    return .boolean false) <|>
  moment <|> float <|> integer

/-- A value in which arrays and tables nest to a depth. -/
def value : (depth : Nat) → Scan Toml
  | 0 => scalar
  | depth + 1 => scalar <|> array (value depth) <|> inlineTable (value depth)

/-! ## Documents -/

/-- A key in brackets. -/
def header : Scan TomlLine :=
  (do
    exactly '['
    exactly '['
    let path ← key
    exactly ']'
    exactly ']'
    return .elementHeader path) <|>
  (do
    exactly '['
    let path ← key
    exactly ']'
    return .tableHeader path)

/-- A line with something to say. -/
def line : Scan TomlLine := do
  let l ← header <|> (do
    let (path, k, v) ← entry (value 79)
    return .entry path k v)
  lineRest
  return l

/-- A line that says nothing. -/
def emptyLine : Scan Unit := newline <|> (do
  comment
  lineEnd)

/-- The lines of a document. -/
def lines : Scan (List TomlLine) := do
  let _ ← optional (char (·.toNat == 0xFEFF))
  spaces
  let found ← many do
    let l ← (some <$> line) <|> (emptyLine *> Scan.pure none)
    spaces
    return l
  ending
  return found.filterMap id

end TomlGrammar

/-- The document that a text is. -/
def Toml.read? (text : String) : Option Toml.Members :=
  ((TomlGrammar.lines (Cursor.start text.toList)).found.map Prod.fst).bind Toml.ofLines?

end Sift
