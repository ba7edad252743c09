import Sift.Scan
import Sift.Text.Blank

/-!
# Lexemes of declarations

The types, bounds and paths of a declaration are written in lexemes: names, literals and signs,
with white space and comments between them that mean nothing.

* `Lexeme`: names, literals and signs.
* `Lexeme.ofText`: the lexemes of a text.
* `Lexeme.written`: lexemes written next to each other.
-/

namespace Sift

/-- The smallest part of a type, a bound or a path that means something. -/
inductive Lexeme where
  /-- A name or a keyword. A raw name keeps its mark. -/
  | name (cs : List Char)
  /-- A number, a character or a text, with its quotes. -/
  | literal (cs : List Char)
  | sign (c : Char)
  deriving DecidableEq, Repr

namespace Lexeme

open Scan

/-- The characters of a lexeme. -/
def chars : Lexeme → List Char
  | name cs => cs
  | literal cs => cs
  | sign c => [c]

/-! ## What stands between lexemes -/

/-- White space, and the two marks of writing direction. -/
def isGap (c : Char) : Bool := Text.isBlank c || c.toNat == 0x200E || c.toNat == 0x200F

/-- A comment up to the end of its line. -/
def lineComment : Scan Unit := do
  fixed ['/', '/']
  let _ ← many (char (· != '\n'))

/-- A comment between two signs. Comments in it nest to a depth. -/
def blockComment : (depth : Nat) → Scan Unit
  | 0 => fail
  | depth + 1 => do
    fixed ['/', '*']
    let _ ← many (blockComment depth <|> (do
      let _ ← char (· != '*')) <|> (do
      exactly '*'
      notBefore (· == '/')))
    fixed ['*', '/']

/-- All that means nothing here. -/
def gaps : Scan Unit := fun here =>
  (do
    let _ ← many ((do
      let _ ← char isGap) <|> lineComment <|> blockComment here.rest.length) : Scan Unit) here

/-! ## Names and numbers -/

/-- Whether a character can stand in a name. -/
def isNameChar (c : Char) : Bool := Text.isWord c || (128 ≤ c.toNat && !isGap c)

/-- A run of characters that can stand in names. -/
def nameRun : Scan (List Char) := do
  let c ← char isNameChar
  let rest ← many (char isNameChar)
  return c :: rest

/-- A number, up to a point or sign in it. -/
def numberRun : Scan (List Char) := do
  let c ← char Char.isDigit
  let rest ← many (char isNameChar)
  return c :: rest

/-- A name, raw or not. -/
def nameText : Scan (List Char) :=
  (do
    fixed ['r', '#']
    return 'r' :: '#' :: (← nameRun)) <|> nameRun

/-! ## Quoted literals -/

/-- A character inside quotes, alone or behind a backslash. -/
def quotedChar (quote : Char) : Scan (List Char) :=
  (do
    exactly '\\'
    return ['\\', ← char fun _ => true]) <|>
  (do return [← char fun c => c != quote && c != '\\'])

/-- A text between double quotes. -/
def textLiteral : Scan (List Char) := do
  exactly '"'
  let inside ← many (quotedChar '"')
  exactly '"'
  return '"' :: inside.flatten ++ ['"']

/-- A character between single quotes. Only behind a backslash is it written in several. -/
def charLiteral : Scan (List Char) := do
  exactly '\''
  let inside ← (do
    exactly '\\'
    let c ← char fun _ => true
    return '\\' :: c :: (← many (char (· != '\'')))) <|> quotedChar '\''
  exactly '\''
  return '\'' :: inside ++ ['\'']

/-- A raw text: it ends where a quote is followed by as many signs as stand before the first. -/
def rawLiteral : Scan (List Char) := do
  exactly 'r'
  let hashes ← many (char (· == '#'))
  exactly '"'
  let inside ← many (char (· != '"') <|> (do
    let c ← char fun _ => true
    unlessFixed hashes
    return c))
  exactly '"'
  fixed hashes
  return 'r' :: hashes ++ '"' :: inside ++ '"' :: hashes
where
  /-- Succeeds, without reading, where a fixed text does not follow. -/
  unlessFixed (cs : List Char) : Scan Unit := fun here =>
    if (fixed cs here).found.isSome then fail here else Scan.pure () here

/-- A quoted literal of bytes, or of a text with an end mark, has a letter in front. -/
def quotedLiteral : Scan (List Char) := do
  let letter ← optional (char fun c => c == 'b' || c == 'c')
  let literal ← rawLiteral <|> textLiteral <|> charLiteral
  return letter.toList ++ literal

/-! ## Lexemes -/

/-- A lexeme. -/
def lexeme : Scan Lexeme :=
  (literal <$> quotedLiteral) <|> (literal <$> numberRun) <|> (name <$> nameText) <|>
    (sign <$> char fun _ => true)

/-- The lexemes of a text. -/
def ofText (s : String) : List Lexeme :=
  let all : Scan (List Lexeme) := do
    gaps
    many do
      let l ← lexeme
      gaps
      return l
  ((all (Cursor.start s.toList)).found.map Prod.fst).getD []

/-! ## Well-formed lexemes -/

/-- Whether brackets are closed in the order in which they were opened; `closing` are the brackets
that close those open before. -/
def areBalanced (closing : List Char) : List Lexeme → Bool
  | [] => closing.isEmpty
  | sign '(' :: rest => areBalanced (')' :: closing) rest
  | sign '[' :: rest => areBalanced (']' :: closing) rest
  | sign '\x7b' :: rest => areBalanced ('\x7d' :: closing) rest
  | sign c :: rest =>
    if [')', ']', '\x7d'].contains c then closing.head? == some c && areBalanced closing.tail rest
    else areBalanced closing rest
  | _ :: rest => areBalanced closing rest

/-- Whether each sign is one that has a meaning. A single quote has one before a name. -/
def areKnown : List Lexeme → Bool
  | [] => true
  | sign '\'' :: rest => (rest.head?.any fun l => l matches name _) && areKnown rest
  | sign c :: rest => "~!@#$%^&*-=+|;:,<.>/?()[]\x7b\x7d".toList.contains c && areKnown rest
  | _ :: rest => areKnown rest

/-- Whether lexemes can stand in a declaration. -/
def areWellFormed (ls : List Lexeme) : Bool := areKnown ls && areBalanced [] ls

/-- Lexemes next to each other, also without the white space in literals. -/
def written (ls : List Lexeme) : String :=
  String.ofList ((ls.flatMap chars).filter fun c => !Text.isBlank c)

end Lexeme

end Sift
