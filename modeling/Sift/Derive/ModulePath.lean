import Sift.Derive.Lexeme

/-!
# Paths of modules

A path is made of names with double colons between them, and may have one in front.

* `PathFault`: why lexemes are no path.
* `pathFault?`: what is wrong with lexemes as a path, if anything is.
-/

namespace Sift

/-- Why lexemes are no path. -/
inductive PathFault where
  /-- The text cannot be divided into lexemes. -/
  | unreadable
  /-- The text ends where a name should stand. -/
  | missingName
  /-- Something else stands where a name should. -/
  | notName
  /-- A keyword stands where a name should. -/
  | keyword (name : String)
  /-- Something follows the path. -/
  | excess
  deriving DecidableEq, Repr

/-- The wording of a fault. -/
def PathFault.message : PathFault → String
  | unreadable => "cannot parse string into token stream"
  | missingName => "unexpected end of input, expected identifier"
  | notName => "expected identifier"
  | keyword name => s!"expected identifier, found keyword `{name}`"
  | excess => "unexpected token"

/-- The keywords that cannot be a part of a path. -/
def reservedNames : List String :=
  ["_", "abstract", "as", "async", "await", "become", "box", "break", "const", "continue", "do",
   "dyn", "else", "enum", "extern", "false", "final", "fn", "for", "if", "impl", "in", "let",
   "loop", "macro", "match", "mod", "move", "mut", "override", "priv", "pub", "ref", "return",
   "static", "struct", "trait", "true", "type", "typeof", "unsafe", "unsized", "use", "virtual",
   "where", "while", "yield"]

/-- What is wrong with the rest of a path, `expectsName` telling whether a name comes next. The
arguments of a name are not looked into. -/
def pathFaultFrom? : (expectsName : Bool) → List Lexeme → Option PathFault
  | true, [] => some .missingName
  | true, .name cs :: rest =>
    let n := String.ofList cs
    if reservedNames.contains n then some (.keyword n) else pathFaultFrom? false rest
  | true, _ :: _ => some .notName
  | false, [] => none
  | false, .sign ':' :: .sign ':' :: rest => pathFaultFrom? true rest
  | false, .sign '<' :: _ => none
  | false, _ :: _ => some .excess

/-- What is wrong with lexemes as a path, if anything is. -/
def pathFault? (ls : List Lexeme) : Option PathFault :=
  if !Lexeme.areWellFormed ls then some .unreadable
  else match ls with
    | .sign ':' :: .sign ':' :: rest => pathFaultFrom? true rest
    | _ => pathFaultFrom? true ls

end Sift
