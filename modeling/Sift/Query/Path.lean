import Sift.Filter.Reading
import Sift.Query.Error
import Sift.Query.Shape

/-!
# Paths through types

* `PathSegment`: a member on the way, with what it holds.
* `Schema.resolve`: the members that a path leads through, from the root type on.
-/

namespace Sift

variable {n : Nat}

/-- A member on a path. -/
structure PathSegment (n : Nat) where
  name : String
  type : FieldType n
  deriving DecidableEq, Repr

/-- Whether a path goes through a list, or ends at one. -/
def hasProjection (segments : List (PathSegment n)) : Bool := segments.any (·.type.isList)

namespace Schema

/-- The refusal of a name that a type has no member of. A name that differs in case alone is
suggested. -/
def unknownMember (shape : Shape n) (name : String) : QueryError :=
  let e := QueryError.unknownMember shape.name name
  match (shape.members.map Prod.fst).find? (Text.sameWord · name) with
  | some close => e.withSuggestion s!"did you mean `{close}`?"
  | none => e

/-- The members that names lead through, from a type on. -/
def resolveFrom (s : Schema n) (type : Fin n) :
    List String → Except QueryError (List (PathSegment n))
  | [] => .ok []
  | name :: rest =>
    match (s.shape type).member? name with
    | none => .error (unknownMember (s.shape type) name)
    | some t =>
      match rest, t.object? with
      | [], _ => .ok [⟨name, t⟩]
      | next :: _, none =>
        .error ((QueryError.unknownMember (s.typeName t) next).withHelp
          s!"`{name}` is not an object and has no members")
      | _ :: _, some inner => (⟨name, t⟩ :: ·) <$> s.resolveFrom inner rest

/-- The names that a path consists of. -/
def pathNames (path : String) : Except QueryError (List String) :=
  (fieldNames path).mapError fun e => (QueryError.ofSyntaxError e).withField path

/-- The members that a path leads through from the root type. -/
def resolve (s : Schema n) (path : String) : Except QueryError (List (PathSegment n)) := do
  s.resolveFrom s.root (← pathNames path)

end Schema

end Sift
