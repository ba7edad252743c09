import Sift.Filter.Expression

/-!
# Equivalent expressions

A looser comparison than equality: the operands of a disjunction may be exchanged, the choices of a
set reordered and repeated, and a disjunction or set of one thing is that thing.

* `Expression.choicesMatch`: a set against any expression.
* `Expression.collapsesTo`: an expression against one that is no disjunction.
* `Expression.equivalent`: any two expressions.
-/

namespace Sift.Expression

/-- Whether a set of choices is another set, or has no other choice than one expression. -/
def choicesMatch (choices : List Expression) : Expression → Bool
  | oneOf others => choices.all others.contains && others.all choices.contains
  | e => !choices.isEmpty && choices.all (· == e)

/-- Whether an expression comes down to `target`, which is no disjunction. -/
def collapsesTo (target : Expression) : Expression → Bool
  | or left right => left == right && collapsesTo target left
  | oneOf choices => choicesMatch choices target
  | e => match target with
    | oneOf choices => choicesMatch choices e
    | _ => e == target

/-- Whether two expressions mean the same by their shape. -/
def equivalent : Expression → Expression → Bool
  | or a b, or c d =>
    (equivalent a c && equivalent b d) || (equivalent a d && equivalent b c)
  | or a b, e => collapsesTo e (or a b)
  | oneOf choices, e => choicesMatch choices e
  | e, or a b => collapsesTo e (or a b)
  | a, b => collapsesTo b a

end Sift.Expression
