import Sift.Json.Basic

/-!
# Words as JSON values

A value out of a fixed few is stored as the word for it.

* `Json.token?`: reads a word; an object with the word and null stands for it too.
-/

namespace Sift

/-- A value by the word for it: the word itself, or an object with the word and null. -/
def Json.token? {α : Type} (ofWord? : String → Option α) : Json → Option α
  | .string s => ofWord? s
  | .object [(key, .null)] => ofWord? key
  | _ => none

end Sift
