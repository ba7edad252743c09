import Sift.Derive.Declaration

/-!
# Lexemes between brackets

The lexemes between two brackets belong together, and there may be brackets among them again. Angle
brackets are signs like any other.

* `LexemeTree`: a lexeme, or what stands between two brackets.
* `LexemeTree.ofText`: the trees of a text.
* `LexemeTree.refersTo`: whether a tree refers to a name, by going down into the brackets.
* `LexemeTree.lexemesOf_ofText`: nothing is lost between balanced brackets.
-/

namespace Sift

/-- A lexeme that is no bracket, or what stands between two brackets. -/
inductive LexemeTree where
  | single (l : Lexeme)
  | group (opening : Char) (inside : List LexemeTree)
  deriving Repr

namespace LexemeTree

/-- The brackets that open. -/
def isOpening (c : Char) : Bool := ['(', '[', '\x7b'].contains c

/-- The brackets that close. -/
def isClosing (c : Char) : Bool := [')', ']', '\x7d'].contains c

/-- The bracket that closes what a bracket has opened. -/
def closing (opening : Char) : Char :=
  if opening = '(' then ')' else if opening = '[' then ']' else '\x7d'

/-- The trees once nothing more follows: brackets that are still open are taken for closed. `outer`
are the brackets open before, the innermost first, each behind the trees in front of it. -/
def closeAll (done : List LexemeTree) : (outer : List (List LexemeTree × Char)) → List LexemeTree
  | [] => done
  | (before, opening) :: outer => closeAll (before ++ [group opening done]) outer

/-- The trees of lexemes, `done` being those since the last bracket open before. A bracket that
closes none of those is a lexeme like any other. -/
def treesFrom (outer : List (List LexemeTree × Char)) (done : List LexemeTree) :
    List Lexeme → List LexemeTree
  | [] => closeAll done outer
  | .sign c :: rest =>
    if isOpening c then treesFrom ((done, c) :: outer) [] rest
    else if isClosing c then
      match outer with
      | [] => treesFrom [] (done ++ [single (.sign c)]) rest
      | (before, opening) :: outer => treesFrom outer (before ++ [group opening done]) rest
    else treesFrom outer (done ++ [single (.sign c)]) rest
  | l :: rest => treesFrom outer (done ++ [single l]) rest

/-- The trees of a text. -/
def ofText (s : String) : List LexemeTree := treesFrom [] [] (Lexeme.ofText s)

mutual

/-- Whether a tree refers to a name. -/
def refersTo (name : List Char) : LexemeTree → Bool
  | single l => l == .name name
  | group _ inside => anyRefersTo name inside

/-- Whether one of several trees refers to a name. -/
def anyRefersTo (name : List Char) : List LexemeTree → Bool
  | [] => false
  | t :: rest => t.refersTo name || anyRefersTo name rest

end

mutual

/-- The lexemes of a tree. -/
def lexemes : LexemeTree → List Lexeme
  | single l => [l]
  | group opening inside => .sign opening :: lexemesOf inside ++ [.sign (closing opening)]

/-- The lexemes of several trees. -/
def lexemesOf : List LexemeTree → List Lexeme
  | [] => []
  | t :: rest => t.lexemes ++ lexemesOf rest

end

/-! ## Nothing is lost -/

theorem lexemesOf_append (ts us : List LexemeTree) :
    lexemesOf (ts ++ us) = lexemesOf ts ++ lexemesOf us := by
  induction ts with
  | nil => rfl
  | cons t ts ih => rw [List.cons_append, lexemesOf, lexemesOf, ih, List.append_assoc]

theorem lexemesOf_single (l : Lexeme) : lexemesOf [single l] = [l] := rfl

theorem lexemesOf_group (opening : Char) (inside : List LexemeTree) :
    lexemesOf [group opening inside] =
      .sign opening :: lexemesOf inside ++ [.sign (closing opening)] := by
  rw [lexemesOf, lexemesOf, lexemes, List.append_nil]

/-- The lexemes up to the last of the brackets that are open. -/
def lexemesBefore : List (List LexemeTree × Char) → List Lexeme
  | [] => []
  | (before, opening) :: outer => lexemesBefore outer ++ lexemesOf before ++ [.sign opening]

section Balanced

variable {brackets : List Char} {c : Char} {rest : List Lexeme}

theorem areBalanced_opening (h : isOpening c = true) :
    Lexeme.areBalanced brackets (.sign c :: rest) =
      Lexeme.areBalanced (closing c :: brackets) rest := by
  have hc : c = '(' ∨ c = '[' ∨ c = '\x7b' := by simpa [isOpening] using h
  rcases hc with rfl | rfl | rfl <;> rfl

theorem areBalanced_sign (h : isOpening c = false) :
    Lexeme.areBalanced brackets (.sign c :: rest) =
      if isClosing c then brackets.head? == some c && Lexeme.areBalanced brackets.tail rest
      else Lexeme.areBalanced brackets rest := by
  have hc : c ≠ '(' ∧ c ≠ '[' ∧ c ≠ '\x7b' := by simpa [isOpening] using h
  rw [Lexeme.areBalanced, isClosing]
  all_goals
    rintro rfl
    simp at hc

end Balanced

theorem lexemesOf_treesFrom {outer : List (List LexemeTree × Char)} {done : List LexemeTree}
    {ls : List Lexeme} (h : Lexeme.areBalanced (outer.map fun o => closing o.2) ls = true) :
    lexemesOf (treesFrom outer done ls) = lexemesBefore outer ++ lexemesOf done ++ ls := by
  fun_induction treesFrom outer done ls with
  | case1 outer done =>
    cases outer with
    | nil => simp [closeAll, lexemesBefore]
    | cons o outer => cases h
  | case2 outer done c rest hopening ih =>
    rw [areBalanced_opening hopening] at h
    rw [ih h, lexemesBefore, lexemesOf, List.append_nil, List.append_assoc, List.singleton_append]
  | case3 done c rest hopening hclosing ih =>
    rw [areBalanced_sign (Bool.eq_false_iff.2 hopening), if_pos hclosing] at h
    cases h
  | case4 done c rest hopening hclosing before opening outer ih =>
    rw [areBalanced_sign (Bool.eq_false_iff.2 hopening), if_pos hclosing, Bool.and_eq_true] at h
    obtain ⟨hlast, h⟩ := h
    have hc : closing opening = c := by simpa using hlast
    rw [ih h, lexemesOf_append, lexemesOf_group, hc, lexemesBefore]
    simp
  | case5 outer done c rest hopening hclosing ih =>
    rw [areBalanced_sign (Bool.eq_false_iff.2 hopening), if_neg hclosing] at h
    rw [ih h, lexemesOf_append, lexemesOf_single, List.append_assoc, List.append_assoc]
    simp
  | case6 outer done l rest hsign ih =>
    have hrest : Lexeme.areBalanced (outer.map fun o => closing o.2) rest = true := by
      cases l with
      | sign c => exact absurd rfl (hsign c)
      | _ => exact h
    rw [ih hrest, lexemesOf_append, lexemesOf_single]
    simp

/-- **Nothing is lost**, and all stands where it was, if the brackets are balanced. -/
theorem lexemesOf_ofText {s : String} (h : Lexeme.areBalanced [] (Lexeme.ofText s) = true) :
    lexemesOf (ofText s) = Lexeme.ofText s :=
  lexemesOf_treesFrom h

end LexemeTree

end Sift
