import Sift.Derive.LexemeTree

/-!
# Which names a type refers to

* `LexemeTree.OccursAt`: a name among trees, at a depth of brackets.
* `LexemeTree.anyRefersTo_iff`: going down into the brackets finds every name, at whatever depth.
* `mentions_iff_occurs`: **a type refers to a name exactly if the name occurs at some depth.**
-/

namespace Sift

namespace LexemeTree

variable {name : List Char}

/-- **A name occurs at a depth**: as one of the trees themselves, or with one bracket more around
it. -/
inductive OccursAt (name : List Char) : Nat → List LexemeTree → Prop
  | here {ts : List LexemeTree} (h : single (.name name) ∈ ts) : OccursAt name 0 ts
  | inside {depth : Nat} {opening : Char} {inner ts : List LexemeTree}
      (h : group opening inner ∈ ts) (hinner : OccursAt name depth inner) :
      OccursAt name (depth + 1) ts

theorem OccursAt.mono {depth : Nat} {ts us : List LexemeTree} (h : OccursAt name depth ts)
    (hsub : ts ⊆ us) : OccursAt name depth us := by
  cases h with
  | here h => exact .here (hsub h)
  | inside h hinner => exact .inside (hsub h) hinner

theorem anyRefersTo_iff_exists {ts : List LexemeTree} :
    anyRefersTo name ts = true ↔ ∃ t ∈ ts, t.refersTo name = true := by
  induction ts with
  | nil => simp [anyRefersTo]
  | cons t ts ih => simp [anyRefersTo, ih]

theorem OccursAt.anyRefersTo {depth : Nat} {ts : List LexemeTree} (h : OccursAt name depth ts) :
    anyRefersTo name ts = true := by
  induction h with
  | here h => exact anyRefersTo_iff_exists.2 ⟨_, h, beq_self_eq_true _⟩
  | inside h _ ih => exact anyRefersTo_iff_exists.2 ⟨_, h, ih⟩

mutual

theorem exists_occursAt_of_refersTo : ∀ {t : LexemeTree}, t.refersTo name = true →
    ∃ depth, OccursAt name depth [t]
  | single l, h => by
    rw [refersTo, beq_iff_eq] at h
    exact ⟨0, .here (h ▸ List.mem_singleton_self _)⟩
  | group opening inside, h => by
    rw [refersTo] at h
    obtain ⟨depth, hdepth⟩ := exists_occursAt_of_anyRefersTo h
    exact ⟨depth + 1, .inside (List.mem_singleton_self _) hdepth⟩

theorem exists_occursAt_of_anyRefersTo : ∀ {ts : List LexemeTree},
    anyRefersTo name ts = true → ∃ depth, OccursAt name depth ts
  | t :: ts, h => by
    rw [anyRefersTo, Bool.or_eq_true] at h
    rcases h with h | h
    · obtain ⟨depth, hdepth⟩ := exists_occursAt_of_refersTo h
      exact ⟨depth, hdepth.mono (by simp)⟩
    · obtain ⟨depth, hdepth⟩ := exists_occursAt_of_anyRefersTo h
      exact ⟨depth, hdepth.mono (List.subset_cons_self t ts)⟩

end

/-- **Going down into the brackets** finds a name at whatever depth it occurs, and no other. -/
theorem anyRefersTo_iff {ts : List LexemeTree} :
    anyRefersTo name ts = true ↔ ∃ depth, OccursAt name depth ts :=
  ⟨exists_occursAt_of_anyRefersTo, fun ⟨_, h⟩ => h.anyRefersTo⟩

theorem anyRefersTo_append {ts us : List LexemeTree} :
    anyRefersTo name (ts ++ us) = true ↔
      anyRefersTo name ts = true ∨ anyRefersTo name us = true := by
  simp only [anyRefersTo_iff_exists, List.mem_append, or_and_right, exists_or]

theorem anyRefersTo_single {l : Lexeme} : anyRefersTo name [single l] = true ↔ .name name = l := by
  rw [anyRefersTo, anyRefersTo, refersTo, Bool.or_false, beq_iff_eq, eq_comm]

theorem anyRefersTo_group {opening : Char} {inside : List LexemeTree} :
    anyRefersTo name [group opening inside] = true ↔ anyRefersTo name inside = true := by
  rw [anyRefersTo, anyRefersTo, refersTo, Bool.or_false]

/-- Closing the brackets that are still open loses no name. -/
theorem anyRefersTo_closeAll {done : List LexemeTree} {outer : List (List LexemeTree × Char)} :
    anyRefersTo name (closeAll done outer) = true ↔
      (∃ o ∈ outer, anyRefersTo name o.1 = true) ∨ anyRefersTo name done = true := by
  induction outer generalizing done with
  | nil => simp [closeAll]
  | cons o outer ih =>
    rw [closeAll, ih, anyRefersTo_append, anyRefersTo_group]
    simp [or_comm, or_assoc]

/-- **No name is lost between the brackets**: those of the trees are those of the lexemes. -/
theorem anyRefersTo_treesFrom {outer : List (List LexemeTree × Char)} {done : List LexemeTree}
    {ls : List Lexeme} :
    anyRefersTo name (treesFrom outer done ls) = true ↔
      (∃ o ∈ outer, anyRefersTo name o.1 = true) ∨ anyRefersTo name done = true ∨
        .name name ∈ ls := by
  fun_induction treesFrom outer done ls with
  | case1 outer done => simp [anyRefersTo_closeAll]
  | case2 outer done c rest hopening ih =>
    -- the trees since the last bracket are now those in front of the next one
    rw [ih]
    simp [anyRefersTo, or_comm, or_assoc]
  | case3 done c rest hopening hclosing ih => simp [ih, anyRefersTo_append, anyRefersTo_single]
  | case4 done c rest hopening hclosing before opening outer ih =>
    rw [ih, anyRefersTo_append, anyRefersTo_group]
    simp [or_assoc, or_left_comm]
  | case5 outer done c rest hopening hclosing ih =>
    simp [ih, anyRefersTo_append, anyRefersTo_single]
  | case6 outer done l rest hsign ih =>
    rw [ih, anyRefersTo_append, anyRefersTo_single, List.mem_cons, or_assoc]

end LexemeTree

/-- **A type refers to a name** exactly if the name occurs in it between some number of brackets. -/
theorem mentions_iff_occurs {type name : String} :
    mentions type name = true ↔
      ∃ depth, LexemeTree.OccursAt name.toList depth (LexemeTree.ofText type) := by
  rw [← LexemeTree.anyRefersTo_iff, LexemeTree.ofText, LexemeTree.anyRefersTo_treesFrom, mentions,
    List.contains_iff_mem]
  simp [LexemeTree.anyRefersTo]

end Sift
