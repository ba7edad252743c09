import Sift.Proofs.Spine
import Sift.Proofs.WordText

/-!
# How deep brackets nest

* `Shallow`: a text in which brackets do not nest deeper than a limit.
* `Nests n cs`: a text whose brackets are closed again and nest `n` deep, whatever surrounds it.
* `Expression.nests_text`: the brackets of a written expression nest as deep as
  `Expression.nesting` tells.
* `checkDepth_eq_ok`, `checkDepth_text`: when a text is refused for its brackets; no expression is
  for those that it is written with.
-/

namespace Sift

/-- Whether the brackets of a text, with `depth` of them open before it, stay within a limit. -/
def Shallow (limit depth : Nat) (cs : List Char) : Prop :=
  depth ≤ limit ∧ overDeep? limit depth .outside 0 cs = none

variable {limit depth n m : Nat} {c : Char} {cs rest : List Char}

/-- Offsets do not matter for whether brackets nest too deep. -/
theorem overDeep?_eq_none_iff (s : Surroundings) (a b : Nat) :
    overDeep? limit depth s a cs = none ↔ overDeep? limit depth s b cs = none := by
  induction cs generalizing depth s a b with
  | nil => simp only [overDeep?]
  | cons c cs ih =>
    simp only [overDeep?]
    generalize (if s = .outside then depthAfter depth c else depth) = d
    by_cases h : limit < d
    · simp only [h, if_true, reduceCtorEq]
    · simp only [h, if_false]
      exact ih _ _ _

/-- The characters that neither open nor close anything. -/
def isFlat (c : Char) : Bool := !(['(', ')', '[', ']', '\x7b', '\x7d', '"'].contains c)

theorem shallow_nil : Shallow limit depth [] ↔ depth ≤ limit := by simp [Shallow, overDeep?]

theorem shallow_cons (hquote : c ≠ '"') :
    Shallow limit depth (c :: cs) ↔ depth ≤ limit ∧ Shallow limit (depthAfter depth c) cs := by
  unfold Shallow
  simp only [overDeep?, if_true, Surroundings.after, beq_iff_eq, if_neg hquote]
  by_cases h : limit < depthAfter depth c
  · simp only [h, if_true, reduceCtorEq, and_false, false_iff, not_and]
    omega
  · simp only [h, if_false]
    -- the rest is looked at from another offset
    rw [overDeep?_eq_none_iff _ _ 0]
    have hle : depthAfter depth c ≤ limit := by omega
    simp only [hle, true_and]

theorem depthAfter_flat (h : isFlat c = true) : c ≠ '"' ∧ ∀ depth, depthAfter depth c = depth := by
  unfold isFlat at h
  simp only [List.contains_cons, List.contains_nil, Bool.or_false, Bool.not_eq_true',
    Bool.or_eq_false_iff, beq_eq_false_iff_ne] at h
  obtain ⟨h1, h2, h3, h4, h5, h6, h7⟩ := h
  refine ⟨h7, fun depth => ?_⟩
  unfold depthAfter
  simp [h1, h2, h3, h4, h5, h6]

theorem shallow_flat (h : isFlat c = true) :
    Shallow limit depth (c :: cs) ↔ Shallow limit depth cs := by
  obtain ⟨hquote, hdepth⟩ := depthAfter_flat h
  rw [shallow_cons hquote, hdepth]
  exact and_iff_right_of_imp And.left

theorem depthAfter_opening (h : c ∈ ['(', '[', '\x7b']) :
    c ≠ '"' ∧ ∀ depth, depthAfter depth c = depth + 1 := by
  simp only [List.mem_cons, List.not_mem_nil, or_false] at h
  rcases h with rfl | rfl | rfl <;> simp [depthAfter]

theorem depthAfter_closing (h : c ∈ [')', ']', '\x7d']) :
    c ≠ '"' ∧ ∀ depth, depthAfter (depth + 1) c = depth := by
  simp only [List.mem_cons, List.not_mem_nil, or_false] at h
  rcases h with rfl | rfl | rfl <;> simp [depthAfter]

/-- Between quotes nothing counts. -/
theorem overDeep?_quoted {inner : List Char} (h : QuotedInner inner) (hdepth : depth ≤ limit)
    (a : Nat) : overDeep? limit depth .quoted a (inner ++ '"' :: cs) = none ↔
      overDeep? limit depth .outside 0 cs = none := by
  have hlimit : ¬limit < depth := by omega
  -- by the pieces between the quotes, from whatever offset
  induction h generalizing a with
  | nil =>
    rw [List.nil_append, overDeep?_eq_none_iff .outside 0 (a + '"'.utf8Size)]
    simp [overDeep?, hlimit, Surroundings.after]
  | @plain c _ hquote hslash _ ih =>
    refine Iff.trans ?_ (ih (a + c.utf8Size))
    simp [overDeep?, hlimit, Surroundings.after, hquote, hslash]
  | kept c _ ih =>
    refine Iff.trans ?_ (ih (a + '\\'.utf8Size + c.utf8Size))
    simp [overDeep?, hlimit, Surroundings.after]

theorem shallow_quoted {inner : List Char} (h : QuotedInner inner) :
    Shallow limit depth ('"' :: (inner ++ '"' :: rest)) ↔ Shallow limit depth rest := by
  unfold Shallow
  refine and_congr_right fun hdepth => ?_
  have hlimit : ¬limit < depth := by omega
  refine Iff.trans ?_ (overDeep?_quoted h hdepth '"'.utf8Size)
  simp [overDeep?, depthAfter, hlimit, Surroundings.after]

/-! ## Texts with closed brackets -/

/-- **A text with closed brackets** that nest `n` deep, whatever is around it. -/
def Nests (n : Nat) (cs : List Char) : Prop :=
  ∀ limit depth rest, Shallow limit depth (cs ++ rest) ↔
    depth + n ≤ limit ∧ Shallow limit depth rest

theorem nests_nil : Nests 0 [] := fun _ _ _ => (and_iff_right_of_imp And.left).symm

theorem Nests.append {a b : List Char} (ha : Nests m a) (hb : Nests n b) :
    Nests (max m n) (a ++ b) := by
  intro limit depth rest
  rw [List.append_assoc, ha, hb, ← and_assoc]
  refine and_congr_left fun _ => ?_
  omega

theorem nests_flat (h : ∀ c ∈ cs, isFlat c = true) : Nests 0 cs := by
  induction cs with
  | nil => exact nests_nil
  | cons c cs ih =>
    intro limit depth rest
    rw [List.forall_mem_cons] at h
    rw [List.cons_append, shallow_flat h.1, ih h.2]

theorem Nests.cons (hc : isFlat c = true) (h : Nests n cs) : Nests n (c :: cs) := by
  intro limit depth rest
  rw [List.cons_append, shallow_flat hc, h]

theorem Nests.brackets {a b : Char} (ha : a ∈ ['(', '[', '\x7b']) (hb : b ∈ [')', ']', '\x7d'])
    (h : Nests n cs) : Nests (n + 1) (a :: (cs ++ [b])) := by
  intro limit depth rest
  -- one more is open inside, and as many as before behind the closing bracket
  have hopen := depthAfter_opening ha
  have hclose := depthAfter_closing hb
  rw [List.cons_append, List.append_assoc, shallow_cons hopen.1, hopen.2, h, List.singleton_append,
    shallow_cons hclose.1, hclose.2]
  constructor
  · rintro ⟨-, hn, -, hrest⟩
    exact ⟨by omega, hrest⟩
  · rintro ⟨hn, hrest⟩
    exact ⟨hrest.1, by omega, by omega, hrest⟩

theorem nests_quoted {inner : List Char} (h : QuotedInner inner) :
    Nests 0 ('"' :: (inner ++ ['"'])) := by
  intro limit depth rest
  rw [List.cons_append, List.append_assoc, List.singleton_append, shallow_quoted h]
  exact (and_iff_right_of_imp And.left).symm

/-! ## Written expressions -/

theorem isFlat_of_isBareChar (h : Grammar.isBareChar c = true) : isFlat c = true := by
  unfold isFlat
  rw [contains_eq_false_of_all (by decide) h]
  rfl

theorem nests_bare (h : ∀ c ∈ cs, Grammar.isBareChar c = true) : Nests 0 cs :=
  nests_flat fun c hc => isFlat_of_isBareChar (h c hc)

theorem nests_wordText (cs : List Char) : Nests 0 (wordText cs) := by
  unfold wordText
  split
  · next h =>
    obtain ⟨-, hcs, -, -⟩ := plainWord_facts h
    exact nests_bare fun c hc => isBareChar_of_plain (hcs c hc).1 (hcs c hc).2
  · exact nests_quoted (quotedInner_escape cs)

theorem nests_written (l : Literal) : Nests 0 l.written := by
  rcases l.eq_text_or with ⟨s, rfl⟩ | hl
  · exact nests_wordText s.toList
  · exact nests_bare fun c hc =>
      isBareChar_of_isDateChar (isDateChar_written hl c hc)

theorem nests_endText (b : Option Literal) : Nests 0 (Interval.endText b) := by
  cases b with
  | none => exact nests_flat (by simp [Interval.endText, isFlat])
  | some l => exact nests_written l

theorem nests_interval (i : Interval) : Nests 1 i.text := by
  have hto : Nests 0 [' ', 'T', 'O', ' '] := nests_flat (forall_mem_of_all (by decide))
  have hinner := ((nests_endText i.min?).append hto).append (nests_endText i.max?)
  have hbrackets := hinner.brackets (a := '[') (b := ']') (by simp) (by simp)
  simpa only [Interval.text, List.cons_append, List.append_assoc, List.nil_append, Nat.max_zero,
    Nat.zero_add] using hbrackets

namespace Expression

/-- The nesting of a term, which has parentheses of its own around a disjunction. -/
def guardNesting : Expression → Nat → Nat
  | or _ _, n => n + 1
  | _, n => n

mutual

/-- How deep the brackets of a written expression nest. -/
def nesting : Expression → Nat
  | oneOf choices => listNesting choices + 1
  | not e => guardNesting e e.nesting
  | or left right => max left.nesting (guardNesting right right.nesting)
  | range _ => 1
  | _ => 0

/-- How deep the brackets of the choices of a set nest. -/
def listNesting : List Expression → Nat
  | [] => 0
  | e :: rest => max e.nesting (listNesting rest)

end

/-- How deep the brackets of a term nest. -/
def termNesting (e : Expression) : Nat := guardNesting e e.nesting

theorem nests_guarded {e : Expression} (h : Nests n cs) :
    Nests (guardNesting e n) (guarded e cs) := by
  cases e with
  | or l r => exact h.brackets (by simp) (by simp)
  | _ => exact h

mutual

/-- **The brackets of a written expression** are closed, and nest as deep as its nesting tells. -/
theorem nests_text : ∀ e : Expression, Nests e.nesting e.text
  | literal l => nests_written l
  | anything => nests_flat (by simp [text, isFlat])
  | oneOf choices => by
    rw [nesting, text]
    exact (nests_listText choices).brackets (by simp) (by simp)
  | contains f => by
    have hstar : Nests 0 ['*'] := nests_flat (by simp [isFlat])
    exact ((nests_wordText f.text.toList).append hstar).cons (by decide)
  | startsWith f => (nests_wordText f.text.toList).append (nests_flat (by simp [isFlat]))
  | endsWith f => (nests_wordText f.text.toList).cons (by decide)
  | not e => by
    rw [nesting, text]
    exact (nests_guarded (nests_text e)).cons (by decide)
  | or left right => by
    rw [nesting, text]
    exact (nests_text left).append ((nests_guarded (nests_text right)).cons (by decide))
  | range i => nests_interval i

theorem nests_listText : ∀ es : List Expression, Nests (listNesting es) (listText es)
  | [] => nests_nil
  | [e] => by
    rw [listNesting, listNesting, listText, Nat.max_zero]
    exact nests_text e
  | e :: c :: rest => by
    rw [listNesting, listText]
    · exact (nests_text e).append ((nests_listText (c :: rest)).cons (by decide))
    · simp

end

end Expression

/-- A text is refused for its nesting exactly if its brackets do not stay within the limit. -/
theorem checkDepth_eq_ok {text : String} :
    checkDepth limit text = .ok () ↔ Shallow limit 0 text.toList := by
  rw [Shallow, and_iff_right (Nat.zero_le limit), checkDepth]
  cases overDeep? limit 0 .outside 0 text.toList with
  | none => exact iff_of_true rfl rfl
  | some offset => exact iff_of_false (by simp) (by simp)

/-- A text is not refused for its nesting where an expression of no more than the limit is
written. -/
theorem checkDepth_text {e : Expression} (h : e.nesting ≤ limit) :
    checkDepth limit (String.ofList e.text) = .ok () := by
  have hshallow : Shallow limit 0 (e.text ++ []) := by
    rw [e.nests_text, shallow_nil]
    omega
  unfold checkDepth
  rw [String.toList_ofList]
  rw [List.append_nil] at hshallow
  simp only [hshallow.2]

end Sift
