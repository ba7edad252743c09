import Sift.Filter.Reading
import Sift.Proofs.DateText

/-!
# Disjunctions as lists, and what can be written

* `Expression.seed`, `Expression.steps`: a disjunction from the left, as its first operand and the
  others in order.
* `Expression.text_spine`, `Expression.listText_spine`: a disjunction and a set are written as
  terms with marks between them.
* `Expression.flattened`: the expression that the written form stands for. Operands of a
  disjunction among the choices of a set become choices.
* `Expression.Legible`: the expressions that are written such that they can be read.
-/

namespace Sift.Expression

/-- Whether an expression is a negation. -/
def isNegation : Expression → Bool
  | not _ => true
  | _ => false

/-- The first operand of a disjunction, or the expression itself. -/
def seed : Expression → Expression
  | or left _ => left.seed
  | e => e

/-- The operands of a disjunction after the first. -/
def steps : Expression → List Expression
  | or left right => left.steps ++ [right]
  | _ => []

/-- The operands of a disjunction in order. -/
def alternatives (e : Expression) : List Expression := e.seed :: e.steps

mutual

/-- **What the written form stands for**: the choices of a set are all the terms between its
braces. -/
def flattened : Expression → Expression
  | oneOf choices => oneOf (flattenedChoices choices)
  | not e => not e.flattened
  | or left right => or left.flattened right.flattened
  | e => e

/-- The terms that the choices of a set are written with. -/
def flattenedChoices : List Expression → List Expression
  | [] => []
  | e :: rest => e.flattened.alternatives ++ flattenedChoices rest

end

mutual

/-- The expressions that are written such that they can be read: negations are not nested, sets
have choices, and dates and times can be written. -/
def Legible : Expression → Prop
  | literal l => l.Legible
  | anything | contains _ | startsWith _ | endsWith _ => True
  | oneOf choices => choices ≠ [] ∧ AllLegible choices
  | not e => e.isNegation = false ∧ e.Legible
  | or left right => left.Legible ∧ right.Legible
  | range i => (∀ l ∈ i.min?, l.Legible) ∧ ∀ l ∈ i.max?, l.Legible

/-- Several such expressions. -/
def AllLegible : List Expression → Prop
  | [] => True
  | e :: rest => e.Legible ∧ AllLegible rest

end

theorem allLegible_iff {es : List Expression} : AllLegible es ↔ ∀ e ∈ es, e.Legible := by
  induction es with
  | nil => simp [AllLegible]
  | cons e es ih => simp [AllLegible, ih]

/-- An expression is a single literal, or none. -/
theorem eq_literal_or (e : Expression) : (∃ l, e = .literal l) ∨ ∀ l, e ≠ .literal l := by
  cases e with
  | literal l => exact Or.inl ⟨l, rfl⟩
  | _ => exact Or.inr (by simp)

/-! ## The spine of a disjunction -/

theorem alternative_spine : ∀ e : Expression, alternative e.seed e.steps = e
  | or left right => by
    rw [seed, steps, alternative, List.foldl_append]
    show or (alternative left.seed left.steps) right = _
    rw [alternative_spine left]
  | literal _ | anything | oneOf _ | contains _ | startsWith _ | endsWith _ | not _ | range _ => rfl

theorem seed_flattened : ∀ e : Expression, e.flattened.seed = e.seed.flattened
  | or left right => by rw [flattened, seed, seed, seed_flattened left]
  | oneOf _ | not _ => by simp only [flattened, seed]
  | literal _ | anything | contains _ | startsWith _ | endsWith _ | range _ => rfl

theorem steps_flattened : ∀ e : Expression, e.flattened.steps = e.steps.map flattened
  | or left right => by rw [flattened, steps, steps, steps_flattened left, List.map_append]; rfl
  | oneOf _ | not _ => by simp only [flattened, steps, List.map_nil]
  | literal _ | anything | contains _ | startsWith _ | endsWith _ | range _ => rfl

theorem alternatives_flattened (e : Expression) :
    e.flattened.alternatives = e.alternatives.map flattened := by
  unfold alternatives
  rw [seed_flattened, steps_flattened, List.map_cons]

theorem flattenedChoices_eq (es : List Expression) :
    flattenedChoices es = (es.flatMap alternatives).map flattened := by
  induction es with
  | nil => rfl
  | cons e es ih =>
    rw [flattenedChoices, ih, alternatives_flattened, List.flatMap_cons, List.map_append]

theorem isNegation_flattened (e : Expression) : e.flattened.isNegation = e.isNegation := by
  cases e <;> rfl

/-- The operands of a legible disjunction are legible. -/
theorem legible_of_mem_alternatives : ∀ {e a : Expression}, e.Legible → a ∈ e.alternatives →
    a.Legible
  | or left right, a, h, ha => by
    simp only [alternatives, seed, steps, List.mem_cons, List.mem_append,
      List.not_mem_nil, or_false] at ha
    rcases ha with rfl | ha | rfl
    · exact legible_of_mem_alternatives h.1 List.mem_cons_self
    · exact legible_of_mem_alternatives h.1 (List.mem_cons_of_mem _ ha)
    · exact h.2
  | literal _, a, h, ha | anything, a, h, ha | oneOf _, a, h, ha | contains _, a, h, ha
  | startsWith _, a, h, ha | endsWith _, a, h, ha | not _, a, h, ha | range _, a, h, ha => by
    rw [List.mem_singleton.1 ha]; exact h

/-! ## Terms with marks between them -/

/-- An expression as a term, in parentheses if it is a disjunction. -/
def termText (e : Expression) : List Char := guarded e e.text

/-- Terms with a mark before each. -/
def markedText (marked : List (Char × Expression)) : List Char :=
  marked.flatMap fun m => m.1 :: m.2.termText

theorem markedText_cons (mark : Char) (e : Expression) (rest : List (Char × Expression)) :
    markedText ((mark, e) :: rest) = mark :: (e.termText ++ markedText rest) := rfl

theorem markedText_append (xs ys : List (Char × Expression)) :
    markedText (xs ++ ys) = markedText xs ++ markedText ys := List.flatMap_append

/-- A disjunction is written as its operands with bars between them. -/
theorem text_spine : ∀ e : Expression,
    e.text = e.seed.termText ++ markedText (e.steps.map fun a => ('|', a))
  | or left right => by
    rw [text, text_spine left, seed, steps, List.map_append, markedText_append, List.append_assoc]
    simp only [List.map_cons, List.map_nil, markedText, List.flatMap_cons, List.flatMap_nil,
      List.append_nil, termText]
  | literal _ | anything | oneOf _ | contains _ | startsWith _ | endsWith _ | not _ | range _ => by
    simp only [seed, steps, List.map_nil, markedText, List.flatMap_nil, List.append_nil, termText,
      guarded]

/-- The terms between the braces of a set after the first, with the marks before them. -/
def choiceSteps : List Expression → List (Char × Expression)
  | [] => []
  | e :: rest =>
    (e.steps.map fun a => ('|', a)) ++ rest.flatMap fun c =>
      (',', c.seed) :: c.steps.map fun a => ('|', a)

theorem listText_spine (e : Expression) (rest : List Expression) :
    listText (e :: rest) = e.seed.termText ++ markedText (choiceSteps (e :: rest)) := by
  induction rest generalizing e with
  | nil => rw [listText, text_spine e, choiceSteps, List.flatMap_nil, List.append_nil]
  | cons c rest ih =>
    rw [listText, ih c, text_spine e]
    · simp only [choiceSteps, List.flatMap_cons, markedText_append, List.cons_append,
        markedText_cons, List.append_assoc]
    · simp

theorem choiceSteps_terms (e : Expression) (rest : List Expression) :
    (e :: rest).flatMap alternatives = e.seed :: (choiceSteps (e :: rest)).map Prod.snd := by
  simp only [List.flatMap_cons, alternatives, choiceSteps, List.map_append, List.map_map,
    List.map_flatMap, List.map_cons, List.cons_append, Function.comp_def, List.map_id']
  rfl

theorem choiceSteps_marks (es : List Expression) : ∀ m ∈ choiceSteps es, m.1 = '|' ∨ m.1 = ',' := by
  intro m hm
  cases es with
  | nil => cases hm
  | cons e rest =>
    simp only [choiceSteps, List.mem_append, List.mem_map, List.mem_flatMap, List.mem_cons] at hm
    rcases hm with ⟨a, -, rfl⟩ | ⟨c, -, rfl | ⟨a, -, rfl⟩⟩
    · exact Or.inl rfl
    · exact Or.inr rfl
    · exact Or.inl rfl

/-! ## Lengths -/

theorem length_termText_marked {e a : Expression} {marked : List (Char × Expression)}
    (h : a ∈ e :: marked.map Prod.snd) :
    a.termText.length ≤ (e.termText ++ markedText marked).length := by
  rw [List.length_append]
  rcases List.mem_cons.1 h with rfl | h
  · omega
  · obtain ⟨m, hm, rfl⟩ := List.mem_map.1 h
    -- a term stands in the text as a whole
    have hsub : (m.1 :: m.2.termText).Sublist (markedText marked) := by
      rw [markedText, List.flatMap_def]
      exact List.sublist_flatten_of_mem (List.mem_map_of_mem hm)
    have hle := hsub.length_le
    rw [List.length_cons] at hle
    omega

theorem length_termText_alternatives {e a : Expression} (h : a ∈ e.alternatives) :
    a.termText.length ≤ e.text.length := by
  rw [text_spine e]
  refine length_termText_marked ?_
  rwa [List.map_map, Function.comp_def, List.map_id']

theorem length_termText_choices {e a : Expression} {es : List Expression}
    (h : a ∈ (e :: es).flatMap alternatives) : a.termText.length ≤ (listText (e :: es)).length := by
  rw [listText_spine]
  rw [choiceSteps_terms] at h
  exact length_termText_marked h

end Sift.Expression
