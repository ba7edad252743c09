import Sift.Proofs.Reached
import Sift.Query.Predicate

/-!
# The comparisons behind an answer

A predicate is evaluated again with a record of every comparison of a value with a literal on the
way to its answer. Comparing and recording are one operation, so no comparison is left out, and a
question that needs no asking leaves nothing behind.

* `Traced`: an answer with the comparisons that were made for it.
* `Test.traced`, `Predicate.traced`: the evaluation of tests and predicates.
* `answer_traced`: **the answers are those of `Test.holds` and `Predicate.accepts`.**
* `mem_made_traced`: a test compares the value that it is asked about, with its own literals.
* `Predicate.made_field`: what a comparison with a field compares.
-/

namespace Sift

/-- An answer with the comparisons of values and literals that were made for it. -/
structure Traced (α : Type) where
  answer : α
  made : List (FieldValue × Scalar)

namespace Traced

variable {α β : Type}

instance : Monad Traced where
  pure a := ⟨a, []⟩
  bind x f := ⟨(f x.answer).answer, x.made ++ (f x.answer).made⟩

/-- The comparison of a value with a literal. -/
def compare (ignoreCase : Bool) (v : FieldValue) (x : Scalar) : Traced (Option Ordering) :=
  ⟨v.compare? ignoreCase (.scalar x), [(v, x)]⟩

/-- Both questions together. The second is asked only if the first is answered with no. -/
def or (x y : Traced Bool) : Traced Bool := do
  if ← x then return true else y

/-- Both questions together. The second is asked only if the first is answered with yes. -/
def and (x y : Traced Bool) : Traced Bool := do
  if ← x then y else return false

/-- Whether one of several has a positive answer. None behind it is asked. -/
def any (ask : α → Traced Bool) : List α → Traced Bool
  | [] => return false
  | a :: rest => (ask a).or (any ask rest)

@[simp] theorem answer_pure (a : α) : (pure a : Traced α).answer = a := rfl

@[simp] theorem made_pure (a : α) : (pure a : Traced α).made = [] := rfl

@[simp] theorem answer_map (f : α → β) (x : Traced α) : (f <$> x).answer = f x.answer := rfl

@[simp] theorem made_map (f : α → β) (x : Traced α) : (f <$> x).made = x.made :=
  List.append_nil _

@[simp] theorem answer_bind (x : Traced α) (f : α → Traced β) :
    (x >>= f).answer = (f x.answer).answer := rfl

@[simp] theorem made_bind (x : Traced α) (f : α → Traced β) :
    (x >>= f).made = x.made ++ (f x.answer).made := rfl

@[simp] theorem answer_or (x y : Traced Bool) : (x.or y).answer = (x.answer || y.answer) := by
  cases h : x.answer <;> simp [or, h]

@[simp] theorem answer_and (x y : Traced Bool) : (x.and y).answer = (x.answer && y.answer) := by
  cases h : x.answer <;> simp [and, h]

theorem mem_made_or {x y : Traced Bool} {c : FieldValue × Scalar} (h : c ∈ (x.or y).made) :
    c ∈ x.made ∨ c ∈ y.made := by
  rw [or, made_bind, List.mem_append] at h
  refine h.imp_right fun h => ?_
  split at h
  · cases h
  · exact h

theorem mem_made_and {x y : Traced Bool} {c : FieldValue × Scalar} (h : c ∈ (x.and y).made) :
    c ∈ x.made ∨ c ∈ y.made := by
  rw [and, made_bind, List.mem_append] at h
  refine h.imp_right fun h => ?_
  split at h
  · exact h
  · cases h

theorem answer_any (ask : α → Traced Bool) (as : List α) :
    (any ask as).answer = as.any fun a => (ask a).answer := by
  induction as with
  | nil => rfl
  | cons a rest ih => rw [any, answer_or, ih, List.any_cons]

theorem mem_made_any {ask : α → Traced Bool} {as : List α} {c : FieldValue × Scalar}
    (h : c ∈ (any ask as).made) : ∃ a ∈ as, c ∈ (ask a).made := by
  induction as with
  | nil => cases h
  | cons a rest ih =>
    rcases mem_made_or h with h | h
    · exact ⟨a, List.mem_cons_self, h⟩
    · obtain ⟨b, hb, h⟩ := ih h
      exact ⟨b, List.mem_cons_of_mem a hb, h⟩

end Traced

/-! ## Tests -/

namespace Test

mutual

/-- The literals that a test compares values with. -/
def literals : Test → List Scalar
  | equals x | above x _ => [x]
  | equalsSome choices => choices
  | within min max => min.toList ++ max.toList
  | not t => t.literals
  | either left right => left.literals ++ right.literals
  | any tests => literalsOf tests
  | isNull | isPresent | isEmptyText | isEmptyList | text _ _ => []

/-- The literals of several tests. -/
def literalsOf : List Test → List Scalar
  | [] => []
  | t :: rest => t.literals ++ literalsOf rest

end

/-- Whether a value is equal to a literal in their order. -/
def tracedEquals (ignoreCase : Bool) (v : FieldValue) (x : Scalar) : Traced Bool :=
  (· == some .eq) <$> Traced.compare ignoreCase v x

/-- Whether a value is on the right side of the end of a range; an open end is no hindrance. -/
def tracedEnd (ignoreCase : Bool) (accepted : Ordering → Bool) (v : FieldValue) :
    Option Scalar → Traced Bool
  | none => return true
  | some x => ordered accepted <$> Traced.compare ignoreCase v x

mutual

/-- Whether a value passes a test, with the comparisons made. Both ends of a range are looked at,
whatever the first one says. -/
def traced (ignoreCase : Bool) : Test → FieldValue → Traced Bool
  | equals x, v => tracedEquals ignoreCase v x
  | equalsSome choices, v => Traced.any (tracedEquals ignoreCase v) choices
  | above x orEqual, v =>
    ordered (fun o => o == .gt || (orEqual && o == .eq)) <$> Traced.compare ignoreCase v x
  | within min max, v => do
    let low ← tracedEnd ignoreCase (· != .lt) v min
    let high ← tracedEnd ignoreCase (· != .gt) v max
    return !v.isNull && low && high
  | not t, v => (!·) <$> t.traced ignoreCase v
  | either left right, v => (left.traced ignoreCase v).or (right.traced ignoreCase v)
  | any tests, v => tracedAny ignoreCase tests v
  -- the other tests look at the value alone
  | t, v => return t.holds ignoreCase v

/-- Whether a value passes one of several tests, with the comparisons made. -/
def tracedAny (ignoreCase : Bool) : List Test → FieldValue → Traced Bool
  | [], _ => return false
  | t :: rest, v => (t.traced ignoreCase v).or (tracedAny ignoreCase rest v)

end

theorem answer_tracedEnd (ignoreCase : Bool) (accepted : Ordering → Bool) (v : FieldValue)
    (bound : Option Scalar) : (tracedEnd ignoreCase accepted v bound).answer =
      bound.all fun x => ordered accepted (v.compare? ignoreCase (.scalar x)) := by
  cases bound <;> rfl

mutual

theorem answer_traced (ignoreCase : Bool) (v : FieldValue) :
    ∀ t : Test, (t.traced ignoreCase v).answer = t.holds ignoreCase v
  | equals _ | above _ _ => by rw [traced, holds]; rfl
  | equalsSome choices => by
    rw [traced, holds, Traced.answer_any]
    rfl
  | within min max => by
    rw [traced, holds]
    simp only [Traced.answer_bind, Traced.answer_pure, answer_tracedEnd]
  | not t => by rw [traced, holds, Traced.answer_map, answer_traced ignoreCase v t]
  | either left right => by
    rw [traced, holds, Traced.answer_or, answer_traced ignoreCase v left,
      answer_traced ignoreCase v right]
  | any tests => by rw [traced, holds, answer_tracedAny ignoreCase v tests]
  | isNull | isPresent | isEmptyText | isEmptyList | text _ _ => by simp [traced]

theorem answer_tracedAny (ignoreCase : Bool) (v : FieldValue) :
    ∀ ts : List Test, (tracedAny ignoreCase ts v).answer = anyHolds ignoreCase ts v
  | [] => rfl
  | t :: rest => by
    rw [tracedAny, anyHolds, Traced.answer_or, answer_traced ignoreCase v t,
      answer_tracedAny ignoreCase v rest]

end

theorem mem_made_tracedEnd {ignoreCase : Bool} {accepted : Ordering → Bool} {v w : FieldValue}
    {bound : Option Scalar} {x : Scalar}
    (h : (w, x) ∈ (tracedEnd ignoreCase accepted v bound).made) :
    w = v ∧ x ∈ bound.toList := by
  cases bound with
  | none => cases h
  | some y => simpa [tracedEnd, Traced.compare] using h

mutual

/-- **A test compares the value that it is asked about**, with its own literals. -/
theorem mem_made_traced {ignoreCase : Bool} {v w : FieldValue} {x : Scalar} :
    ∀ {t : Test}, (w, x) ∈ (t.traced ignoreCase v).made → w = v ∧ x ∈ t.literals
  | equals y, h => by simpa [traced, literals, tracedEquals, Traced.compare] using h
  | above y _, h => by simpa [traced, literals, Traced.compare] using h
  | equalsSome choices, h => by
    rw [traced] at h
    obtain ⟨y, hy, h⟩ := Traced.mem_made_any h
    simp only [tracedEquals, Traced.compare, Traced.made_map, List.mem_singleton,
      Prod.mk.injEq] at h
    exact ⟨h.1, h.2 ▸ hy⟩
  | within min max, h => by
    rw [traced] at h
    simp only [Traced.made_bind, Traced.made_pure, List.append_nil, List.mem_append] at h
    rw [literals, List.mem_append]
    rcases h with h | h
    · exact (mem_made_tracedEnd h).imp_right Or.inl
    · exact (mem_made_tracedEnd h).imp_right Or.inr
  | not t, h => by
    rw [traced, Traced.made_map] at h
    rw [literals]
    exact mem_made_traced h
  | either left right, h => by
    rw [traced] at h
    rw [literals, List.mem_append]
    rcases Traced.mem_made_or h with h | h
    · exact (mem_made_traced h).imp_right Or.inl
    · exact (mem_made_traced h).imp_right Or.inr
  | any tests, h => by
    rw [traced] at h
    rw [literals]
    exact mem_made_tracedAny h
  | isNull, h | isPresent, h | isEmptyText, h | isEmptyList, h | text _ _, h => by
    simp [traced] at h

theorem mem_made_tracedAny {ignoreCase : Bool} {v w : FieldValue} {x : Scalar} :
    ∀ {ts : List Test}, (w, x) ∈ (tracedAny ignoreCase ts v).made → w = v ∧ x ∈ literalsOf ts
  | [], h => nomatch h
  | t :: rest, h => by
    rw [literalsOf, List.mem_append]
    rcases Traced.mem_made_or h with h | h
    · exact (mem_made_traced h).imp_right Or.inl
    · exact (mem_made_tracedAny h).imp_right Or.inr

end

end Test

/-! ## Predicates -/

namespace Predicate

/-- The values that a test is asked about at the end of a path. -/
def tested (names : List String) (lifted : Bool) (r : Record) : List FieldValue :=
  if lifted then (r.reached names).flatMap FieldValue.elements else r.reached names

mutual

/-- Whether a record is accepted, with the comparisons made. -/
def traced (ignoreCase : Bool) : Predicate → Record → Traced Bool
  | always, _ => return true
  | field names test lifted negated, r =>
    (· != negated) <$> Traced.any (test.traced ignoreCase) (tested names lifted r)
  | all members, r => tracedAll ignoreCase members r
  | any members, r => tracedAny ignoreCase members r

/-- Whether all of several predicates accept a record, with the comparisons made. -/
def tracedAll (ignoreCase : Bool) : List Predicate → Record → Traced Bool
  | [], _ => return true
  | p :: rest, r => (p.traced ignoreCase r).and (tracedAll ignoreCase rest r)

/-- Whether one of several predicates accepts a record, with the comparisons made. -/
def tracedAny (ignoreCase : Bool) : List Predicate → Record → Traced Bool
  | [], _ => return false
  | p :: rest, r => (p.traced ignoreCase r).or (tracedAny ignoreCase rest r)

end

/-- A value at the end of a path passes where a value that the test is asked about does. -/
theorem anyValue_leafTest (ignoreCase lifted : Bool) (test : Test) (names : List String)
    (r : Record) : r.anyValue (leafTest ignoreCase lifted test) names =
      (tested names lifted r).any (test.holds ignoreCase) := by
  rw [Record.anyValue_eq_any, tested]
  cases lifted with
  | false => rfl
  | true =>
    rw [if_pos rfl, List.any_flatMap]
    congr 1
    funext v
    exact FieldValue.anyElement_eq_any _ v

mutual

theorem answer_traced (ignoreCase : Bool) (r : Record) :
    ∀ p : Predicate, (p.traced ignoreCase r).answer = p.accepts ignoreCase r
  | always => rfl
  | field names test lifted negated => by
    rw [traced, accepts, Traced.answer_map, Traced.answer_any, anyValue_leafTest]
    simp only [Test.answer_traced]
  | all members => by rw [traced, accepts, answer_tracedAll ignoreCase r members]
  | any members => by rw [traced, accepts, answer_tracedAny ignoreCase r members]

theorem answer_tracedAll (ignoreCase : Bool) (r : Record) :
    ∀ ps : List Predicate, (tracedAll ignoreCase ps r).answer = allAccept ignoreCase ps r
  | [] => rfl
  | p :: rest => by
    rw [tracedAll, allAccept, Traced.answer_and, answer_traced ignoreCase r p,
      answer_tracedAll ignoreCase r rest]

theorem answer_tracedAny (ignoreCase : Bool) (r : Record) :
    ∀ ps : List Predicate, (tracedAny ignoreCase ps r).answer = anyAccepts ignoreCase ps r
  | [] => rfl
  | p :: rest => by
    rw [tracedAny, anyAccepts, Traced.answer_or, answer_traced ignoreCase r p,
      answer_tracedAny ignoreCase r rest]

end

/-- A comparison with a field compares values that its test is asked about with the literals of
the test. -/
theorem made_field {ignoreCase lifted negated : Bool} {names : List String} {test : Test}
    {r : Record} {v : FieldValue} {x : Scalar}
    (h : (v, x) ∈ ((field names test lifted negated).traced ignoreCase r).made) :
    v ∈ tested names lifted r ∧ x ∈ test.literals := by
  rw [traced, Traced.made_map] at h
  obtain ⟨w, hw, h⟩ := Traced.mem_made_any h
  obtain ⟨rfl, hx⟩ := Test.mem_made_traced h
  exact ⟨hw, hx⟩

theorem mem_made_tracedAll {ignoreCase : Bool} {r : Record} {c : FieldValue × Scalar}
    {ps : List Predicate} (h : c ∈ (tracedAll ignoreCase ps r).made) :
    ∃ p ∈ ps, c ∈ (p.traced ignoreCase r).made := by
  induction ps with
  | nil => cases h
  | cons p rest ih =>
    rcases Traced.mem_made_and h with h | h
    · exact ⟨p, List.mem_cons_self, h⟩
    · obtain ⟨q, hq, h⟩ := ih h
      exact ⟨q, List.mem_cons_of_mem p hq, h⟩

theorem mem_made_tracedAny {ignoreCase : Bool} {r : Record} {c : FieldValue × Scalar}
    {ps : List Predicate} (h : c ∈ (tracedAny ignoreCase ps r).made) :
    ∃ p ∈ ps, c ∈ (p.traced ignoreCase r).made := by
  induction ps with
  | nil => cases h
  | cons p rest ih =>
    rcases Traced.mem_made_or h with h | h
    · exact ⟨p, List.mem_cons_self, h⟩
    · obtain ⟨q, hq, h⟩ := ih h
      exact ⟨q, List.mem_cons_of_mem p hq, h⟩

end Predicate

end Sift
