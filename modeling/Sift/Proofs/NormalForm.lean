import Sift.Proofs.TreeText

/-!
# Trees in normal form

* `Expression.Normal`, `Filter.Normal`, `Node.Normal`: the trees that a filter text can be written
  for without loss.
* `deepest`, `checkDepth_iff_deepest`: how deep the brackets of a text nest, and when it is refused
  for that.
* `Expression.flattened_of_normal`, `Node.reread_of_normal`: what is in normal form is read as
  itself.
* `Node.exists_legible`: trees in normal form can be written.
* `Node.ofText_text_of_normal`: reading inverts writing on them.
-/

namespace Sift

/-! ## Normal forms -/

/-- The dates and times that are written as they are: those with an offset in years of four digits
and with offsets of whole minutes. A leap second is the second 60 of its minute. -/
def Literal.Normal : Literal → Prop
  | .text _ | .date _ => True
  | .dateTime t none => t.time.Regular
  | .dateTime t (some o) =>
    t.time.Regular ∧ (0 ≤ t.date.year ∧ t.date.year ≤ 9999) ∧ o.seconds % 60 = 0

/-- Whether an expression is a disjunction. -/
def Expression.isDisjunction : Expression → Bool
  | .or _ _ => true
  | _ => false

mutual

/-- **The expressions in normal form**: no negation of a negation, no empty set, no disjunction as a
choice of a set, and dates and times as they are written. -/
def Expression.Normal : Expression → Prop
  | .literal l => l.Normal
  | .anything | .contains _ | .startsWith _ | .endsWith _ => True
  | .oneOf choices =>
    choices ≠ [] ∧ (∀ e ∈ choices, e.isDisjunction = false) ∧ Expression.AllNormal choices
  | .not e => e.isNegation = false ∧ e.Normal
  | .or left right => left.Normal ∧ right.Normal
  | .range i => (∀ l ∈ i.min?, l.Normal) ∧ ∀ l ∈ i.max?, l.Normal

/-- Several such expressions. -/
def Expression.AllNormal : List Expression → Prop
  | [] => True
  | e :: rest => e.Normal ∧ Expression.AllNormal rest

end

/-- **The operands in normal form** behind an operator: nothing behind a check for null or empty;
behind a comparison null, a text, or an expression that is no single literal; behind a text
operator such an expression. -/
def Operand.Normal (op : Operator) : Operand → Prop
  | .null => op.isText = false
  | .scalar (.string _) => op.requiresValue = true ∧ op.isText = false
  | .expression e => op.requiresValue = true ∧ e.Normal ∧ ∀ l, e ≠ .literal l
  | _ => False

/-- **The texts of fields**: a path and nothing else, which does not begin with the word for a
negation. -/
def IsFieldText (s : String) : Prop :=
  (Grammar.keyword "not" (Cursor.start s.toList)).found = none ∧
    ∃ path there, (Grammar.field (Cursor.start s.toList)).found = some (path, there) ∧
      there.rest = []

instance (s : String) : Decidable (IsFieldText s) :=
  decidable_of_iff ((Grammar.keyword "not" (Cursor.start s.toList)).found = none ∧
      (Grammar.field (Cursor.start s.toList)).found.any (fun r => r.2.rest = []) = true) <|
    and_congr_right fun _ => by simp [Option.any_eq_true]

/-- The comparisons in normal form. -/
structure Filter.Normal (f : Filter) : Prop where
  field : ∃ s, f.field = some s ∧ IsFieldText s
  operand : f.operand.Normal f.operator

mutual

/-- **The trees in normal form**: every group has at least two members and is one of those that are
read. -/
def Node.Normal : Node → Prop
  | .leaf f => f.Normal
  | .group form _ members => form = .multi ∧ 2 ≤ members.length ∧ Node.AllNormal members

/-- Several such trees. -/
def Node.AllNormal : List Node → Prop
  | [] => True
  | node :: rest => node.Normal ∧ Node.AllNormal rest

end

/-! ## Brackets -/

/-- How deep the brackets of a text nest outside quotes, with `depth` of them open before it. -/
def deepest (depth : Nat) (s : Surroundings) : List Char → Nat
  | [] => depth
  | c :: rest =>
    max depth (deepest (if s = .outside then depthAfter depth c else depth) (s.after c) rest)

theorem le_deepest (depth : Nat) (s : Surroundings) (cs : List Char) :
    depth ≤ deepest depth s cs := by
  cases cs with
  | nil => exact Nat.le_refl depth
  | cons c rest => exact Nat.le_max_left _ _

theorem overDeep?_eq_none {limit : Nat} {cs : List Char} : ∀ {depth : Nat} (s : Surroundings)
    (offset : Nat), depth ≤ limit →
      (overDeep? limit depth s offset cs = none ↔ deepest depth s cs ≤ limit) := by
  induction cs with
  | nil =>
    intro depth s offset hdepth
    exact iff_of_true rfl hdepth
  | cons c rest ih =>
    intro depth s offset hdepth
    rw [overDeep?, deepest, Nat.max_le]
    simp only [hdepth, true_and]
    generalize (if s = .outside then depthAfter depth c else depth) = d
    by_cases hd : limit < d
    · have hle := le_deepest d (s.after c) rest
      rw [if_pos hd]
      refine iff_of_false (by simp) ?_
      omega
    · rw [if_neg hd]
      exact ih (s.after c) _ (Nat.le_of_not_lt hd)

theorem shallow_iff_deepest {limit : Nat} {cs : List Char} :
    Shallow limit 0 cs ↔ deepest 0 .outside cs ≤ limit := by
  rw [Shallow, and_iff_right (Nat.zero_le limit)]
  exact overDeep?_eq_none .outside 0 (Nat.zero_le limit)

/-- A text is refused for its nesting exactly if its brackets nest deeper than the limit. -/
theorem checkDepth_iff_deepest {limit : Nat} {text : String} :
    checkDepth limit text = .ok () ↔ deepest 0 .outside text.toList ≤ limit :=
  checkDepth_eq_ok.trans shallow_iff_deepest

theorem deepest_of_flat {cs : List Char} (h : ∀ c ∈ cs, isFlat c = true) (depth : Nat) :
    ∀ s, deepest depth s cs = depth := by
  induction cs with
  | nil =>
    intro s
    rfl
  | cons c cs ih =>
    intro s
    rw [List.forall_mem_cons] at h
    have hdepth := (depthAfter_flat h.1).2 depth
    rw [deepest, hdepth, ite_self, ih h.2, Nat.max_self]

/-- What is flat does not count behind a text. -/
theorem deepest_append_flat {cs rest : List Char} (h : ∀ c ∈ rest, isFlat c = true) :
    ∀ depth s, deepest depth s (cs ++ rest) = deepest depth s cs := by
  induction cs with
  | nil => exact deepest_of_flat h
  | cons c cs ih =>
    intro depth s
    rw [List.cons_append, deepest, deepest, ih]

/-- What is flat does not count in front of a text. -/
theorem deepest_flat_append {cs rest : List Char} (h : ∀ c ∈ cs, isFlat c = true) (depth : Nat) :
    deepest depth .outside (cs ++ rest) = deepest depth .outside rest := by
  induction cs with
  | nil => rfl
  | cons c cs ih =>
    rw [List.forall_mem_cons] at h
    obtain ⟨hquote, hdepth⟩ := depthAfter_flat h.1
    have hafter : Surroundings.outside.after c = .outside := by simp [Surroundings.after, hquote]
    rw [List.cons_append, deepest, if_pos rfl, hdepth, hafter, ih h.2]
    exact Nat.max_eq_right (le_deepest depth .outside rest)

theorem isFlat_of_isBlank {c : Char} (h : Text.isBlank c = true) : isFlat c = true := by
  unfold isFlat
  rw [contains_eq_false_of_all (by decide) h]
  rfl

/-- The brackets of a text nest as deep without the blanks at its ends. -/
theorem deepest_trim (cs : List Char) :
    deepest 0 .outside (Text.trim cs) = deepest 0 .outside cs := by
  obtain ⟨before, after, hbefore, hafter, hcs⟩ := Text.exists_trim cs
  have hall : deepest 0 .outside cs = deepest 0 .outside (before ++ (Text.trim cs ++ after)) :=
    congrArg _ hcs
  rw [hall, deepest_flat_append fun c hc => isFlat_of_isBlank (hbefore c hc),
    deepest_append_flat fun c hc => isFlat_of_isBlank (hafter c hc)]

/-! ## Fields -/

namespace Grammar

open Scan

theorem takes_pathStep_written : Takes pathStep fun s cs => s.Valid ∧ s.written = cs := by
  refine TakesFrom.orElse ((takes_exactly _).bind fun _ a ha => takes_quoted.bind fun inner b hb =>
    (takes_exactly _).bind fun _ c hc => takes_pure ⟨hb.1, ?_⟩)
    ((takes_exactly _).bind fun _ a ha => takes_identifier.bind fun name b hb =>
      takes_pure ⟨hb.1 ▸ hb.2, ?_⟩)
  · rw [ha, hb.2, hc]
    simp [PathStep.written]
  · rw [ha, ← hb.1]
    simp [PathStep.written]

/-- A path stands for the text that it is read from. -/
theorem takes_field_written :
    Takes field fun path cs => path.Readable ∧ path.written.toList = cs := by
  have hsteps := takes_pathStep_written.many
    (T := fun steps cs => (∀ s ∈ steps, s.Valid) ∧ steps.flatMap PathStep.written = cs)
    ⟨by simp, rfl⟩ (by
      rintro s steps _ _ ⟨hs, rfl⟩ ⟨hsteps, rfl⟩
      exact ⟨List.forall_mem_cons.2 ⟨hs, hsteps⟩, rfl⟩)
  refine TakesFrom.named (takes_identifier.bind fun name a ha => hsteps.bind fun steps b hb =>
    takes_pure ⟨⟨ha.1 ▸ ha.2, hb.1⟩, ?_⟩)
  rw [FieldPath.written, String.toList_ofList, ha.1, hb.2, List.append_nil]

end Grammar

/-- The text of a field is that of a path that can be read. -/
theorem IsFieldText.exists_path {s : String} (h : IsFieldText s) :
    ∃ path : FieldPath, path.Valid ∧ s = path.written := by
  obtain ⟨hnot, path, there, hfound, hrest⟩ := h
  obtain ⟨cs, hcs, -, hvalid, -⟩ := Grammar.takes_field _ path there hnot hfound
  obtain ⟨cs', hcs', -, -, hwritten⟩ := Grammar.takes_field_written _ path there trivial hfound
  refine ⟨path, hvalid, ?_⟩
  rw [hrest, List.append_nil] at hcs'
  rw [← String.toList_inj, hwritten]
  exact hcs'

/-! ## Expressions -/

theorem Date.isSome_prev? (d : Date) (h : -262143 < d.year) : d.prev?.isSome := by
  have hlast : (ofYmd? (d.year - 1) 12 31).isSome := by
    have hyear := d.year_le
    have hbounds : -262143 ≤ d.year - 1 ∧ d.year - 1 ≤ 262142 ∧ 1 ≤ 12 ∧ 12 ≤ 12 ∧ 1 ≤ 31 ∧
        31 ≤ daysInMonth (d.year - 1) 12 := by
      refine ⟨by omega, by omega, by decide, by decide, by decide, Nat.le_refl 31⟩
    rw [ofYmd?, dif_pos hbounds]
    rfl
  rw [prev?, Option.orElse_eq_or, Option.isSome_or, hlast, Bool.or_true]

theorem Date.isSome_next? (d : Date) (h : d.year < 262142) : d.next?.isSome := by
  have hfirst : (ofYmd? (d.year + 1) 1 1).isSome := by
    have hyear := d.year_ge
    have hbounds : -262143 ≤ d.year + 1 ∧ d.year + 1 ≤ 262142 ∧ 1 ≤ 1 ∧ 1 ≤ 12 ∧ 1 ≤ 1 ∧
        1 ≤ daysInMonth (d.year + 1) 1 := by
      refine ⟨by omega, by omega, by decide, by decide, by decide, ?_⟩
      exact (by decide : 1 ≤ 31)
    rw [ofYmd?, dif_pos hbounds]
    rfl
  rw [next?, Option.orElse_eq_or, Option.isSome_or, hfirst, Bool.or_true]

/-- Away from the ends of the calendar every clock reading names an instant. -/
theorem OffsetDateTime.isSome_of? {t : LocalDateTime} (o : UtcOffset)
    (h : -262143 < t.date.year ∧ t.date.year < 262142) : (of? t o).isSome := by
  have hutc : (t.toUtc? o).isSome := by
    unfold LocalDateTime.toUtc?
    simp only
    split
    · rw [Option.isSome_map]
      exact t.date.isSome_prev? h.1
    · split
      · rw [Option.isSome_map]
        exact t.date.isSome_next? h.2
      · rfl
  unfold of?
  split
  · rfl
  · next hnone =>
    rw [hnone] at hutc
    cases hutc

theorem Literal.Normal.legible {l : Literal} (h : l.Normal) : l.Legible := by
  match l, h with
  | .text _, _ => trivial
  | .date _, _ => trivial
  | .dateTime t none, h => exact h
  | .dateTime t (some o), ⟨htime, hyear, hwhole⟩ =>
    refine ⟨htime, hyear, hwhole, OffsetDateTime.isSome_of? o ?_⟩
    omega

namespace Expression

theorem alternatives_of_isDisjunction {e : Expression} (h : e.isDisjunction = false) :
    e.alternatives = [e] := by
  cases e with
  | or left right => cases h
  | _ => rfl

mutual

/-- Expressions in normal form can be written. -/
theorem Normal.legible : ∀ {e : Expression}, e.Normal → e.Legible
  | literal _, h => Literal.Normal.legible h
  | anything, _ | contains _, _ | startsWith _, _ | endsWith _, _ => trivial
  | oneOf _, ⟨hne, _, hall⟩ => ⟨hne, hall.legible⟩
  | not _, ⟨hnot, h⟩ => ⟨hnot, h.legible⟩
  | or _ _, ⟨hl, hr⟩ => ⟨hl.legible, hr.legible⟩
  | range _, ⟨hmin, hmax⟩ => ⟨fun l hl => (hmin l hl).legible, fun l hl => (hmax l hl).legible⟩

theorem AllNormal.legible : ∀ {es : List Expression}, AllNormal es → AllLegible es
  | [], _ => trivial
  | _ :: _, ⟨h, hs⟩ => ⟨h.legible, hs.legible⟩

end

mutual

/-- **An expression in normal form stands for itself when it is written.** -/
theorem flattened_of_normal : ∀ {e : Expression}, e.Normal → e.flattened = e
  | literal _, _ | anything, _ | contains _, _ | startsWith _, _ | endsWith _, _ | range _, _ => rfl
  | oneOf choices, ⟨_, hchoices, hall⟩ => by
    rw [flattened, flattenedChoices_of_normal hchoices hall]
  | not e, ⟨_, h⟩ => by rw [flattened, flattened_of_normal h]
  | or left right, ⟨hl, hr⟩ => by
    rw [flattened, flattened_of_normal hl, flattened_of_normal hr]

theorem flattenedChoices_of_normal : ∀ {es : List Expression},
    (∀ e ∈ es, e.isDisjunction = false) → AllNormal es → flattenedChoices es = es
  | [], _, _ => rfl
  | e :: rest, hchoices, ⟨h, hs⟩ => by
    rw [List.forall_mem_cons] at hchoices
    rw [flattenedChoices, flattened_of_normal h, alternatives_of_isDisjunction hchoices.1,
      flattenedChoices_of_normal hchoices.2 hs]
    rfl

end

end Expression

/-! ## Comparisons and trees -/

theorem Operand.Normal.cases {op : Operator} {o : Operand} (h : o.Normal op) :
    (o = .null ∧ op.isText = false) ∨
      (∃ s, o = .string s ∧ op.requiresValue = true ∧ op.isText = false) ∨
        ∃ e, o = .expression e ∧ op.requiresValue = true ∧ e.Normal ∧ ∀ l, e ≠ .literal l := by
  unfold Operand.Normal at h
  split at h
  · exact Or.inl ⟨rfl, h⟩
  · next s => exact Or.inr (Or.inl ⟨s, rfl, h⟩)
  · next e => exact Or.inr (Or.inr ⟨e, rfl, h⟩)
  · cases h

theorem Operand.Normal.legible {op : Operator} {o : Operand} (h : o.Normal op) : o.Legible op := by
  rcases h.cases with ⟨rfl, htext⟩ | ⟨s, rfl, -, htext⟩ | ⟨e, rfl, -, he, -⟩
  · exact htext
  · exact htext
  · exact he.legible

/-- An operand in normal form is read as itself. -/
theorem Operand.reread_of_normal {op : Operator} {o : Operand} (h : o.Normal op) :
    o.reread op = .ok o := by
  rcases h.cases with ⟨rfl, -⟩ | ⟨s, rfl, -, -⟩ | ⟨e, rfl, -, he, hliteral⟩
  · rfl
  · rfl
  · rw [reread_of_ne_literal hliteral, Expression.flattened_of_normal he]

theorem Filter.Normal.legible {f : Filter} (h : f.Normal) : f.Legible f.operand.nesting := by
  obtain ⟨s, hs, hfield⟩ := h.field
  obtain ⟨path, hpath, rfl⟩ := hfield.exists_path
  refine ⟨⟨path, hpath, hs⟩, h.operand.legible, Nat.le_refl _, fun hop => ?_⟩
  -- only null stands where the operator needs no value
  rcases h.operand.cases with ⟨hnull, -⟩ | ⟨s, -, hvalue, -⟩ | ⟨e, -, hvalue, -⟩
  · exact hnull
  · rw [hop] at hvalue
    cases hvalue
  · rw [hop] at hvalue
    cases hvalue

theorem Filter.reread_of_normal {f : Filter} (h : f.Normal) : f.reread = .ok f := by
  rw [Filter.reread, Operand.reread_of_normal h.operand]
  rfl

theorem Filter.Legible.mono {n m : Nat} {f : Filter} (h : f.Legible n) (hle : n ≤ m) :
    f.Legible m :=
  ⟨h.field, h.operand, Nat.le_trans h.nesting hle, h.null⟩

mutual

theorem Node.Legible.mono {n m : Nat} (hle : n ≤ m) : ∀ {node : Node}, node.Legible n →
    node.Legible m
  | .leaf f, h => by
    rw [Node.Legible] at h ⊢
    exact Filter.Legible.mono h hle
  | .group form logic members, h => by
    rw [Node.Legible] at h ⊢
    exact ⟨h.1, h.2.mono hle⟩

theorem Node.AllLegible.mono {n m : Nat} (hle : n ≤ m) : ∀ {nodes : List Node},
    Node.AllLegible n nodes → Node.AllLegible m nodes
  | [], _ => trivial
  | _ :: _, h => ⟨h.1.mono hle, h.2.mono hle⟩

end

mutual

/-- Trees in normal form can be written. -/
theorem Node.exists_legible : ∀ {node : Node}, node.Normal → ∃ limit, node.Legible limit
  | .leaf f, h => by
    rw [Node.Normal] at h
    refine ⟨f.operand.nesting, ?_⟩
    rw [Node.Legible]
    exact h.legible
  | .group form logic members, h => by
    rw [Node.Normal] at h
    obtain ⟨-, hlength, hall⟩ := h
    obtain ⟨limit, hlegible⟩ := Node.exists_allLegible hall
    refine ⟨limit, ?_⟩
    rw [Node.Legible]
    exact ⟨hlength, hlegible⟩

theorem Node.exists_allLegible : ∀ {nodes : List Node}, Node.AllNormal nodes →
    ∃ limit, Node.AllLegible limit nodes
  | [], _ => ⟨0, trivial⟩
  | _ :: _, ⟨h, hs⟩ => by
    obtain ⟨n, hn⟩ := Node.exists_legible h
    obtain ⟨m, hm⟩ := Node.exists_allLegible hs
    exact ⟨max n m, hn.mono (Nat.le_max_left n m), hm.mono (Nat.le_max_right n m)⟩

end

mutual

/-- **A tree in normal form is read as itself.** -/
theorem Node.reread_of_normal : ∀ {node : Node}, node.Normal → node.reread .multi = .ok node
  | .leaf f, h => by
    rw [Node.Normal] at h
    rw [Node.reread, Filter.reread_of_normal h]
    rfl
  | .group form logic members, h => by
    rw [Node.Normal] at h
    obtain ⟨rfl, -, hall⟩ := h
    rw [Node.reread, Node.rereadAll_of_normal hall]
    rfl

theorem Node.rereadAll_of_normal : ∀ {nodes : List Node}, Node.AllNormal nodes →
    Node.rereadAll .multi nodes = .ok nodes
  | [], _ => rfl
  | node :: rest, ⟨h, hs⟩ => by
    rw [Node.rereadAll, Node.reread_of_normal h, Node.rereadAll_of_normal hs]
    rfl

end

end Sift
