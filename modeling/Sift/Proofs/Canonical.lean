import Sift.Proofs.Complement
import Sift.Proofs.NormalForm

/-!
# Which filters are written canonically

The text of a filter is read as what its tree is reread as, and this may be written differently. A
text is weighed by its characters, a bar with 2 and any other with -1: what a tree is reread as is
never written heavier, and lighter wherever it is written differently.

* `Expression.hasFlatSets`, `Operand.isCanonical`: what is written as before after it was reread.
* `textWeight`: the weight of a text.
* `Expression.weight_flattened`: where a bar between choices becomes a comma, the text gets lighter,
  although parentheses are lost with it.
* `Operand.weight_reread`: so it does where a single literal gets quotes or asterisks.
* `Node.rendered_iff_canonical`: **which filters are written as before after they were written and
  read**; `Node.exists_not_canonical`: not all of them.
-/

namespace Sift

namespace Expression

mutual

/-- Whether no set has a disjunction among its choices, wherever it stands. -/
def hasFlatSets : Expression → Bool
  | oneOf choices => flatChoices choices
  | not e => e.hasFlatSets
  | or left right => left.hasFlatSets && right.hasFlatSets
  | _ => true

/-- Whether none of several choices is a disjunction, and all have flat sets. -/
def flatChoices : List Expression → Bool
  | [] => true
  | e :: rest => !e.isDisjunction && e.hasFlatSets && flatChoices rest

end

end Expression

/-- **Whether an operand is written as before after it was reread**: no set has a disjunction among
its choices, and the operand is no single literal that gets quotes or asterisks. -/
def Operand.isCanonical (op : Operator) : Operand → Bool
  | .expression (.literal (.text _)) => !op.isText
  | .expression (.literal _) => false
  | .expression e => e.hasFlatSets
  | _ => true

/-! ## Weights -/

/-- The weight of a text: 2 for a bar, -1 for any other character. -/
def textWeight : List Char → Int
  | [] => 0
  | c :: rest => (if c = '|' then 2 else -1) + textWeight rest

@[simp] theorem textWeight_nil : textWeight [] = 0 := rfl

@[simp] theorem textWeight_cons (c : Char) (cs : List Char) :
    textWeight (c :: cs) = (if c = '|' then 2 else -1) + textWeight cs := rfl

@[simp] theorem textWeight_append (as bs : List Char) :
    textWeight (as ++ bs) = textWeight as + textWeight bs := by
  induction as with
  | nil => simp
  | cons c as ih => simp [ih, Int.add_assoc]

theorem textWeight_escape_le (cs : List Char) :
    textWeight (Text.Quoted.escape cs) ≤ textWeight cs := by
  induction cs with
  | nil => exact Int.le_refl 0
  | cons c rest ih =>
    rw [Text.Quoted.escape]
    split
    · simp only [textWeight_cons, Char.reduceEq, if_false]
      omega
    · simp only [textWeight_cons]
      omega

/-- Quotes make a text lighter. -/
theorem textWeight_quote_lt (cs : List Char) :
    textWeight (Text.Quoted.quote cs) < textWeight cs := by
  have hescape := textWeight_escape_le cs
  simp only [Text.Quoted.quote, List.cons_append, textWeight_cons, textWeight_append,
    textWeight_nil, Char.reduceEq, if_false]
  omega

namespace Expression

theorem textWeight_guarded (e : Expression) (cs : List Char) :
    textWeight (guarded e cs) = textWeight cs - if e.isDisjunction then 2 else 0 := by
  cases e with
  | or left right =>
    simp only [guarded, isDisjunction, List.cons_append, textWeight_cons, textWeight_append,
      textWeight_nil, Char.reduceEq, if_false, if_true]
    omega
  | _ => simp [guarded, isDisjunction]

/-- The weight of several expressions with a comma before each. -/
def listWeight : List Expression → Int
  | [] => 0
  | e :: es => textWeight e.text - 1 + listWeight es

theorem listWeight_append (as bs : List Expression) :
    listWeight (as ++ bs) = listWeight as + listWeight bs := by
  induction as with
  | nil => rw [List.nil_append, listWeight, Int.zero_add]
  | cons a as ih => rw [List.cons_append, listWeight, listWeight, ih, Int.add_assoc]

/-- Between the braces of a set there is one comma less. -/
theorem textWeight_listText (e : Expression) (rest : List Expression) :
    textWeight (listText (e :: rest)) = listWeight (e :: rest) + 1 := by
  induction rest generalizing e with
  | nil =>
    rw [listText, listWeight, listWeight]
    omega
  | cons c rest ih =>
    rw [listText, listWeight, textWeight_append, textWeight_cons, ih c]
    · simp only [Char.reduceEq, if_false]
      omega
    · simp

/-- A bar outweighs the parentheses behind it. -/
theorem textWeight_or (left right : Expression) :
    textWeight (or left right).text =
      textWeight left.text + textWeight right.text + if right.isDisjunction then 0 else 2 := by
  rw [text, textWeight_append, textWeight_cons, textWeight_guarded, if_pos rfl]
  split <;> omega

theorem textWeight_oneOf (choices : List Expression) :
    textWeight (oneOf choices).text = textWeight (listText choices) - 2 := by
  simp only [text, List.cons_append, textWeight_cons, textWeight_append, textWeight_nil,
    Char.reduceEq, if_false]
  omega

theorem textWeight_not (e : Expression) :
    textWeight (not e).text = textWeight e.text - if e.isDisjunction then 3 else 1 := by
  rw [text, textWeight_cons, textWeight_guarded]
  simp only [Char.reduceEq, if_false]
  split <;> omega

/-! ## Flattened expressions -/

theorem isDisjunction_flattened (e : Expression) : e.flattened.isDisjunction = e.isDisjunction := by
  cases e <;> rfl

/-- With commas instead of the bars, a disjunction is lighter by one for each bar at least. -/
theorem listWeight_alternatives : ∀ e : Expression,
    listWeight e.alternatives + e.steps.length ≤ textWeight e.text - 1
  | or left right => by
    have hleft := listWeight_alternatives left
    have halternatives : (or left right).alternatives = left.alternatives ++ [right] := rfl
    have hsteps : (or left right).steps.length = left.steps.length + 1 := by
      rw [steps, List.length_append, List.length_singleton]
    rw [halternatives, hsteps, listWeight_append, listWeight, textWeight_or]
    simp only [listWeight] at hleft ⊢
    split <;> omega
  | literal _ | anything | oneOf _ | contains _ | startsWith _ | endsWith _ | not _ | range _ => by
    simp [alternatives, seed, steps, listWeight]

theorem isDisjunction_of_steps {e : Expression} (h : e.steps.length = 0) :
    e.isDisjunction = false := by
  cases e with
  | or left right => simp [steps] at h
  | _ => rfl

mutual

/-- **A flattened expression is written no heavier**, and lighter unless it has flat sets. -/
theorem weight_flattened : ∀ e : Expression, textWeight e.flattened.text ≤ textWeight e.text ∧
    (textWeight e.text ≤ textWeight e.flattened.text → e.hasFlatSets = true)
  | oneOf [] => ⟨Int.le_refl _, fun _ => rfl⟩
  | oneOf (e :: rest) => by
    obtain ⟨hle, hflat⟩ := weight_flattenedChoices (e :: rest)
    obtain ⟨c, cs, hchoices⟩ : ∃ c cs, flattenedChoices (e :: rest) = c :: cs := ⟨_, _, rfl⟩
    rw [flattened, textWeight_oneOf, textWeight_oneOf, textWeight_listText, hchoices,
      textWeight_listText, ← hchoices, hasFlatSets]
    exact ⟨by omega, fun h => hflat (by omega)⟩
  | not e => by
    obtain ⟨hle, hflat⟩ := weight_flattened e
    rw [flattened, textWeight_not, textWeight_not, isDisjunction_flattened, hasFlatSets]
    exact ⟨by omega, fun h => hflat (by omega)⟩
  | or left right => by
    obtain ⟨hle, hflat⟩ := weight_flattened left
    obtain ⟨hle', hflat'⟩ := weight_flattened right
    rw [flattened, textWeight_or, textWeight_or, isDisjunction_flattened, hasFlatSets,
      Bool.and_eq_true]
    exact ⟨by omega, fun h => ⟨hflat (by omega), hflat' (by omega)⟩⟩
  | literal _ | anything | contains _ | startsWith _ | endsWith _ | range _ =>
    ⟨Int.le_refl _, fun _ => rfl⟩

theorem weight_flattenedChoices : ∀ es : List Expression,
    listWeight (flattenedChoices es) ≤ listWeight es ∧
      (listWeight es ≤ listWeight (flattenedChoices es) → flatChoices es = true)
  | [] => ⟨Int.le_refl _, fun _ => rfl⟩
  | e :: rest => by
    obtain ⟨hle, hflat⟩ := weight_flattened e
    obtain ⟨hle', hflat'⟩ := weight_flattenedChoices rest
    have halternatives := listWeight_alternatives e.flattened
    rw [flattenedChoices, listWeight_append, listWeight]
    refine ⟨by omega, fun h => ?_⟩
    -- no weight is left for a bar
    have hsteps : e.flattened.steps.length = 0 := by omega
    have hdisjunction := isDisjunction_of_steps hsteps
    rw [isDisjunction_flattened] at hdisjunction
    rw [flatChoices, hdisjunction, hflat (by omega), hflat' (by omega)]
    rfl

end

mutual

/-- An expression with flat sets is flattened already. -/
theorem flattened_of_hasFlatSets : ∀ {e : Expression}, e.hasFlatSets = true → e.flattened = e
  | oneOf choices, h => by
    rw [hasFlatSets] at h
    rw [flattened, flattenedChoices_of_flatChoices h]
  | not e, h => by
    rw [hasFlatSets] at h
    rw [flattened, flattened_of_hasFlatSets h]
  | or left right, h => by
    rw [hasFlatSets, Bool.and_eq_true] at h
    rw [flattened, flattened_of_hasFlatSets h.1, flattened_of_hasFlatSets h.2]
  | literal _, _ | anything, _ | contains _, _ | startsWith _, _ | endsWith _, _ | range _, _ => rfl

theorem flattenedChoices_of_flatChoices : ∀ {es : List Expression}, flatChoices es = true →
    flattenedChoices es = es
  | [], _ => rfl
  | e :: rest, h => by
    rw [flatChoices, Bool.and_eq_true, Bool.and_eq_true, Bool.not_eq_true'] at h
    rw [flattenedChoices, flattened_of_hasFlatSets h.1.2, alternatives_of_isDisjunction h.1.1,
      flattenedChoices_of_flatChoices h.2]
    rfl

end

end Expression

/-! ## Operands -/

/-- A date or time is written bare, and its text in quotes. -/
theorem Literal.wordText_written {l : Literal} (h : l.Legible) (hl : ∀ s, l ≠ .text s) :
    wordText l.written = Text.Quoted.quote l.written := by
  have hplain : isPlainWord l.written = false := by
    rw [isPlainWord, Literal.temporal?_written h hl, Option.isNone_some, Bool.and_false]
  rw [wordText, hplain, if_neg Bool.false_ne_true]

/-- The asterisks of a search make a text lighter. -/
theorem Operator.textWeight_textExpression_lt (op : Operator) (f : Fragment) :
    textWeight (op.textExpression f).text < textWeight f.word := by
  unfold Operator.textExpression
  split <;>
    · simp only [Expression.text, List.cons_append, textWeight_cons, textWeight_append,
        textWeight_nil, Char.reduceEq, if_false]
      omega

theorem Literal.textWeight_plainText_le {l : Literal} (h : l.Legible) :
    textWeight (wordText l.plainText) ≤ textWeight l.written := by
  rcases l.eq_text_or with ⟨s, rfl⟩ | hl
  · exact Int.le_refl _
  · rw [plainText_of_ne_text hl, wordText_written h hl]
    exact Int.le_of_lt (textWeight_quote_lt _)

variable {op : Operator} {o o' : Operand}

/-- **A single literal** is reread as what is written no heavier, and lighter unless it is a text
that is compared with. -/
theorem Literal.weight_reread {l : Literal} (h : l.Legible) (h' : l.reread op = .ok o') :
    textWeight (Filter.operandText op o') ≤ textWeight (' ' :: l.written) ∧
      (textWeight (' ' :: l.written) ≤ textWeight (Filter.operandText op o') →
        (Operand.expression (.literal l)).isCanonical op = true) := by
  unfold Literal.reread at h'
  split at h'
  · obtain ⟨f, hf, rfl⟩ := map_eq_ok.1 h'
    have hword : f.word = wordText l.plainText := by
      rw [Fragment.word, Fragment.text_of_of hf, String.toList_ofList]
    have hpattern := op.textWeight_textExpression_lt f
    have hplain := l.textWeight_plainText_le h
    rw [hword] at hpattern
    simp only [Filter.operandText, textWeight_cons]
    exact ⟨by omega, fun hle => by omega⟩
  · next hop =>
    cases h'
    simp only [Filter.operandText, Operand.string, String.toList_ofList, textWeight_cons]
    rcases l.eq_text_or with ⟨s, rfl⟩ | hl
    · refine ⟨Int.le_refl _, fun _ => ?_⟩
      rw [Operand.isCanonical, eq_false_of_ne_true hop]
      rfl
    · have hquote := textWeight_quote_lt l.written
      rw [plainText_of_ne_text hl, wordText_written h hl]
      exact ⟨by omega, fun hle => by omega⟩

namespace Operand

theorem isCanonical_of_ne_literal {e : Expression} (h : ∀ l, e ≠ .literal l) :
    (expression e).isCanonical op = e.hasFlatSets := by
  cases e with
  | literal l => exact absurd rfl (h l)
  | _ => rfl

/-- **A reread operand is written no heavier**, and lighter unless it is canonical. -/
theorem weight_reread (h : o.Legible op) (h' : o.reread op = .ok o') :
    textWeight (Filter.operandText op o') ≤ textWeight (Filter.operandText op o) ∧
      (textWeight (Filter.operandText op o) ≤ textWeight (Filter.operandText op o') →
        o.isCanonical op = true) := by
  rcases h.cases with ⟨rfl, -⟩ | ⟨s, rfl, -⟩ | ⟨e, rfl, he⟩
  · cases h'
    exact ⟨Int.le_refl _, fun _ => rfl⟩
  · cases h'
    exact ⟨Int.le_refl _, fun _ => rfl⟩
  rcases e.eq_literal_or with ⟨l, rfl⟩ | hliteral
  · exact Literal.weight_reread he h'
  · rw [reread_of_ne_literal hliteral] at h'
    cases h'
    obtain ⟨hle, hflat⟩ := e.weight_flattened
    rw [isCanonical_of_ne_literal hliteral]
    simp only [Filter.operandText, textWeight_cons]
    exact ⟨by omega, fun h => hflat (by omega)⟩

/-- A canonical operand is written as before after it was reread. -/
theorem operandText_reread (h : o.isCanonical op = true) (h' : o.reread op = .ok o') :
    Filter.operandText op o' = Filter.operandText op o := by
  cases o with
  | null | scalar _ | list _ =>
    cases h'
    rfl
  | expression e =>
    rcases e.eq_literal_or with ⟨l, rfl⟩ | hliteral
    · -- only a text that is compared with is canonical
      rcases l.eq_text_or with ⟨s, rfl⟩ | hl
      · rw [isCanonical, Bool.not_eq_true'] at h
        rw [reread, Literal.reread, h, if_neg Bool.false_ne_true] at h'
        cases h'
        simp only [Filter.operandText, string, String.toList_ofList]
        rfl
      · cases l with
        | text s => exact absurd rfl (hl s)
        | date d => cases h
        | dateTime t offset => cases h
    · rw [isCanonical_of_ne_literal hliteral] at h
      rw [reread_of_ne_literal hliteral, Expression.flattened_of_hasFlatSets h] at h'
      cases h'
      rfl

end Operand

/-! ## Comparisons and trees -/

theorem Filter.weight_reread {limit : Nat} {f f' : Filter} (h : f.Legible limit)
    (h' : f.reread = .ok f') :
    textWeight f'.text ≤ textWeight f.text ∧
      (textWeight f.text ≤ textWeight f'.text → f.operand.isCanonical f.operator = true) := by
  obtain ⟨o, ho, rfl⟩ := map_eq_ok.1 h'
  obtain ⟨path, hpath, hfield⟩ := h.field
  obtain ⟨hle, hcanonical⟩ := Operand.weight_reread h.operand ho
  rw [Filter.text_of_field hpath hfield, Filter.text_of_field hpath (f := { f with operand := o })
    hfield]
  simp only [textWeight_append, textWeight_cons]
  exact ⟨by omega, fun h => hcanonical (by omega)⟩

theorem Filter.text_reread {f f' : Filter} (h : f.operand.isCanonical f.operator = true)
    (h' : f.reread = .ok f') : f'.text = f.text := by
  obtain ⟨o, ho, rfl⟩ := map_eq_ok.1 h'
  have hoperand := Operand.operandText_reread h ho
  unfold Filter.text
  simp only [Filter.path?, hoperand]

namespace Node

variable {limit : Nat} {form : GroupForm}

/-- A reread member of a group stands in parentheses where the member does. -/
theorem memberText_reread {node node' : Node} (h : node.reread form = .ok node') :
    (∀ cs, node'.memberText cs = cs ∧ node.memberText cs = cs) ∨
      ∀ cs, node'.memberText cs = '(' :: cs ++ [')'] ∧ node.memberText cs = '(' :: cs ++ [')'] := by
  cases node with
  | leaf f =>
    obtain ⟨f', -, rfl⟩ := map_eq_ok.1 h
    exact .inl fun cs => ⟨rfl, rfl⟩
  | group form' logic members =>
    obtain ⟨members', -, rfl⟩ := map_eq_ok.1 h
    exact .inr fun cs => ⟨rfl, rfl⟩

/-- The members of a group are written like those after another one, without the word before. -/
theorem tailText_cons (form : GroupForm) (logic : Logic) (node : Node) (rest : List Node) :
    tailText logic (node :: rest) = separator logic ++ (group form logic (node :: rest)).text := by
  rw [tailText, text, List.append_assoc]

mutual

/-- **A reread tree is written no heavier**, and lighter unless all its operands are canonical. -/
theorem weight_reread : ∀ {node node' : Node}, node.Legible limit → node.reread form = .ok node' →
    textWeight node'.text ≤ textWeight node.text ∧
      (textWeight node.text ≤ textWeight node'.text →
        ∀ f ∈ node.filters, f.operand.isCanonical f.operator = true)
  | .leaf f, node', h, h' => by
    obtain ⟨f', hf', rfl⟩ := map_eq_ok.1 h'
    obtain ⟨hle, hcanonical⟩ := Filter.weight_reread h hf'
    refine ⟨hle, fun hge g hg => ?_⟩
    rw [filters, List.mem_singleton] at hg
    exact hg ▸ hcanonical hge
  | .group form' logic members, node', h, h' => by
    obtain ⟨members', hmembers, rfl⟩ := map_eq_ok.1 h'
    obtain ⟨hle, hcanonical⟩ := weight_rereadAll logic h.2 hmembers
    rw [filters]
    cases members with
    | nil =>
      cases hmembers
      exact ⟨Int.le_refl _, fun _ => hcanonical (Int.le_refl _)⟩
    | cons node rest =>
      obtain ⟨n, -, hrest⟩ := bind_eq_ok.1 hmembers
      obtain ⟨ns, -, hrest⟩ := bind_eq_ok.1 hrest
      cases hrest
      rw [tailText_cons form logic n ns, tailText_cons form' logic node rest, textWeight_append,
        textWeight_append] at hle hcanonical
      exact ⟨by omega, fun hge => hcanonical (by omega)⟩

/-- The same for the members of a group after the first. -/
theorem weight_rereadAll (logic : Logic) : ∀ {nodes nodes' : List Node}, AllLegible limit nodes →
    rereadAll form nodes = .ok nodes' →
    textWeight (tailText logic nodes') ≤ textWeight (tailText logic nodes) ∧
      (textWeight (tailText logic nodes) ≤ textWeight (tailText logic nodes') →
        ∀ f ∈ filtersOf nodes, f.operand.isCanonical f.operator = true)
  | [], nodes', _, h' => by
    cases h'
    exact ⟨Int.le_refl _, fun _ _ hf => nomatch hf⟩
  | node :: rest, nodes', h, h' => by
    obtain ⟨n, hn, h'⟩ := bind_eq_ok.1 h'
    obtain ⟨ns, hns, h'⟩ := bind_eq_ok.1 h'
    cases h'
    obtain ⟨hle, hcanonical⟩ := weight_reread h.1 hn
    obtain ⟨hle', hcanonical'⟩ := weight_rereadAll logic h.2 hns
    -- both members have parentheses, or none has
    have hmember : textWeight (n.memberText n.text) - textWeight n.text =
        textWeight (node.memberText node.text) - textWeight node.text := by
      rcases memberText_reread hn with hmember | hmember
      · rw [(hmember _).1, (hmember _).2]
        omega
      · rw [(hmember _).1, (hmember _).2]
        simp only [List.cons_append, textWeight_cons, textWeight_append]
        omega
    simp only [tailText, textWeight_append, filtersOf, List.mem_append]
    refine ⟨by omega, fun hge f hf => ?_⟩
    exact hf.elim (hcanonical (by omega) f) (hcanonical' (by omega) f)

end

mutual

/-- A tree of canonical operands is written as before after it was reread. -/
theorem text_reread : ∀ {node node' : Node},
    (∀ f ∈ node.filters, f.operand.isCanonical f.operator = true) → node.reread form = .ok node' →
    node'.text = node.text
  | .leaf f, node', h, h' => by
    obtain ⟨f', hf', rfl⟩ := map_eq_ok.1 h'
    rw [filters, List.forall_mem_singleton] at h
    exact Filter.text_reread h hf'
  | .group form' logic members, node', h, h' => by
    obtain ⟨members', hmembers, rfl⟩ := map_eq_ok.1 h'
    rw [filters] at h
    have htail := tailText_reread logic h hmembers
    cases members with
    | nil =>
      cases hmembers
      rfl
    | cons node rest =>
      obtain ⟨n, -, hrest⟩ := bind_eq_ok.1 hmembers
      obtain ⟨ns, -, hrest⟩ := bind_eq_ok.1 hrest
      cases hrest
      rw [tailText_cons form, tailText_cons form'] at htail
      exact List.append_cancel_left htail

theorem tailText_reread (logic : Logic) : ∀ {nodes nodes' : List Node},
    (∀ f ∈ filtersOf nodes, f.operand.isCanonical f.operator = true) →
    rereadAll form nodes = .ok nodes' → tailText logic nodes' = tailText logic nodes
  | [], nodes', _, h' => by
    cases h'
    rfl
  | node :: rest, nodes', h, h' => by
    obtain ⟨n, hn, h'⟩ := bind_eq_ok.1 h'
    obtain ⟨ns, hns, h'⟩ := bind_eq_ok.1 h'
    cases h'
    rw [filtersOf, List.forall_mem_append] at h
    rw [tailText, tailText, text_reread h.1 hn, tailText_reread logic h.2 hns]
    rcases memberText_reread hn with hmember | hmember
    · rw [(hmember _).1, (hmember _).2]
    · rw [(hmember _).1, (hmember _).2]

end

/-- **Which filters are written canonically.** Where a filter text was read, and the text of its
tree as well, the second tree is written as the first if and only if all operands of the first are
canonical: none is a date or time by itself or a text by itself to look for, each in parentheses,
and none has a set with a disjunction among its choices. -/
theorem rendered_iff_canonical {limit limit' : Nat} {text : String} {node node' : Node}
    (h : Node.ofText limit text = .ok node)
    (h' : Node.ofText limit' (String.ofList node.text) = .ok node') :
    node'.text = node.text ↔ ∀ f ∈ node.filters, f.operand.isCanonical f.operator = true := by
  rcases legible_ofText h with rfl | hlegible
  · exact absurd h' (ofText_always limit' node')
  have hreread : node.reread .multi = .ok node' :=
    (ofText_text hlegible (checkDepth_of_ofText h')).symm.trans h'
  refine ⟨fun htext => (weight_reread hlegible hreread).2 ?_, fun hcanonical =>
    text_reread hcanonical hreread⟩
  exact Int.le_of_eq (congrArg textWeight htext.symm)

/-- A text by itself in parentheses, which is read as another tree, and a set of negated
disjunctions in a group. -/
theorem rendered_iff_canonical_groups : ∃ node node' : Node,
    Node.ofText defaultDepth "A eq (x) or (B neq {y,!(u|v)}|(w|\"null\") and C contains !(z))" =
        .ok node ∧
      Node.ofText defaultDepth (String.ofList node.text) = .ok node' ∧
        node.same node' = false ∧ node'.text = node.text := by
  have hread : ((Node.ofText defaultDepth
      "A eq (x) or (B neq {y,!(u|v)}|(w|\"null\") and C contains !(z))").toOption.bind fun a =>
        (Node.ofText defaultDepth (String.ofList a.text)).toOption.map fun b =>
          (a.same b, a.filters.all fun f => f.operand.isCanonical f.operator)) =
      some (false, true) := by decide +kernel
  obtain ⟨node, hnode, hread⟩ := Option.bind_eq_some_iff.1 hread
  obtain ⟨node', hnode', hread⟩ := Option.map_eq_some_iff.1 hread
  obtain ⟨hsame, hcanonical⟩ := Prod.mk.inj hread
  have hfirst := toOption_eq_some.1 hnode
  have hsecond := toOption_eq_some.1 hnode'
  exact ⟨node, node', hfirst, hsecond, hsame,
    (rendered_iff_canonical hfirst hsecond).2 (List.all_eq_true.1 hcanonical)⟩

/-- Not every filter is written canonically: the bar of a disjunction in a set is written, and read
as a comma. -/
theorem exists_not_canonical : ¬∀ (text : String) (node node' : Node),
    Node.ofText defaultDepth text = .ok node →
      Node.ofText defaultDepth (String.ofList node.text) = .ok node' → node'.text = node.text := by
  intro hall
  have hread : ((Node.ofText defaultDepth "F eq {(x|y),z}").toOption.bind fun a =>
      (Node.ofText defaultDepth (String.ofList a.text)).toOption.map fun b =>
        decide (b.text = a.text)) = some false := by decide +kernel
  obtain ⟨node, hnode, hread⟩ := Option.bind_eq_some_iff.1 hread
  obtain ⟨node', hnode', htext⟩ := Option.map_eq_some_iff.1 hread
  exact of_decide_eq_false htext
    (hall _ node node' (toOption_eq_some.1 hnode) (toOption_eq_some.1 hnode'))

end Node

end Sift
