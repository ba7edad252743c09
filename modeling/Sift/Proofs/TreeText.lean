import Sift.Proofs.OperandText

/-!
# Filter trees read back

* `Node.reread`: what a written tree is read as, with groups of one form.
* `Phrase.Denotes`: a phrase of a text and the tree it was written for.
* `Grammar.reads_clause`: a written comparison is read as a phrase that denotes it.
* `Grammar.reads_member`: the same for trees, by induction on the depth to which parentheses are
  followed.
* `Node.ofText_text`: what the text of a tree is read as.
-/

namespace Sift

open Scan

/-- What a written comparison is read as. -/
def Filter.reread (f : Filter) : Except SyntaxError Filter :=
  (fun operand => { f with operand }) <$> f.operand.reread f.operator

mutual

/-- **What a written or stored tree is read as**: the same tree of what its comparisons are read
as. -/
def Node.reread (form : GroupForm) : Node → Except SyntaxError Node
  | .leaf f => .leaf <$> f.reread
  | .group _ logic members => .group form logic <$> Node.rereadAll form members

/-- What several written or stored trees are read as. -/
def Node.rereadAll (form : GroupForm) : List Node → Except SyntaxError (List Node)
  | [] => return []
  | node :: rest => do
    let n ← node.reread form
    return n :: (← Node.rereadAll form rest)

end

theorem FieldPath.Valid.written_ne {path : FieldPath} (h : path.Valid) : path.written ≠ "" := by
  obtain ⟨c, cs, hfirst, -⟩ := h.first
  intro hempty
  have hnil : path.written.toList = [] := by rw [hempty]; rfl
  rw [FieldPath.written, String.toList_ofList, hfirst] at hnil
  cases hnil

theorem FieldPath.Valid.path? {path : FieldPath} {f : Filter} (h : path.Valid)
    (hfield : f.field = some path.written) : f.path? = some path.written := by
  unfold Filter.path?
  rw [hfield]
  simp [h.written_ne]

theorem Filter.text_of_field {path : FieldPath} {f : Filter} (hpath : path.Valid)
    (hfield : f.field = some path.written) :
    f.text = path.written.toList ++ ' ' ::
      (f.operator.token.toList ++ operandText f.operator f.operand) := by
  unfold Filter.text
  simp only [hpath.path? hfield, List.append_assoc, List.cons_append]

/-- A phrase means what a tree is read as. -/
def Phrase.Denotes (p : Phrase) (node : Node) : Prop :=
  ∀ source, p.node source = node.reread .multi

/-- The same for several phrases and trees. -/
def Phrase.AllDenote (ps : List Phrase) (nodes : List Node) : Prop :=
  ∀ source, Phrase.nodes source ps = Node.rereadAll .multi nodes

theorem Phrase.AllDenote.cons {p : Phrase} {ps : List Phrase} {node : Node} {nodes : List Node}
    (h : p.Denotes node) (hs : Phrase.AllDenote ps nodes) :
    Phrase.AllDenote (p :: ps) (node :: nodes) := by
  intro source
  rw [Phrase.nodes, Node.rereadAll, h source, hs source]

/-- Members combined by a logic: conjunctions and disjunctions differ in nothing else. -/
def Phrase.combined (logic : Logic) (first : Phrase) (rest : List Phrase) : Phrase :=
  match logic with
  | .and => .all first rest
  | .or => .any first rest

theorem Phrase.node_combined (logic : Logic) (first : Phrase) (rest : List Phrase)
    (source : String) : (Phrase.combined logic first rest).node source = (do
      let n ← first.node source
      return .combine logic (n :: (← Phrase.nodes source rest))) := by
  cases logic
  · rw [combined, Phrase.node]
  · rw [combined, Phrase.node]

/-- A member without others stands for itself. -/
theorem Phrase.denotes_single (logic : Logic) {p : Phrase} {ps : List Phrase} {node : Node}
    (h : p.Denotes node) (hs : Phrase.AllDenote ps []) :
    (Phrase.combined logic p ps).Denotes node := by
  intro source
  rw [Phrase.node_combined, h source, hs source]
  cases node.reread .multi <;> rfl

/-- Several members denote a group. -/
theorem Phrase.denotes_group {form : GroupForm} (logic : Logic) {p : Phrase} {ps : List Phrase}
    {a b : Node} {nodes : List Node} (h : p.Denotes a) (hs : Phrase.AllDenote ps (b :: nodes)) :
    (Phrase.combined logic p ps).Denotes (.group form logic (a :: b :: nodes)) := by
  intro source
  rw [Phrase.node_combined, h source, hs source, Node.reread]
  simp only [Node.rereadAll]
  cases a.reread .multi with
  | error e => rfl
  | ok x =>
    cases b.reread .multi with
    | error e => rfl
    | ok y => cases Node.rereadAll .multi nodes <;> rfl

namespace Grammar

variable {rest : List Char}

/-! ## Fields -/

theorem reads_identifier {name : List Char} (h : IsIdentifier name) (hrest : EndsName rest) :
    Reads identifier (· = name) (name ++ rest) rest := by
  obtain ⟨c, cs, rfl, hc, hcs⟩ := h
  refine Reads.named (Reads.bind_eq (Reads.char hc rfl) ?_)
  have hmany := (readsMany_char Text.isWord (cs ++ rest)).many
  rw [List.takeWhile_append_of_pos hcs, List.dropWhile_append_of_pos hcs] at hmany
  have hstop : rest.takeWhile Text.isWord = [] ∧ rest.dropWhile Text.isWord = rest := by
    cases rest with
    | nil => exact ⟨rfl, rfl⟩
    | cons d rest =>
      have hd : ¬Text.isWord d = true := by simp [hrest d rfl]
      exact ⟨List.takeWhile_cons_of_neg hd, List.dropWhile_cons_of_neg hd⟩
  rw [hstop.1, hstop.2, List.append_nil] at hmany
  refine hmany.bind_eq ?_
  exact Reads.pure rfl

theorem endsName_cons {c : Char} (h : Text.isWord c = false) : EndsName (c :: rest) := by
  intro d hd
  cases hd
  exact h

theorem reads_pathStep {s : PathStep} (h : s.Valid) (hrest : EndsName rest) :
    Reads pathStep (· = s) (s.written ++ rest) rest := by
  cases s with
  | dotted name =>
    refine Reads.orElse_right (fails_exactly (by simp [PathStep.written])).bind ?_
    refine Reads.exactly_bind ?_
    refine (reads_identifier h hrest).bind_eq ?_
    exact Reads.pure rfl
  | bracketed inner =>
    have htext : (PathStep.bracketed inner).written ++ rest =
        '[' :: '"' :: (inner ++ '"' :: ']' :: rest) := by
      simp [PathStep.written]
    rw [htext]
    refine Reads.orElse_left (Reads.exactly_bind ?_)
    refine (reads_quoted h (']' :: rest)).bind_eq ?_
    exact Reads.exactly_bind (Reads.pure rfl)

/-- What follows a path: neither a name nor a path goes on. -/
def EndsPath (rest : List Char) : Prop :=
  ∀ c ∈ rest.head?, Text.isWord c = false ∧ c ≠ '[' ∧ c ≠ '.'

theorem endsPath_space : EndsPath (' ' :: rest) := by
  intro c hc
  cases hc
  decide

/-- What follows a name in a path, and behind the path. -/
theorem endsName_steps (steps : List PathStep) (hrest : EndsPath rest) :
    EndsName (steps.flatMap PathStep.written ++ rest) := by
  cases steps with
  | nil => exact fun c hc => (hrest c hc).1
  | cons s steps => cases s <;> exact endsName_cons (by decide)

theorem readsMany_pathStep {steps : List PathStep} (h : ∀ s ∈ steps, s.Valid)
    (hrest : EndsPath rest) :
    ReadsMany pathStep (· = steps) (steps.flatMap PathStep.written ++ rest) rest := by
  induction steps with
  | nil =>
    have hbracket : Fails (exactly '[') rest := fails_exactly fun c hc => (hrest c hc).2.1
    have hdot : Fails (exactly '.') rest := fails_exactly fun c hc => (hrest c hc).2.2
    exact ReadsMany.nil (Fails.orElse hbracket.bind hdot.bind) rfl
  | cons s steps ih =>
    rw [List.forall_mem_cons] at h
    rw [List.flatMap_cons, List.append_assoc]
    refine ReadsMany.cons (reads_pathStep h.1 (endsName_steps steps hrest)) ?_ (ih h.2) ?_
    · have hpos : 0 < s.written.length := by cases s <;> simp [PathStep.written]
      simp only [List.length_append]
      omega
    · rintro _ _ rfl rfl
      rfl

/-- A path is read back. -/
theorem reads_field {path : FieldPath} (h : path.Readable) (hrest : EndsPath rest) :
    Reads field (· = path) (path.written.toList ++ rest) rest := by
  unfold FieldPath.written
  rw [String.toList_ofList, List.append_assoc]
  refine Reads.named ((reads_identifier h.first (endsName_steps path.steps hrest)).bind_eq ?_)
  refine (readsMany_pathStep h.steps hrest).many.bind_eq ?_
  exact Reads.pure rfl

/-! ## Comparisons -/

/-- What follows a comparison: no word and no mark of a value goes on. -/
structure EndsClause (rest : List Char) : Prop where
  term : EndsTerm rest
  name : EndsName rest
  bar : ∀ c ∈ (afterBlanks rest).head?, c ≠ '|'

/-- **A written comparison is read as a phrase that denotes it.** -/
theorem reads_clause {limit depth : Nat} {f : Filter} (h : f.Legible limit)
    (hdepth : f.text.length ≤ depth) (hrest : EndsClause rest) :
    ReadsUpTo (clause depth) (·.Denotes (.leaf f)) (f.text ++ rest) rest := by
  obtain ⟨path, hpath, hfield⟩ := h.field
  have htext := Filter.text_of_field hpath hfield
  have hlength : (Filter.operandText f.operator f.operand).length ≤ depth := by
    simp only [htext, List.length_append, List.length_cons] at hdepth
    omega
  rw [htext, List.append_assoc, List.cons_append, List.append_assoc]
  -- the clause denotes the comparison where its value is read as the operand
  have hdenotes : ∀ value, (∀ source, path.filter source f.operator value =
      Filter.on path.written f.operator <$> f.operand.reread f.operator) →
      (Phrase.clause path f.operator value).Denotes (.leaf f) := by
    intro value hvalue source
    rw [Phrase.node, hvalue source, Node.reread, Filter.reread, hfield]
    rfl
  refine ReadsUpTo.named ((reads_field hpath.readable endsPath_space).bind_upTo ?_)
  have hblank : afterBlanks (' ' :: (f.operator.token.toList ++
      (Filter.operandText f.operator f.operand ++ rest))) =
      f.operator.token.toList ++ (Filter.operandText f.operator f.operand ++ rest) := by
    cases f.operator <;> rfl
  refine ReadsUpTo.spaced_to hblank ?_
  cases hop : f.operator.requiresValue with
  | false =>
    -- no value: the operator ends the comparison, and its operand is null
    have hnull := h.null hop
    have hnone : Filter.operandText f.operator f.operand = [] := by
      simp [hnull, Filter.operandText, hop]
    rw [hnone, List.nil_append]
    refine (Reads.orElse_left ((reads_operator (by simp [hop]) hrest.name).bind_eq ?_)).upTo
    refine Reads.pure (hdenotes none fun source => ?_)
    rw [hnull]
    rfl
  | true =>
    -- whatever the operand is, a space or a bracket ends the operator's name
    have hname : EndsName (Filter.operandText f.operator f.operand ++ rest) := by
      rcases h.operand.cases with ⟨hnull, -⟩ | ⟨s, hs, -⟩ | ⟨e, he, -⟩
      · rw [hnull, Filter.operandText, hop]
        exact endsName_cons (by decide)
      · rw [hs]
        exact endsName_cons (by decide)
      · rw [he]
        exact endsName_cons (by decide)
    -- the operators without a value are tried first, and none of them is this one
    refine ReadsUpTo.orElse_right (fails_operator (by simp [hop]) hname).bind ?_
    refine (reads_operator hop hname).bind_upTo ?_
    have hread := reads_operandText h.operand hop hlength hrest.term hrest.bar
    exact hread.map fun v hv => hdenotes (some v) fun source => by
      rw [FieldPath.filter, hv source]

/-! ## Members and what stands between them -/

/-- Whether a scanner reads the member of a group, where it ends as `E` tells. -/
def ReadsMember (E : List Char → Prop) (member : Scan Phrase) (node : Node) : Prop :=
  ∀ rest, E rest →
    ReadsUpTo member (·.Denotes node) (node.memberText node.text ++ rest) rest

variable {member : Scan Phrase} {E : List Char → Prop} {logic : Logic} {limit : Nat}

theorem isName_logic (logic : Logic) : IsName logic.token.toList := by
  cases logic <;> exact forall_mem_of_all (by decide)

theorem afterBlanks_token (logic : Logic) (cs : List Char) :
    afterBlanks (logic.token.toList ++ cs) = logic.token.toList ++ cs := by
  cases logic <;> rfl

theorem endsClause_separator (logic : Logic) (cs : List Char) :
    EndsClause (Node.separator logic ++ cs) := by
  refine ⟨endsTerm_cons (by simp), endsName_cons (by decide), ?_⟩
  unfold Node.separator
  simp only [List.cons_append, List.append_assoc, afterBlanks_space, afterBlanks_token]
  intro c hc
  cases logic <;> cases hc <;> decide

/-- A comparison begins with a name. -/
theorem head_filterText {f : Filter} (h : f.Legible limit) :
    ∃ c cs, f.text = c :: cs ∧ Text.isWordStart c = true := by
  obtain ⟨path, hpath, hfield⟩ := h.field
  obtain ⟨c, cs, hfirst, hc, -⟩ := hpath.first
  rw [Filter.text_of_field hpath hfield, FieldPath.written, hfirst, String.toList_ofList]
  exact ⟨c, _, rfl, hc⟩

theorem isBlank_of_isWordStart {c : Char} (h : Text.isWordStart c = true) :
    Scan.isBlank c = false := by
  cases hblank : Scan.isBlank c with
  | false => rfl
  | true =>
    have hword : ∀ d ∈ [' ', '\t', '\r', '\n'], ¬Text.isWordStart d = true :=
      forall_mem_of_all (by decide)
    exact absurd h (hword c (mem_of_isBlank hblank))

/-- The member of a group begins with a parenthesis or with a name. -/
theorem head_memberText {node : Node} (h : node.Legible limit) (cs : List Char) :
    ∀ c ∈ (node.memberText node.text ++ cs).head?, Scan.isBlank c = false := by
  cases node with
  | leaf f =>
    obtain ⟨c, ds, htext, hc⟩ := head_filterText h
    rw [Node.memberText, Node.text, htext]
    intro d hd
    cases hd
    exact isBlank_of_isWordStart hc
  | group form logic members =>
    intro c hc
    cases hc
    decide

section Joined

variable {α : Type} {text : α → List Char} {P : α → Phrase → Prop} {Q : Phrase → Prop}

/-- Texts with the word for a logic before each. -/
def joinedTexts (logic : Logic) (text : α → List Char) (xs : List α) : List Char :=
  xs.flatMap fun x => Node.separator logic ++ text x

/-- A text is read as a member where it ends as `E` tells. -/
structure ReadsMemberText (E : List Char → Prop) (member : Scan Phrase) (cs : List Char)
    (Q : Phrase → Prop) : Prop where
  head : ∀ rest, ∀ c ∈ (cs ++ rest).head?, Scan.isBlank c = false
  reads : ∀ rest, E rest → ReadsUpTo member Q (cs ++ rest) rest

/-- A member after the word before it. -/
theorem reads_joined (logic : Logic) {cs : List Char} (hmember : ReadsMemberText E member cs Q)
    (hrest : E rest) :
    ReadsUpTo (do keyword logic.token; spaced member) Q
      (logic.token.toList ++ ' ' :: (cs ++ rest)) rest := by
  refine Reads.bind_upTo (a := ()) (reads_keyword rfl rfl (endsName_cons (by decide))) ?_
  exact ReadsUpTo.spaced_to ((afterBlanks_space _).trans (afterBlanks_of_head (hmember.head rest)))
    (hmember.reads rest hrest)

theorem ends_joinedTexts (hE : ∀ cs, E (Node.separator logic ++ cs)) (hrest : E rest)
    (xs : List α) : E (joinedTexts logic text xs ++ rest) := by
  cases xs with
  | nil => exact hrest
  | cons x xs =>
    rw [joinedTexts, List.flatMap_cons, List.append_assoc, List.append_assoc]
    exact hE _

theorem afterBlanks_joinedTexts (x : α) (xs : List α) :
    afterBlanks (joinedTexts logic text (x :: xs) ++ rest) = logic.token.toList ++
      ' ' :: (text x ++ (joinedTexts logic text xs ++ rest)) := by
  simp only [joinedTexts, List.flatMap_cons, Node.separator, List.append_assoc, List.cons_append,
    List.nil_append, afterBlanks_space]
  exact afterBlanks_token logic _

/-- The members after the first are read, from before or after the white space. -/
theorem readsMany_joinedTexts {xs : List α}
    (hmembers : ∀ x ∈ xs, ReadsMemberText E member (text x) (P x))
    (hE : ∀ cs, E (Node.separator logic ++ cs)) (hrest : E rest)
    (hstop : Fails (keyword logic.token) (afterBlanks rest)) {cs : List Char}
    (hcs : cs = joinedTexts logic text xs ++ rest ∨
      cs = afterBlanks (joinedTexts logic text xs ++ rest)) :
    ReadsManyUpTo (spaced (do keyword logic.token; spaced member)) (List.Forall₂ P xs ·) cs
      rest := by
  induction xs generalizing cs with
  | nil =>
    rcases hcs with rfl | rfl
    · exact Or.inl (ReadsMany.nil (Fails.spaced hstop.bind) .nil)
    · refine Or.inr (ReadsMany.nil (Fails.spaced ?_) .nil)
      rw [joinedTexts, List.flatMap_nil, List.nil_append, afterBlanks_afterBlanks]
      exact hstop.bind
  | cons x xs ih =>
    rw [List.forall_mem_cons] at hmembers
    have hblanks : afterBlanks cs = logic.token.toList ++
        ' ' :: (text x ++ (joinedTexts logic text xs ++ rest)) := by
      rw [← afterBlanks_joinedTexts]
      rcases hcs with rfl | rfl
      · rfl
      · exact afterBlanks_afterBlanks _
    -- the text gets shorter at every member, so the repetition goes on
    have hlength : (joinedTexts logic text xs ++ rest).length < cs.length := by
      have hle := length_afterBlanks_le cs
      rw [hblanks] at hle
      simp only [List.length_append, List.length_cons] at hle ⊢
      omega
    have hends : E (joinedTexts logic text xs ++ rest) := ends_joinedTexts hE hrest xs
    have hjoined := ReadsUpTo.spaced_to hblanks (reads_joined logic hmembers.1 hends)
    exact hjoined.many_cons hlength (ih hmembers.2) fun p ps => .cons

/-- **A member and others after it** are read up to where no other follows. -/
theorem reads_joinedTexts (logic : Logic) {before : List Char} {xs : List α}
    (hfirst : ReadsUpTo member Q (before ++ (joinedTexts logic text xs ++ rest))
      (joinedTexts logic text xs ++ rest))
    (hmembers : ∀ x ∈ xs, ReadsMemberText E member (text x) (P x))
    (hE : ∀ cs, E (Node.separator logic ++ cs)) (hrest : E rest)
    (hstop : Fails (keyword logic.token) (afterBlanks rest)) :
    ReadsUpTo (joinedBy logic.token member) (fun ps => Q ps.1 ∧ List.Forall₂ P xs ps.2)
      (before ++ (joinedTexts logic text xs ++ rest)) rest := by
  have htail : ReadsUpTo (manySpaced (do keyword logic.token; spaced member))
      (List.Forall₂ P xs ·) (afterBlanks (joinedTexts logic text xs ++ rest)) rest := by
    cases xs with
    | nil => exact Or.inr (Reads.manySpaced_nil hstop.bind .nil)
    | cons second xs =>
      rw [List.forall_mem_cons] at hmembers
      rw [afterBlanks_joinedTexts]
      have hends : E (joinedTexts logic text xs ++ rest) := ends_joinedTexts hE hrest xs
      have hsecond := reads_joined logic hmembers.1 hends
      exact hsecond.manySpaced_cons (readsMany_joinedTexts hmembers.2 hE hrest hstop)
        fun p ps => .cons
  -- the white space behind the last member is either read or left, as for the tail
  refine htail.imp (fun ht => ?_) fun ht => ?_
  all_goals
    refine hfirst.bind fun p hp cs hcs => ?_
    refine Reads.blanks_bind ?_
    rw [hcs]
    exact ht.bind fun ps hps => Reads.pure ⟨hp, hps⟩

end Joined

theorem tailText_eq (logic : Logic) (nodes : List Node) :
    Node.tailText logic nodes =
      joinedTexts logic (fun node => node.memberText node.text) nodes := by
  induction nodes with
  | nil => rfl
  | cons node nodes ih =>
    rw [Node.tailText, ih]
    rfl

/-- Phrases that denote trees one by one. -/
theorem allDenote_of_forall₂ {ps : List Phrase} {nodes : List Node}
    (h : List.Forall₂ (fun node p => Phrase.Denotes p node) nodes ps) :
    Phrase.AllDenote ps nodes := by
  induction h with
  | nil => exact fun _ => rfl
  | cons hp _ ih => exact Phrase.AllDenote.cons hp ih

theorem ends_tailText (hE : ∀ cs, E (Node.separator logic ++ cs)) (hrest : E rest)
    (nodes : List Node) : E (Node.tailText logic nodes ++ rest) := by
  rw [tailText_eq]
  exact ends_joinedTexts hE hrest nodes

/-- A member of a group and others after it are read up to where no other follows. -/
theorem reads_joinedBy (logic : Logic) {before : List Char} {node : Node} {nodes : List Node}
    (hfirst : ReadsUpTo member (·.Denotes node) (before ++ (Node.tailText logic nodes ++ rest))
      (Node.tailText logic nodes ++ rest))
    (hmembers : ∀ node ∈ nodes, ReadsMember E member node)
    (hlegible : Node.AllLegible limit nodes) (hE : ∀ cs, E (Node.separator logic ++ cs))
    (hrest : E rest) (hstop : Fails (keyword logic.token) (afterBlanks rest)) :
    ReadsUpTo (joinedBy logic.token member)
      (fun ps => ps.1.Denotes node ∧ Phrase.AllDenote ps.2 nodes)
      (before ++ (Node.tailText logic nodes ++ rest)) rest := by
  have htexts : ∀ node ∈ nodes, ReadsMemberText E member (node.memberText node.text)
      (·.Denotes node) := fun node hnode =>
    ⟨head_memberText (Node.allLegible_iff.1 hlegible node hnode), hmembers node hnode⟩
  rw [tailText_eq] at hfirst ⊢
  exact (reads_joinedTexts (P := fun node p => Phrase.Denotes p node) logic hfirst htexts hE hrest
    hstop).mono fun ps hps => ⟨hps.1, allDenote_of_forall₂ hps.2⟩

/-- Where neither a comparison nor a conjunction goes on. -/
def EndsConjunction (rest : List Char) : Prop :=
  EndsClause rest ∧ Fails (keyword "and") (afterBlanks rest)

theorem endsConjunction_or (cs : List Char) : EndsConjunction (Node.separator .or ++ cs) := by
  refine ⟨endsClause_separator .or cs, ?_⟩
  unfold Node.separator
  simp only [List.cons_append, List.append_assoc, afterBlanks_space, afterBlanks_token]
  exact fails_keyword (isName_logic .and) (isName_logic .or) (by decide)
    (endsName_cons (by decide))

/-- A member is read where it is a conjunction of one. -/
theorem reads_conjunction_of_member {Q : Phrase → Prop} {before : List Char}
    (hQ : ∀ p, Q p → Q (Phrase.combined .and p []))
    (h : ReadsUpTo member Q (before ++ rest) rest) (hrest : EndsConjunction rest) :
    ReadsUpTo (conjunction member) Q (before ++ rest) rest := by
  have hjoined : ReadsUpTo (joinedBy Logic.and.token member)
      (fun ps => Q ps.1 ∧ List.Forall₂ (fun _ : Unit => Q) [] ps.2)
      (before ++ (joinedTexts .and (fun _ => []) [] ++ rest)) rest :=
    reads_joinedTexts .and h (by simp) (endsClause_separator .and) hrest.1 hrest.2
  refine ReadsUpTo.named (hjoined.map ?_)
  rintro ⟨p, ps⟩ ⟨hp, hps⟩
  cases hps
  exact hQ p hp

theorem reads_conjunction_single {node : Node} (h : ReadsMember EndsClause member node) :
    ReadsMember EndsConjunction (conjunction member) node := fun rest hrest =>
  reads_conjunction_of_member (fun _ hp => Phrase.denotes_single .and hp fun _ => rfl)
    (h rest hrest.1) hrest

theorem reads_conjunction {form : GroupForm} {a b : Node} {nodes : List Node}
    (hmembers : ∀ node ∈ a :: b :: nodes, ReadsMember EndsClause member node)
    (hlegible : Node.AllLegible limit (b :: nodes)) (hrest : EndsConjunction rest) :
    ReadsUpTo (conjunction member) (·.Denotes (.group form .and (a :: b :: nodes)))
      ((Node.group form .and (a :: b :: nodes)).text ++ rest) rest := by
  rw [List.forall_mem_cons] at hmembers
  have hends := ends_tailText (endsClause_separator .and) hrest.1 (b :: nodes)
  have hjoined := reads_joinedBy .and (hmembers.1 _ hends) hmembers.2 hlegible
    (endsClause_separator .and) hrest.1 hrest.2
  rw [Node.text, List.append_assoc]
  exact ReadsUpTo.named (hjoined.map fun ps hps => Phrase.denotes_group .and hps.1 hps.2)

/-- Where nothing of a filter goes on. -/
def EndsFilter (rest : List Char) : Prop :=
  EndsConjunction rest ∧ Fails (keyword "or") (afterBlanks rest)

/-- A disjunction of one conjunction. -/
theorem reads_disjunction_single {before : List Char} {node : Node}
    (h : ReadsUpTo (conjunction member) (·.Denotes node) (before ++ rest) rest)
    (hrest : EndsFilter rest) :
    ReadsUpTo (disjunction member) (·.Denotes node) (before ++ rest) rest := by
  have hnone : ∀ m ∈ [], ReadsMember EndsConjunction (conjunction member) m := by simp
  have hlegible : Node.AllLegible 0 [] := trivial
  have hjoined := reads_joinedBy .or h hnone hlegible endsConjunction_or hrest.1 hrest.2
  rw [disjunction_eq]
  exact ReadsUpTo.named (hjoined.map fun ps hps =>
    Phrase.denotes_single .or hps.1 hps.2)

theorem length_memberText_le {form : GroupForm} {m node : Node} {nodes : List Node}
    (hm : m ∈ node :: nodes) :
    (m.memberText m.text).length ≤ (Node.group form logic (node :: nodes)).text.length := by
  have htail : ∀ ns : List Node, m ∈ ns →
      (m.memberText m.text).length ≤ (Node.tailText logic ns).length := by
    intro ns
    induction ns with
    | nil => simp
    | cons n ns ih =>
      intro hn
      rw [Node.tailText, List.length_append, List.length_append]
      rcases List.mem_cons.1 hn with rfl | hn
      · omega
      · have := ih hn
        omega
  rw [Node.text, List.length_append]
  rcases List.mem_cons.1 hm with rfl | hm
  · omega
  · have := htail nodes hm
    omega

/-- A tree is read where the members of its outermost group are. -/
theorem reads_disjunction {node : Node} (h : node.Legible limit)
    (hmember : ∀ m : Node, m.Legible limit → (m.memberText m.text).length ≤ node.text.length →
      ReadsMember EndsClause member m)
    (hrest : EndsFilter rest) :
    ReadsUpTo (disjunction member) (·.Denotes node) (node.text ++ rest) rest := by
  match node, h with
  | .leaf f, h =>
    -- a conjunction of one member, in a disjunction of one
    exact reads_disjunction_single (reads_conjunction_single (hmember _ h (Nat.le_refl _))
      rest hrest.1) hrest
  | .group form .and (a :: b :: nodes), h =>
    refine reads_disjunction_single (reads_conjunction (fun m hm => ?_) h.2.2 hrest.1) hrest
    exact hmember m (Node.allLegible_iff.1 h.2 m hm) (length_memberText_le hm)
  | .group form .or (a :: b :: nodes), h =>
    -- every member of a disjunction is a conjunction of one member
    have hmembers : ∀ m ∈ a :: b :: nodes, ReadsMember EndsConjunction (conjunction member) m :=
      fun m hm => reads_conjunction_single
        (hmember m (Node.allLegible_iff.1 h.2 m hm) (length_memberText_le hm))
    rw [List.forall_mem_cons] at hmembers
    have hends := ends_tailText endsConjunction_or hrest.1 (b :: nodes)
    have hjoined := reads_joinedBy .or (hmembers.1 _ hends) hmembers.2 h.2.2
      endsConjunction_or hrest.1 hrest.2
    rw [Node.text, List.append_assoc, disjunction_eq]
    exact ReadsUpTo.named (hjoined.map fun ps hps =>
      Phrase.denotes_group .or hps.1 hps.2)

/-! ## Trees -/

/-- What stands in parentheses, or a comparison. -/
def memberBody (depth : Nat) : Scan Phrase :=
  (do
    exactly '('
    let p ← spaced (disjunction (Grammar.member depth))
    spaced (exactly ')')
    return p) <|>
  clause (depth + 1)

theorem member_succ (depth : Nat) : Grammar.member (depth + 1) = named (do
    let nots ← manySpaced (keyword "not")
    let p ← spaced (memberBody depth)
    return phraseNegations nots.length p) := rfl

theorem endsFilter_close (cs : List Char) : EndsFilter (')' :: cs) := by
  have hname : EndsName (')' :: cs) := endsName_cons (by decide)
  have hkeyword : ∀ l : Logic, Fails (keyword l.token) (afterBlanks (')' :: cs)) := fun l =>
    fails_keyword_nil (isName_logic l) (by cases l <;> decide) hname
  exact ⟨⟨⟨endsTerm_cons (by simp), hname, by intro c hc; cases hc; decide⟩, hkeyword .and⟩,
    hkeyword .or⟩

theorem endsFilter_nil : EndsFilter [] := by
  have hname : EndsName [] := by simp [EndsName]
  have hkeyword : ∀ l : Logic, Fails (keyword l.token) [] := fun l =>
    fails_keyword_nil (isName_logic l) (by cases l <;> decide) hname
  exact ⟨⟨⟨by simp [EndsTerm], hname, by simp⟩, hkeyword .and⟩, hkeyword .or⟩

/-- A text begins without white space. -/
theorem afterBlanks_nodeText {node : Node} (h : node.Legible limit) (cs : List Char) :
    afterBlanks (node.text ++ cs) = node.text ++ cs := by
  match node, h with
  | .leaf f, h => exact afterBlanks_of_head (head_memberText h cs)
  | .group form logic (a :: nodes), h =>
    rw [Node.text, List.append_assoc]
    exact afterBlanks_of_head (head_memberText h.2.1 _)

/-- No member begins with the word for a negation. -/
theorem fails_not {node : Node} (h : node.Legible limit) (cs : List Char) :
    Fails (keyword "not") (node.memberText node.text ++ cs) := by
  have hnot : IsName "not".toList := forall_mem_of_all (by decide)
  cases node with
  | leaf f =>
    obtain ⟨path, hpath, hfield⟩ := Filter.Legible.field h
    rw [Node.memberText, Node.text, Filter.text_of_field hpath hfield, FieldPath.written,
      String.toList_ofList]
    simp only [List.append_assoc, List.cons_append]
    exact fails_keyword hnot hpath.first.isWord hpath.first_ne
      (endsName_steps path.steps endsPath_space)
  | group form logic members =>
    exact fails_keyword_nil hnot (by decide) (endsName_cons (by decide))

/-- **A written tree is read as a phrase that denotes it**, where parentheses are followed deep
enough. -/
theorem reads_member {depth : Nat} {node : Node} (h : node.Legible limit)
    (hdepth : (node.memberText node.text).length < depth) :
    ReadsMember EndsClause (Grammar.member depth) node := by
  induction depth generalizing node with
  | zero => omega
  | succ depth ih =>
    intro rest hrest
    have hbody : ReadsUpTo (memberBody depth) (·.Denotes node)
        (node.memberText node.text ++ rest) rest := by
      cases node with
      | leaf f =>
        -- no parenthesis: the text begins with a name
        refine ReadsUpTo.orElse_right (fails_exactly ?_).bind
          (reads_clause h (Nat.le_of_lt hdepth) hrest)
        obtain ⟨c, cs, htext, hc⟩ := head_filterText h
        rw [Node.memberText, Node.text, htext]
        intro d hd
        cases hd
        rintro rfl
        exact absurd hc (by decide)
      | group form logic members =>
        have htext : (Node.group form logic members).memberText
            (Node.group form logic members).text ++ rest =
            '(' :: ((Node.group form logic members).text ++ ')' :: rest) := by
          simp [Node.memberText]
        rw [htext]
        -- the parentheses take two characters, so the depth suffices for what is inside
        have hlength : (Node.group form logic members).text.length < depth := by
          simp only [Node.memberText, List.length_cons, List.length_append] at hdepth
          omega
        have hinner := reads_disjunction h (fun m hm hle => ih hm (by omega))
          (endsFilter_close rest)
        refine (Reads.orElse_left (Reads.exactly_bind ?_)).upTo
        refine (ReadsUpTo.spaced_to (afterBlanks_nodeText h _) hinner).bind fun p hp cs hcs => ?_
        exact (reads_closing (P := fun _ => True) trivial (by decide) hcs).bind
          fun _ _ => Reads.pure hp
    rw [member_succ]
    refine ReadsUpTo.named (Reads.bind_upTo (Reads.manySpaced_nil (R := (· = []))
      (fails_not h rest) rfl) ?_)
    exact (ReadsUpTo.spaced_to (afterBlanks_of_head (head_memberText h rest)) hbody).map
      fun p hp => hp

/-- A whole text is read as a phrase that denotes the tree it was written for. -/
theorem reads_input {node : Node} (h : node.Legible limit) :
    Reads (input (node.text.length + 1)) (fun found => ∃ p, found = some p ∧ p.Denotes node)
      node.text [] := by
  have hmember : ∀ m : Node, m.Legible limit → (m.memberText m.text).length ≤ node.text.length →
      ReadsMember EndsClause (Grammar.member (node.text.length + 1)) m :=
    fun m hm hle => reads_member hm (by omega)
  have htext := reads_disjunction h hmember endsFilter_nil
  have hblanks := afterBlanks_nodeText h []
  rw [List.append_nil] at htext hblanks
  have hsome : ReadsUpTo (optional (disjunction (Grammar.member (node.text.length + 1))))
      (fun found => ∃ p, found = some p ∧ p.Denotes node) node.text [] :=
    ReadsUpTo.orElse_left (htext.map fun p hp => ⟨p, rfl, hp⟩)
  refine Reads.named ((ReadsUpTo.spaced_to hblanks hsome).bind fun found hfound cs hcs => ?_)
  refine Reads.bind (P := fun _ => True) (Reads.spaced_to hcs ?_) fun _ _ => Reads.pure hfound
  exact (Reads.notBefore (by simp) trivial).named

/-- A path begins with a letter or an underscore. -/
theorem fails_clause {depth : Nat} {cs : List Char} (hname : EndsName cs) :
    Fails (clause depth) cs := by
  have hstart : ∀ c ∈ cs.head?, Text.isWordStart c = false := fun c hc =>
    eq_false_of_ne_true fun hc' => by
      have hword := Text.isWord_of_isWordStart hc'
      rw [hname c hc] at hword
      cases hword
  exact ((fails_char hstart).bind.named).bind.named.bind.named

theorem fails_disjunction_of_member {member : Scan Phrase} {cs : List Char}
    (h : Fails member cs) : Fails (disjunction member) cs :=
  h.bind.bind.named.bind.bind.named

/-- A phrase begins with a name or with a parenthesis. -/
theorem fails_disjunction (depth : Nat) {cs : List Char} (hblank : afterBlanks cs = cs)
    (hname : EndsName cs) (hparenthesis : ∀ c ∈ cs.head?, c ≠ '(') :
    Fails (disjunction (Grammar.member depth)) cs := by
  refine fails_disjunction_of_member ?_
  cases depth with
  | zero => exact fails_fail
  | succ depth =>
    have hkeyword : Fails (keyword "not") cs :=
      fails_keyword_nil (forall_mem_of_all (by decide)) (by decide) hname
    rw [member_succ]
    refine Fails.named (Reads.bind_fails (Reads.manySpaced_nil (R := (· = [])) hkeyword rfl)
      fun _ _ => Fails.bind (Fails.spaced ?_))
    rw [hblank]
    exact Fails.orElse (fails_exactly hparenthesis).bind (fails_clause hname)

theorem fails_input_star (depth : Nat) : Fails (input depth) ['*'] := by
  -- no filter is read, and the star is left where the text should end
  have hnone : Reads (spaced (optional (disjunction (Grammar.member depth)))) (fun _ => True)
      ['*'] ['*'] := by
    refine Reads.spaced_to rfl (Reads.optional_none (fails_disjunction depth rfl
      (endsName_cons (by decide)) fun c hc => ?_) trivial)
    cases hc
    decide
  refine Fails.named (hnone.bind_fails fun _ _ => Fails.bind (Fails.spaced (Fails.named ?_)))
  exact fails_notBefore rfl

end Grammar

/-! ## Whole texts -/

/-- **The text of a tree is read as what the tree is reread as**, unless its brackets nest too
deep. -/
theorem Node.ofText_text {limit limit' : Nat} {node : Node} (h : node.Legible limit)
    (hdepth : checkDepth limit' (String.ofList node.text) = .ok ()) :
    Node.ofText limit' (String.ofList node.text) = node.reread .multi := by
  have hlength : (String.ofList node.text).length = node.text.length := by simp
  obtain ⟨found, there, hfound, -, -, p, rfl, hp⟩ :=
    Grammar.reads_input h (Cursor.start (String.ofList node.text).toList) (by
      rw [Cursor.start, String.toList_ofList])
  rw [← hlength] at hfound
  have hscanned := scanned_eq_ok.2 ⟨there, hfound, rfl⟩
  unfold Node.ofText
  rw [hdepth]
  show (scanned _ _ >>= _) = _
  rw [hscanned]
  exact hp _

/-- A text that is read does not nest too deep. -/
theorem Node.checkDepth_of_ofText {limit : Nat} {text : String} {node : Node}
    (h : Node.ofText limit text = .ok node) : checkDepth limit text = .ok () := by
  unfold Node.ofText at h
  obtain ⟨_, hdepth, -⟩ := bind_eq_ok.1 h
  exact hdepth

/-- The tree that accepts everything is written, but not read. -/
theorem Node.ofText_always (limit : Nat) (node : Node) :
    Node.ofText limit (String.ofList Node.always.text) ≠ .ok node := by
  intro h
  unfold Node.ofText at h
  obtain ⟨_, -, h⟩ := bind_eq_ok.1 h
  obtain ⟨⟨found, consumed⟩, hscanned, -⟩ := bind_eq_ok.1 h
  obtain ⟨there, hfound, -⟩ := scanned_eq_ok.1 hscanned
  have hfails := Grammar.fails_input_star ((String.ofList Node.always.text).length + 1)
    (Cursor.start (String.ofList Node.always.text).toList) (by
      rw [Cursor.start, String.toList_ofList]; rfl)
  rw [hfails] at hfound
  cases hfound

end Sift
