import Sift.Proofs.Composition

/-!
# Values behind an operator and by themselves

A filter text that is one comparison ends with a value, and a stored filter holds that value as a
text of its own. Both are read by one grammar, but at different offsets, with brackets followed to
different depths, and with different things that may stand behind the value.

* `GoesOn p q before after`: with `before` ahead, `p` finds what `q` finds with `after` ahead.
* `Grammar.member_goesOn_clause`, `Grammar.member_goesOn`: a comparison is found where it is a
  member, and where its value is.
* `Grammar.value_elsewhere`: a value is found alike wherever the same text is ahead.
* `Grammar.found_member_of_disjunction`: a filter that stands for a comparison has one member.
* `Node.ofText_comparison_iff`: **a comparison is read exactly if its value is read by itself**;
  `Node.exists_unread_comparison`: unless its field is a spelling of `not`.
-/

namespace Sift

open Text (Tight)

/-! ## Scanners that go on as others -/

namespace Scan

variable {α β : Type} {p q r : Scan α} {f : α → Scan β} {before between after : List Char}

/-- From any place with `before` ahead a scanner finds what another finds from some place in the
same text with `after` ahead. -/
def GoesOn (p q : Scan α) (before after : List Char) : Prop :=
  ∀ here : Cursor, here.rest = before → ∃ next : Cursor, next.rest = after ∧
    next.stop = here.stop ∧ (p here).found = (q next).found

theorem GoesOn.trans (h : GoesOn p q before between) (h' : GoesOn q r between after) :
    GoesOn p r before after := by
  intro here hhere
  obtain ⟨mid, hmid, hstop, hfound⟩ := h here hhere
  obtain ⟨next, hnext, hstop', hfound'⟩ := h' mid hmid
  exact ⟨next, hnext, hstop'.trans hstop, hfound.trans hfound'⟩

theorem GoesOn.reads {P : α → Prop} (h : GoesOn p q before between) (hq : Reads q P between after) :
    Reads p P before after := by
  intro here hhere
  obtain ⟨next, hnext, hstop, hfound⟩ := h here hhere
  obtain ⟨a, there, hthere, hafter, hstop', ha⟩ := hq next hnext
  exact ⟨a, there, hfound.trans hthere, hafter, hstop'.trans hstop, ha⟩

theorem GoesOn.readsUpTo {P : α → Prop} (h : GoesOn p q before between)
    (hq : ReadsUpTo q P between after) : ReadsUpTo p P before after :=
  hq.imp h.reads h.reads

theorem GoesOn.bind (h : GoesOn p q before after) :
    GoesOn (p >>= f) (q >>= f) before after := by
  intro here hhere
  obtain ⟨next, hnext, hstop, hfound⟩ := h here hhere
  refine ⟨next, hnext, hstop, ?_⟩
  rw [found_bind, found_bind, hfound]

theorem GoesOn.named (h : GoesOn p q before after) : GoesOn (Scan.named p) q before after := by
  intro here hhere
  obtain ⟨next, hnext, hstop, hfound⟩ := h here hhere
  exact ⟨next, hnext, hstop, (found_named p here).trans hfound⟩

/-- Behind what is known to be read comes what follows it. -/
theorem Reads.goesOn {a : α} (h : Reads p (· = a) before after) :
    GoesOn (p >>= f) (f a) before after := by
  intro here hhere
  obtain ⟨_, next, hfound, hnext, hstop, rfl⟩ := h here hhere
  refine ⟨next, hnext, hstop, ?_⟩
  rw [found_bind, hfound, Option.bind_some]

/-- Behind a choice that fails comes the next one. -/
theorem Fails.goesOn (h : Fails p before) : GoesOn (p <|> q) q before before := by
  intro here hhere
  refine ⟨here, hhere, rfl, ?_⟩
  rw [found_orElse, h here hhere, Option.none_or]

theorem spaced_goesOn (h : afterBlanks before = after) : GoesOn (spaced p) p before after := by
  have hblanks : Reads blanks (· = ()) before after := h ▸ Reads.blanks rfl
  exact hblanks.goesOn

theorem goesOn_bind_pure : GoesOn (p >>= fun a => Pure.pure a) p before before := by
  intro here hhere
  refine ⟨here, hhere, rfl, ?_⟩
  rw [found_bind]
  cases (p here).found <;> rfl

end Scan

open Scan

/-! ## Comparisons and their values -/

/-- A name by itself is a path. -/
def FieldPath.ofName (name : String) : FieldPath := ⟨name.toList, []⟩

@[simp] theorem FieldPath.written_ofName (name : String) : (ofName name).written = name := by
  simp [ofName, written]

theorem FieldPath.valid_ofName {name : String} (hname : Grammar.IsIdentifier name.toList)
    (hnot : name.toList.map Char.toLower ≠ ['n', 'o', 't']) : (ofName name).Valid :=
  ⟨hname, hnot, by simp [ofName]⟩

/-- A path that is written as a name begins with that name. -/
theorem FieldPath.first_of_written {path : FieldPath} {name : String}
    (hname : Grammar.IsIdentifier name.toList) (hwritten : path.written = name) :
    path.first = name.toList := by
  have hsplit : name.toList = path.first ++ path.steps.flatMap PathStep.written := by
    rw [← hwritten, written, String.toList_ofList]
  cases hsteps : path.steps with
  | nil => simpa [hsteps] using hsplit.symm
  | cons s steps =>
    -- a step begins with a bracket or with a point, which no name holds
    rw [hsteps, List.flatMap_cons] at hsplit
    exfalso
    cases s with
    | dotted inner =>
      have hmem : '.' ∈ name.toList := by simp [hsplit, PathStep.written]
      exact absurd (hname.isWord '.' hmem) (by decide)
    | bracketed inner =>
      have hmem : '[' ∈ name.toList := by simp [hsplit, PathStep.written]
      exact absurd (hname.isWord '[' hmem) (by decide)

namespace Grammar

variable {path : FieldPath} {op : Operator} {depth depth' : Nat} {cs : List Char}

/-- The text of a comparison. -/
def comparisonText (path : FieldPath) (op : Operator) (cs : List Char) : List Char :=
  path.written.toList ++ ' ' :: (op.token.toList ++ ' ' :: cs)

/-- What is found of a value makes a comparison. -/
def clauseOf (path : FieldPath) (op : Operator) (v : Value) : Scan Phrase :=
  Pure.pure (.clause path op (some v))

theorem afterBlanks_token_append (op : Operator) (cs : List Char) :
    afterBlanks (' ' :: (op.token.toList ++ cs)) = op.token.toList ++ cs := by
  cases op <;> rfl

theorem clause_goesOn (hpath : path.Valid) (hop : op.requiresValue = true) :
    GoesOn (clause depth) (value depth >>= clauseOf path op) (comparisonText path op cs)
      (afterBlanks cs) := by
  have hname : EndsName (' ' :: cs) := endsName_cons (by decide)
  refine GoesOn.named ((reads_field hpath.readable endsPath_space).goesOn.trans ?_)
  refine (spaced_goesOn (afterBlanks_token_append op (' ' :: cs))).trans ?_
  -- the operators without a value are tried first, and none of them is this one
  refine (fails_operator (by simp [hop]) hname).bind.goesOn.trans ?_
  refine (reads_operator hop hname).goesOn.trans ?_
  exact (spaced_goesOn (afterBlanks_space cs)).bind

/-- Behind an operator that takes no value a comparison ends. -/
theorem reads_clause_alone (hpath : path.Valid) (hop : op.requiresValue = false) :
    Reads (clause depth) (· = .clause path op none) (comparisonText path op cs) (' ' :: cs) := by
  have hname : EndsName (' ' :: cs) := endsName_cons (by decide)
  have hoperator : Reads (operator fun op => !op.requiresValue) (· = op)
      (op.token.toList ++ ' ' :: cs) (' ' :: cs) := reads_operator (by simp [hop]) hname
  refine Reads.named ((reads_field hpath.readable endsPath_space).bind_eq ?_)
  refine Reads.spaced_to (afterBlanks_token_append op (' ' :: cs)) (Reads.orElse_left ?_)
  exact hoperator.bind_eq (Reads.pure rfl)

/-- A comparison begins with the first letter of its path. -/
theorem head?_comparisonText (hname : IsIdentifier path.first) (op : Operator) (cs : List Char) :
    ∃ c, (comparisonText path op cs).head? = some c ∧ Text.isWordStart c = true := by
  obtain ⟨c, name, hfirst, hc, -⟩ := hname
  refine ⟨c, ?_, hc⟩
  rw [comparisonText, FieldPath.written, String.toList_ofList, hfirst]
  rfl

theorem isBlank_head_comparisonText (hname : IsIdentifier path.first) :
    ∀ c ∈ (comparisonText path op cs).head?, isBlank c = false := by
  obtain ⟨d, hhead, hd⟩ := head?_comparisonText hname op cs
  intro c hc
  rw [hhead] at hc
  cases hc
  exact isBlank_of_isWordStart hd

/-- **A comparison is found where it is a member of a conjunction**: neither a negation nor a
parenthesis stands in front of it. -/
theorem member_goesOn_clause (depth : Nat) (hpath : path.Valid) :
    GoesOn (member (depth + 1)) (clause (depth + 1)) (comparisonText path op cs)
      (comparisonText path op cs) := by
  obtain ⟨c, hhead, hc⟩ := head?_comparisonText hpath.first op cs
  have hparenthesis : Fails (exactly '(') (comparisonText path op cs) := by
    refine fails_exactly fun d hd => ?_
    rw [hhead] at hd
    cases hd
    rintro rfl
    exact absurd hc (by decide)
  have hnot : Fails (keyword "not") (comparisonText path op cs) := by
    have hname : EndsName (path.steps.flatMap PathStep.written ++
        ' ' :: (op.token.toList ++ ' ' :: cs)) := endsName_steps path.steps endsPath_space
    rw [comparisonText, FieldPath.written, String.toList_ofList, List.append_assoc]
    exact fails_keyword (forall_mem_of_all (by decide)) hpath.first.isWord hpath.first_ne hname
  have hbody : GoesOn (spaced (memberBody depth)) (clause (depth + 1)) (comparisonText path op cs)
      (comparisonText path op cs) :=
    (spaced_goesOn (afterBlanks_of_head (isBlank_head_comparisonText hpath.first))).trans
      hparenthesis.bind.goesOn
  rw [member_succ]
  refine GoesOn.named ((Reads.manySpaced_nil (R := (· = [])) hnot rfl).goesOn.trans ?_)
  exact hbody.bind.trans goesOn_bind_pure

/-- A member that is a comparison is found where its value is. -/
theorem member_goesOn (depth : Nat) (hpath : path.Valid) (hop : op.requiresValue = true)
    (cs : List Char) :
    GoesOn (member (depth + 1)) (value (depth + 1) >>= clauseOf path op)
      (comparisonText path op cs) (afterBlanks cs) :=
  (member_goesOn_clause depth hpath).trans (clause_goesOn hpath hop)

/-! ## Values at other places -/

/-- **A value is found alike wherever the same text is ahead**, to whatever depths its brackets are
followed beyond the length of that text, provided that it leaves nothing open. -/
theorem value_elsewhere {here there : Cursor} {v : Value} (here' : Cursor)
    (hrest : here'.rest = here.rest) (hclosing : Closing 0 here.rest)
    (hdepth : here.rest.length < depth) (hdepth' : here.rest.length < depth')
    (h : (value depth here).found = some (v, there)) :
    ∃ v' there', (value depth' here').found = some (v', there') ∧ there'.rest = there.rest ∧
      ∀ source source' op o, v.operand source op = .ok o ↔ v'.operand source' op = .ok o := by
  -- both are mirrored by the same scanner in front of one parenthesis
  have hmirrors : Mirrors [')'] 0 depth 0 (value depth) (value (max depth depth')) Value.Alike 0 :=
    mirrors_value (Nat.le_max_left depth depth')
  have hmirrors' : Mirrors [')'] 0 depth' 0 (value depth') (value (max depth depth')) Value.Alike
      0 :=
    mirrors_value (Nat.le_max_right depth depth')
  let mirror : Cursor := ⟨0, here.rest ++ [')']⟩
  obtain ⟨-, hsome⟩ := hmirrors here mirror rfl hclosing hdepth
  obtain ⟨w, mid, hfound, hmid, -, -, -, halike⟩ := hsome v there h
  rw [← hrest] at hclosing hdepth'
  obtain ⟨hnone', hsome'⟩ := hmirrors' here' mirror (by rw [hrest]) hclosing hdepth'
  cases hfound' : (value depth' here').found with
  | none =>
    rw [hnone' hfound'] at hfound
    cases hfound
  | some y =>
    obtain ⟨v', there'⟩ := y
    obtain ⟨w', mid', hmirror, hmid', -, -, -, halike'⟩ := hsome' v' there' hfound'
    rw [hfound] at hmirror
    cases hmirror
    have hsame : there'.rest = there.rest := List.append_cancel_right (hmid'.symm.trans hmid)
    refine ⟨v', there', rfl, hsame, fun source source' op o => ?_⟩
    exact (halike.operand source source' op o).trans (halike'.operand source' source' op o).symm

/-- **The text ahead is a value**, up to its end, that means an operand in whatever text. -/
def OperandAhead (depth : Nat) (op : Operator) (x : Operand) (here : Cursor) : Prop :=
  ∃ v there, (value depth here).found = some (v, there) ∧ there.rest = [] ∧
    ∀ source, v.operand source op = .ok x

/-- Nothing is left open by a value up to the end, so it is found elsewhere too. -/
theorem operandAhead_of_found {here here' there : Cursor} {v : Value} {source : String}
    {x : Operand} (hrest : here.rest = cs) (hrest' : here'.rest = cs) (hdepth : cs.length < depth)
    (hdepth' : cs.length < depth') (h : (value depth here).found = some (v, there))
    (hend : there.rest = []) (hx : v.operand source op = .ok x) :
    OperandAhead depth' op x here' := by
  subst hrest
  have hclosing : Closing 0 here.rest := by
    obtain ⟨cs, hcs, -, hnests⟩ := takes_value depth here v there trivial h
    rw [hcs, hend, List.append_nil]
    exact hnests.closing
  obtain ⟨v', there', hfound', hrest', hsame⟩ :=
    value_elsewhere here' hrest' hclosing hdepth hdepth' h
  exact ⟨v', there', hfound', hrest'.trans hend, fun source' => (hsame source source' op x).1 hx⟩

end Grammar

/-! ## Filters with one member -/

theorem Scan.found_manySpaced_nil {α : Type} {p : Scan α} {here there : Cursor}
    (h : (manySpaced p here).found = some ([], there)) : there = here := by
  unfold manySpaced at h
  rw [found_orElse, Option.or_eq_some_iff] at h
  rcases h with h | ⟨-, h⟩
  · obtain ⟨a, mid, -, h⟩ := found_bind_eq_some.1 h
    obtain ⟨as, last, -, h⟩ := found_bind_eq_some.1 h
    cases h
  · cases h
    rfl

namespace Grammar

variable {member : Scan Phrase} {here there : Cursor} {p : Phrase} {source : String} {f : Filter}

/-- Where members are combined to a comparison there is only one, and nothing but white space is
taken behind it. -/
theorem found_member_of_combined (logic : Logic)
    (h : ((do
      let (first, rest) ← joinedBy logic.token member
      return Phrase.combined logic first rest) here).found = some (p, there))
    (hp : p.node source = .ok (.leaf f)) :
    ∃ q last, (member here).found = some (q, last) ∧ q.node source = .ok (.leaf f) ∧
      there.rest = afterBlanks last.rest := by
  obtain ⟨⟨first, rest⟩, stop, hjoined, h⟩ := found_bind_eq_some.1 h
  cases h
  unfold joinedBy at hjoined
  obtain ⟨_, last, hmember, hjoined⟩ := found_bind_eq_some.1 hjoined
  obtain ⟨_, mid, hblanks, hjoined⟩ := found_bind_eq_some.1 hjoined
  obtain ⟨_, _, hothers, hjoined⟩ := found_bind_eq_some.1 hjoined
  cases hjoined
  rw [Phrase.node_combined] at hp
  obtain ⟨n, hn, hp⟩ := bind_eq_ok.1 hp
  obtain ⟨nodes, hnodes, hp⟩ := bind_eq_ok.1 hp
  cases rest with
  | nil =>
    cases hnodes
    obtain rfl := found_manySpaced_nil hothers
    cases hp
    exact ⟨first, last, hmember, hn, found_blanks hblanks⟩
  | cons second others =>
    -- several members are combined to a group
    rw [Phrase.nodes] at hnodes
    obtain ⟨m, -, hnodes⟩ := bind_eq_ok.1 hnodes
    obtain ⟨ms, -, hnodes⟩ := bind_eq_ok.1 hnodes
    cases hnodes
    cases hp

/-- **A filter that stands for a comparison has one member.** -/
theorem found_member_of_disjunction (h : (disjunction member here).found = some (p, there))
    (hp : p.node source = .ok (.leaf f)) :
    ∃ q last, (member here).found = some (q, last) ∧ q.node source = .ok (.leaf f) ∧
      there.rest = afterBlanks last.rest := by
  rw [disjunction_eq, found_named] at h
  obtain ⟨q, mid, hconjunction, hq, hrest⟩ := found_member_of_combined .or h hp
  unfold conjunction at hconjunction
  rw [found_named] at hconjunction
  obtain ⟨q', last, hmember, hq', hmid⟩ := found_member_of_combined .and hconjunction hq
  rw [hmid, afterBlanks_afterBlanks] at hrest
  exact ⟨q', last, hmember, hq', hrest⟩

end Grammar

/-! ## Values by themselves -/

theorem Scan.AllBlank.eq_nil {cs rest : List Char} (hrest : AllBlank rest)
    (htight : Tight (cs ++ rest)) : rest = [] := by
  cases hlast : rest.getLast? with
  | none => exact List.getLast?_eq_none_iff.1 hlast
  | some c =>
    -- the last character would be white space
    have hblank : isBlank c = true := hrest c (List.mem_of_getLast? hlast)
    have hend : (cs ++ rest).getLast? = some c := by
      rw [List.getLast?_append, hlast, Option.some_or]
    have hnot := htight.2 c hend
    rw [isBlank_of_scanBlank hblank] at hnot
    cases hnot

theorem Text.Tight.head {cs : List Char} (h : Tight cs) :
    ∀ c ∈ cs.head?, Scan.isBlank c = false := by
  intro c hc
  refine eq_false_of_ne_true fun hblank => ?_
  have hnot := h.1 c hc
  rw [isBlank_of_scanBlank hblank] at hnot
  cases hnot

/-- What stands in front of a text does not matter for how deep brackets nest, if it has none. -/
theorem Nests.shallow_append {limit depth : Nat} {a b : List Char} (h : Nests 0 a) :
    Shallow limit depth (a ++ b) ↔ Shallow limit depth b := by
  rw [h, Nat.add_zero]
  exact and_iff_right_of_imp And.left

/-- A text without white space at its ends is read as an operand if its brackets do not nest too
deep and all of it is a value with that meaning. -/
theorem Operand.ofText_eq_ok {op : Operator} {text : String} {x : Operand}
    (htight : Tight text.toList) :
    Operand.ofText op text = .ok x ↔ Shallow defaultDepth 0 text.toList ∧
      Grammar.OperandAhead (text.length + 1) op x (Cursor.start text.toList) := by
  have htrimmed : trimmed text = text := by
    rw [trimmed, Text.trim_of_tight htight, String.ofList_toList]
  have hend : ∀ v there, (Grammar.value (text.length + 1) (Cursor.start text.toList)).found =
      some (v, there) → (there.offset = text.utf8ByteSize ↔ there.rest = []) := by
    intro v there hfound
    obtain ⟨cs, -, hstop, -⟩ := Grammar.takes_value _ _ v there trivial hfound
    exact offset_eq_utf8ByteSize_iff hstop
  have hlength := length_toList_lt text
  unfold Operand.ofText
  simp only [htrimmed, bind_eq_ok, scannedWhole_eq_ok]
  constructor
  · rintro ⟨_, hdepth, v, ⟨there, hfound, hoffset⟩, hx⟩
    have hrest := (hend v there hfound).1 hoffset
    exact ⟨checkDepth_eq_ok.1 hdepth,
      Grammar.operandAhead_of_found rfl rfl hlength hlength hfound hrest hx⟩
  · rintro ⟨hdepth, v, there, hfound, hrest, hx⟩
    have hoffset := (hend v there hfound).2 hrest
    exact ⟨(), checkDepth_eq_ok.2 hdepth, v, ⟨there, hfound, hoffset⟩, hx text⟩

/-! ## Comparisons and their values by themselves -/

/-- A comparison stands for a leaf with the meaning of its value. -/
theorem Phrase.node_clause_eq_ok {name : String} {op : Operator} {v : Value} {source : String}
    {x : Operand} : (Phrase.clause (.ofName name) op (some v)).node source =
      .ok (.leaf (.on name op x)) ↔ v.operand source op = .ok x := by
  simp [Phrase.node, FieldPath.filter, map_eq_ok, Filter.on]

namespace Node

variable {op : Operator} {name text : String} {x : Operand}

/-- The text of a comparison of a field with a value. -/
def comparison (name : String) (op : Operator) (text : String) : String :=
  name ++ " " ++ op.token ++ " " ++ text

theorem toList_comparison_written (path : FieldPath) (op : Operator) (text : String) :
    (comparison path.written op text).toList = Grammar.comparisonText path op text.toList := by
  simp [comparison, Grammar.comparisonText]

theorem toList_comparison (name : String) (op : Operator) (text : String) :
    (comparison name op text).toList =
      Grammar.comparisonText (FieldPath.ofName name) op text.toList := by
  rw [← toList_comparison_written, FieldPath.written_ofName]

theorem length_lt_comparison (name : String) (op : Operator) (text : String) :
    text.toList.length < (comparison name op text).length + 1 := by
  rw [← String.length_toList, toList_comparison, Grammar.comparisonText]
  simp only [List.length_append, List.length_cons]
  omega

/-- Nothing in front of the value has brackets. -/
theorem exists_prefix_comparison (hname : Grammar.IsIdentifier name.toList) (op : Operator)
    (text : String) :
    ∃ before, Nests 0 before ∧ (comparison name op text).toList = before ++ text.toList := by
  refine ⟨name.toList ++ ' ' :: (op.token.toList ++ [' ']), nests_flat fun c hc => ?_, ?_⟩
  · simp only [List.mem_append, List.mem_cons, List.not_mem_nil, or_false] at hc
    rcases hc with hc | rfl | hc | rfl
    · exact isFlat_of_isWord (hname.isWord c hc)
    · decide
    · exact isFlat_of_isWord (Grammar.isName_token op c hc)
    · decide
  · simp [toList_comparison, Grammar.comparisonText]

/-- A comparison begins with a name. -/
theorem noBlank_comparison (hname : Grammar.IsIdentifier name.toList) (op : Operator)
    (text : String) : NoBlank (Cursor.start (comparison name op text).toList) := by
  have hpath : Grammar.IsIdentifier (FieldPath.ofName name).first := hname
  intro c hc
  rw [Cursor.start, toList_comparison] at hc
  exact Grammar.isBlank_head_comparisonText hpath c hc

theorem not_allBlank_comparison (hname : Grammar.IsIdentifier name.toList) (op : Operator)
    (text : String) : ¬AllBlank (comparison name op text).toList := by
  intro hall
  have hnoBlank := noBlank_comparison hname op text
  cases hhead : (comparison name op text).toList with
  | nil => simp [toList_comparison, Grammar.comparisonText] at hhead
  | cons c cs =>
    have hblank : isBlank c = true := hall c (hhead ▸ List.mem_cons_self)
    have hnot : isBlank c = false := hnoBlank c (by rw [Cursor.start, hhead]; rfl)
    rw [hblank] at hnot
    cases hnot

/-- The field of a comparison that is read is not the word for a negation. -/
theorem ne_not_of_ofText {limit : Nat} {source : String}
    (hname : Grammar.IsIdentifier name.toList) (hblank : ¬AllBlank source.toList)
    (h : ofText limit source = .ok (.leaf (.on name op x))) :
    name.toList.map Char.toLower ≠ ['n', 'o', 't'] := by
  obtain ⟨n, p, -, -, -, hvalid, hnode, -⟩ := exists_phrase h hblank
  have hlegible : Filter.Legible n (.on name op x) := Phrase.legible_node hvalid hnode
  obtain ⟨path, hpath, hfield⟩ := hlegible.field
  have hwritten : path.written = name := (Option.some.inj hfield).symm
  rw [← FieldPath.first_of_written hname hwritten]
  exact hpath.first_ne

/-- The whole text of a comparison that is read is one member, whose value reaches to the end. -/
theorem operandAhead_of_ofText {limit : Nat} (hop : op.requiresValue = true)
    (hname : Grammar.IsIdentifier name.toList) (htight : Tight text.toList)
    (hnot : name.toList.map Char.toLower ≠ ['n', 'o', 't'])
    (h : ofText limit (comparison name op text) = .ok (.leaf (.on name op x))) :
    Grammar.OperandAhead (text.length + 1) op x (Cursor.start text.toList) := by
  obtain ⟨n, p, there, -, -, -, hnode, hfound, hrest⟩ :=
    exists_phrase h (not_allBlank_comparison hname op text)
  rw [found_spaced (noBlank_comparison hname op text)] at hfound
  obtain ⟨q, last, hmember, hq, hlast⟩ := Grammar.found_member_of_disjunction hfound hnode
  -- the member is found where its value is
  obtain ⟨next, hnext, -, hgoesOn⟩ := Grammar.member_goesOn (comparison name op text).length
    (FieldPath.valid_ofName hname hnot) hop _
    (Cursor.start (comparison name op text).toList) (toList_comparison name op text)
  rw [afterBlanks_of_head htight.head] at hnext
  rw [hgoesOn] at hmember
  obtain ⟨v, _, hvalue, hclause⟩ := found_bind_eq_some.1 hmember
  cases hclause
  have hx : v.operand (comparison name op text) op = .ok x := Phrase.node_clause_eq_ok.1 hq
  -- only white space is left behind the value, and there is none at the end of the text
  have hend : last.rest = [] := by
    have hblanks : afterBlanks there.rest = [] := afterBlanks_eq_nil_iff.2 hrest
    rw [hlast, afterBlanks_afterBlanks, afterBlanks_eq_nil_iff] at hblanks
    obtain ⟨cs, hcs, -⟩ := Grammar.takes_value _ next v last trivial hvalue
    rw [hnext] at hcs
    exact hblanks.eq_nil (hcs ▸ htight)
  exact Grammar.operandAhead_of_found hnext rfl (length_lt_comparison name op text)
    (length_toList_lt text) hvalue hend hx

/-- Behind a field and an operator, a value up to the end of the text is read as a comparison. -/
theorem reads_comparison (hop : op.requiresValue = true)
    (hname : Grammar.IsIdentifier name.toList) (htight : Tight text.toList)
    (hnot : name.toList.map Char.toLower ≠ ['n', 'o', 't'])
    (h : Grammar.OperandAhead (text.length + 1) op x (Cursor.start text.toList)) :
    Reads (Grammar.member ((comparison name op text).length + 1))
      (·.Means (.leaf (.on name op x))) (comparison name op text).toList [] := by
  intro here hhere
  rw [toList_comparison] at hhere
  obtain ⟨next, hnext, hstop, hgoesOn⟩ := Grammar.member_goesOn (comparison name op text).length
    (FieldPath.valid_ofName hname hnot) hop _ here hhere
  rw [afterBlanks_of_head htight.head] at hnext
  obtain ⟨v, there, hfound, hrest, hx⟩ := h
  obtain ⟨v', there', hfound', hrest', hx'⟩ := Grammar.operandAhead_of_found rfl hnext
    (length_toList_lt text) (length_lt_comparison name op text) hfound hrest (hx text)
  obtain ⟨-, -, hstop', -⟩ := Grammar.takes_value _ next v' there' trivial hfound'
  refine ⟨.clause (FieldPath.ofName name) op (some v'), there', ?_, hrest', hstop'.trans hstop, ?_⟩
  · rw [hgoesOn, found_bind, hfound']
    rfl
  · exact fun source => Phrase.node_clause_eq_ok.2 (hx' source)

/-- **A comparison is read exactly if its value is one up to the end** and keeps the limit, unless
its field is the word for a negation. -/
theorem ofText_eq_leaf {limit : Nat} (hop : op.requiresValue = true)
    (hname : Grammar.IsIdentifier name.toList) (htight : Tight text.toList) :
    ofText limit (comparison name op text) = .ok (.leaf (.on name op x)) ↔
      name.toList.map Char.toLower ≠ ['n', 'o', 't'] ∧ Shallow limit 0 text.toList ∧
        Grammar.OperandAhead (text.length + 1) op x (Cursor.start text.toList) := by
  obtain ⟨before, hbefore, hsplit⟩ := exists_prefix_comparison hname op text
  have hdepth : checkDepth limit (comparison name op text) = .ok () ↔
      Shallow limit 0 text.toList := by
    rw [checkDepth_eq_ok, hsplit, hbefore.shallow_append]
  constructor
  · intro h
    have hnot := ne_not_of_ofText hname (not_allBlank_comparison hname op text) h
    exact ⟨hnot, hdepth.1 (checkDepth_of_ofText h),
      operandAhead_of_ofText hop hname htight hnot h⟩
  · rintro ⟨hnot, hshallow, hahead⟩
    have hmember := reads_comparison hop hname htight hnot hahead
    exact ofText_of_reads (hdepth.2 hshallow) (noBlank_comparison hname op text)
      (Grammar.reads_disjunction_of_member Phrase.Means.combined_nil hmember)

/-- **A comparison is read exactly if its value is read by itself**, as the same operand, unless its
field is the word for a negation in whatever case of its letters.

The two readings begin at different offsets and follow brackets to different depths. Behind the one
a filter may go on, as in `x and B eq 1`, and behind the other nothing may be left over. -/
theorem ofText_comparison_iff (hop : op.requiresValue = true)
    (hname : Grammar.IsIdentifier name.toList) (htight : Tight text.toList) :
    ofText defaultDepth (name ++ " " ++ op.token ++ " " ++ text) = .ok (.leaf (.on name op x)) ↔
      name.toList.map Char.toLower ≠ ['n', 'o', 't'] ∧ Operand.ofText op text = .ok x := by
  change ofText defaultDepth (comparison name op text) = _ ↔ _
  rw [ofText_eq_leaf hop hname htight, Operand.ofText_eq_ok htight]

/-- A negated set of a range and of alternatives with a quoted keyword is read behind its operator
and by itself. -/
theorem ofText_comparison_iff_sets : ∃ x,
    Operand.ofText .neq "!\x7b[2024-01-01 to *],(a|\"b) or C eq\"*)\x7d" = .ok x ∧
      ofText defaultDepth "Team_2 neq !\x7b[2024-01-01 to *],(a|\"b) or C eq\"*)\x7d" =
        .ok (.leaf (.on "Team_2" .neq x)) := by
  have hname : Grammar.IsIdentifier "Team_2".toList :=
    ⟨'T', ['e', 'a', 'm', '_', '2'], rfl, by decide, forall_mem_of_all (by decide)⟩
  have htight : Tight "!\x7b[2024-01-01 to *],(a|\"b) or C eq\"*)\x7d".toList := by
    decide +kernel
  have hnot : "Team_2".toList.map Char.toLower ≠ ['n', 'o', 't'] := by decide +kernel
  have hjoined : "Team_2" ++ " " ++ Operator.neq.token ++ " " ++
      "!\x7b[2024-01-01 to *],(a|\"b) or C eq\"*)\x7d" =
        "Team_2 neq !\x7b[2024-01-01 to *],(a|\"b) or C eq\"*)\x7d" := by decide +kernel
  have hreads : (Operand.ofText .neq
      "!\x7b[2024-01-01 to *],(a|\"b) or C eq\"*)\x7d").toOption.isSome = true := by
    decide +kernel
  obtain ⟨x, hx⟩ := Option.isSome_iff_exists.1 hreads
  rw [toOption_eq_some] at hx
  have hread := (ofText_comparison_iff rfl hname htight).2 ⟨hnot, hx⟩
  rw [hjoined] at hread
  exact ⟨x, hx, hread⟩

/-- Not every name may be the field of a comparison: `Not` is read as the word for a negation, so
that the value behind it is read by itself only. -/
theorem exists_unread_comparison : ¬∀ (op : Operator) (name text : String) (x : Operand),
    op.requiresValue = true → Grammar.IsIdentifier name.toList → name ≠ "not" →
      Tight text.toList → (Operand.ofText op text = .ok x ↔
        ofText defaultDepth (name ++ " " ++ op.token ++ " " ++ text) =
          .ok (.leaf (.on name op x))) := by
  intro hall
  have hname : Grammar.IsIdentifier "Not".toList :=
    ⟨'N', ['o', 't'], rfl, by decide, forall_mem_of_all (by decide)⟩
  have htight : Tight "x".toList := by decide +kernel
  have hvalue : (Operand.ofText .eq "x").toOption.isSome = true := by decide +kernel
  obtain ⟨x, hx⟩ := Option.isSome_iff_exists.1 hvalue
  have hread := (hall .eq "Not" "x" x rfl hname (by decide) htight).1 (toOption_eq_some.1 hx)
  have hrefused : (ofText defaultDepth ("Not" ++ " " ++ Operator.eq.token ++ " " ++ "x")).isOk =
      false := by decide +kernel
  rw [hread] at hrefused
  cases hrefused

end Node

end Sift
