import Sift.Filter.Json
import Sift.Proofs.JsonText
import Sift.Proofs.Refusals
import Sift.Proofs.TreeText

/-!
# Stored filters read back

* `Operand.Storable`, `Node.Storable`: the operands and trees whose stored form is no refused text.
* `Filter.ofJson_json`, `Node.ofJson?_json`: the stored form of a tree is read as what the tree is
  reread as, if the tree is storable, and refused elsewhere.
* `Node.depth_json`: groups nest twice as deep in the stored form.
* `Node.ofStored?_stored`: what the stored text of a tree is read as.
-/

namespace Sift

/-! ## Operands -/

/-- Behind the operators that look for no text, a text is read alike. -/
theorem Operand.ofText_eq {op : Operator} (h : op.isText = false) (s : String) :
    Operand.ofText op s = Operand.ofText .eq s := by
  -- a value looks at its operator only for whether it looks for text
  have hoperand : ∀ (source : String) (v : Value), v.operand source op = v.operand source .eq := by
    intro source v
    unfold Value.operand
    rw [h]
    rfl
  unfold Operand.ofText
  simp only [hoperand]

/-- What a stored text is read as behind an operator. -/
def Operand.ofStored (op : Operator) (text : String) : Except Refusal Operand :=
  match Operand.ofText op text with
  | .ok operand => .ok operand
  | .error (.malformed _ _ _) => .ok (.string text)
  | .error e => .error (.ofError e)

/-- **The operands whose stored form is read** behind an operator. Nothing can be looked for in an
empty text, and no text is stored that is read as a search for nothing. -/
def Operand.Storable (op : Operator) : Operand → Prop
  | .expression (.literal l) => op.isText = true → l ≠ .text ""
  | .scalar (.string s) => Operand.ofText .eq s ≠ .error .emptyText
  | _ => True

theorem plainText_eq_empty {l : Literal} : String.ofList l.plainText = "" ↔ l = .text "" := by
  rcases l.eq_text_or with ⟨s, rfl⟩ | hl
  · rw [Literal.plainText, String.ofList_toList]
    simp
  · have hne := written_ne_nil hl
    rw [plainText_of_ne_text hl]
    simp [hne, hl]

/-- A literal is reread unless it is an empty text to look for. -/
theorem Literal.reread_cases (op : Operator) (l : Literal) :
    ((Operand.expression (.literal l)).Storable op ∧ ∃ o, l.reread op = .ok o) ∨
      (¬(Operand.expression (.literal l)).Storable op ∧ l.reread op = .error .emptyText) := by
  unfold Literal.reread Operand.Storable
  by_cases hop : op.isText = true
  · simp only [hop, if_true, forall_const, ne_eq, ← plainText_eq_empty, Fragment.of]
    by_cases hempty : String.ofList l.plainText = ""
    · rw [dif_pos hempty]
      exact Or.inr ⟨not_not_intro hempty, rfl⟩
    · rw [dif_neg hempty]
      exact Or.inl ⟨hempty, _, rfl⟩
  · rw [if_neg hop]
    exact Or.inl ⟨fun h => absurd h hop, _, rfl⟩

/-- An expression is reread where it is storable, and refused as an empty text elsewhere. -/
theorem Operand.reread_cases (op : Operator) (e : Expression) :
    ((Operand.expression e).Storable op ∧ ∃ o, (Operand.expression e).reread op = .ok o) ∨
      (¬(Operand.expression e).Storable op ∧
        (Operand.expression e).reread op = .error .emptyText) := by
  cases e with
  | literal l => exact Literal.reread_cases op l
  | _ => exact Or.inl ⟨trivial, _, rfl⟩

theorem Operand.Storable.reread {op : Operator} {o : Operand} (h : o.Legible op)
    (hs : o.Storable op) : ∃ o', o.reread op = .ok o' := by
  rcases h.cases with ⟨rfl, -⟩ | ⟨s, rfl, -⟩ | ⟨e, rfl, -⟩
  · exact ⟨_, rfl⟩
  · exact ⟨_, rfl⟩
  · exact (Operand.reread_cases op e).elim (·.2) fun hnot => absurd hs hnot.1

theorem readsDifferently_cases (s : String) :
    (readsDifferently s = true ∧ ∃ o, Operand.ofText .eq s = .ok o) ∨
      (readsDifferently s = false ∧
        (Operand.ofText .eq s = .ok (.string s) ∨ ∃ e, Operand.ofText .eq s = .error e)) := by
  unfold readsDifferently
  generalize Operand.ofText .eq s = result
  split
  · next read =>
    by_cases hread : read = s
    · exact Or.inr ⟨by simp [hread], Or.inl (hread ▸ rfl)⟩
    · exact Or.inl ⟨by simp [hread], _, rfl⟩
  · next o _ => exact Or.inl ⟨rfl, o, rfl⟩
  · next e => exact Or.inr ⟨rfl, Or.inr ⟨e, rfl⟩⟩

namespace Operand

variable {op : Operator} {o o' : Operand} {text : String}

theorem ofStored_of_ok (h : ofText op text = .ok o) : ofStored op text = .ok o := by
  unfold ofStored
  rw [h]

theorem ofStored_of_emptyText (h : ofText op text = .error .emptyText) :
    ofStored op text = .error (.ofError .emptyText) := by
  unfold ofStored
  rw [h]
  rfl

/-- The stored form of an expression is its text. -/
theorem ofStored_expression {e : Expression} (h : e.Legible) (hnesting : e.nesting ≤ defaultDepth) :
    ofStored op (String.ofList e.text) = .ok o' ↔
      (expression e).Storable op ∧ (expression e).reread op = .ok o' := by
  have hread := ofText_text h hnesting op
  rcases reread_cases op e with ⟨hs, o, ho⟩ | ⟨hs, he⟩
  · rw [ofStored_of_ok (hread.trans ho), ho]
    simp [hs]
  · rw [ofStored_of_emptyText (hread.trans he), he]
    simp

/-- A text that is read as something else is stored in quotes, and read as itself. -/
theorem ofText_quoted (hop : op.isText = false) (s : String) :
    ofText op (String.ofList (wordText s.toList)) = .ok (.string s) := by
  have hread := ofText_text (e := .constant s) trivial (Nat.zero_le _) op
  have hreread : (expression (.constant s)).reread op = .ok (.string s) := by
    simp only [Expression.constant, reread, Literal.reread, hop, Bool.false_eq_true, if_false,
      Literal.plainText, String.ofList_toList]
  exact hread.trans hreread

/-- The stored form of a text is read as the text, unless it is read as a search for nothing. -/
theorem ofStored_string (hop : op.isText = false) (s : String) :
    ofStored op (if readsDifferently s then String.ofList (wordText s.toList) else s) = .ok o' ↔
      (string s).Storable op ∧ (string s).reread op = .ok o' := by
  have hreread : (string s).reread op = .ok (string s) := rfl
  rw [hreread]
  -- in quotes; without them and read as itself; without them and not read as a value
  rcases readsDifferently_cases s with ⟨hdiffers, o, ho⟩ | ⟨hdiffers, hsame | ⟨e, he⟩⟩
  · have hstorable : (string s).Storable op := by simp [Storable, string, ho]
    rw [if_pos hdiffers, ofStored_of_ok (ofText_quoted hop s)]
    simp [hstorable]
  · have hstorable : (string s).Storable op := by simp [Storable, string, hsame]
    rw [hdiffers, if_neg (by simp), ofStored_of_ok ((ofText_eq hop s).trans hsame)]
    simp [hstorable]
  · rw [hdiffers, if_neg (by simp)]
    rcases (refusal_of_ofText he).emptyText_or_malformed with rfl | ⟨source, span, fault, rfl⟩
    -- a malformed text is kept as it is, an empty text to look for is refused
    · have hstorable : ¬(string s).Storable op := not_not_intro he
      rw [ofStored_of_emptyText ((ofText_eq hop s).trans he)]
      simp [hstorable]
    · have hstorable : (string s).Storable op := by
        simp [Storable, string, he, SyntaxError.emptyText]
      unfold ofStored
      rw [ofText_eq hop s, he]
      simp [hstorable]

end Operand

/-! ## Comparisons -/

namespace FilterParts

theorem add_field {parts : FilterParts} (h : parts.field = none) (field : Option String) :
    parts.add "field" (Json.ofOption field) = .ok { parts with field := some field } := by
  have hfield : (Json.ofOption field).optionalString? = some field := by cases field <;> rfl
  unfold add
  rw [if_pos ⟨rfl, by rw [h]; rfl⟩, hfield]
  rfl

theorem add_operator {parts : FilterParts} (h : parts.operator = none) (op : Operator) :
    parts.add "operator" (.string op.token) = .ok { parts with operator := some op } := by
  have hop : Operator.ofJson? (.string op.token) = some op := by cases op <;> rfl
  unfold add
  rw [if_neg (by simp), if_pos ⟨rfl, by rw [h]; rfl⟩, hop]
  rfl

theorem add_value {parts : FilterParts} (h : parts.operand = none) {o : Operand} {j : Json}
    (hj : Operand.ofJson j = .ok o) :
    parts.add "value" j = .ok { parts with operand := some o } := by
  unfold add
  rw [if_neg (by simp), if_neg (by simp), if_pos ⟨rfl, by rw [h]; rfl⟩, hj]
  rfl

theorem filter_text (field : Option String) (op : Operator) (text : String) :
    filter ⟨some field, some op, some (.string text)⟩ =
      (fun operand => ⟨field, op, operand⟩) <$> Operand.ofStored op text := by
  simp only [filter, required, Option.getD_some, Operand.string, Operand.ofStored, bind,
    Except.bind]
  generalize Operand.ofText op text = result
  cases result with
  | ok o => rfl
  | error e => cases e <;> rfl

end FilterParts

/-- Comparisons whose stored form is read. -/
def Filter.Storable (f : Filter) : Prop := f.operand.Storable f.operator

namespace Filter

variable {f f' : Filter}

theorem json_of_null (field : Option String) (op : Operator) :
    (⟨field, op, .null⟩ : Filter).json =
      .object [("field", Json.ofOption field), ("operator", .string op.token)] := rfl

theorem json_of_text {text : String} (hnull : f.operand.isNull = false)
    (h : operandJson f.operand = .string text) :
    f.json = .object [("field", Json.ofOption f.field), ("operator", .string f.operator.token),
      ("value", .string text)] := by
  unfold json
  rw [hnull, h]
  rfl

theorem ofJson_null (field : Option String) (op : Operator) :
    Filter.ofJson (⟨field, op, .null⟩ : Filter).json = .ok ⟨field, op, .null⟩ := by
  rw [json_of_null, Filter.ofJson, FilterParts.ofMembers]
  simp only [List.foldlM_cons, List.foldlM_nil, FilterParts.add_field, FilterParts.add_operator,
    bind, Except.bind]
  rfl

/-- The parts of a stored comparison are read one by one. -/
theorem ofJson_parts (field : Option String) (op : Operator) {o : Operand} {j : Json}
    (hj : Operand.ofJson j = .ok o) :
    Filter.ofJson (.object [("field", Json.ofOption field), ("operator", .string op.token),
        ("value", j)]) = FilterParts.filter ⟨some field, some op, some o⟩ := by
  rw [Filter.ofJson, FilterParts.ofMembers]
  simp only [List.foldlM_cons, List.foldlM_nil, FilterParts.add_field, FilterParts.add_operator,
    FilterParts.add_value _ hj, bind, Except.bind]
  rfl

/-- A stored text is read behind the operator that it is stored with. -/
theorem ofJson_members (field : Option String) (op : Operator) (text : String) :
    Filter.ofJson (.object [("field", Json.ofOption field), ("operator", .string op.token),
        ("value", .string text)]) =
      (fun operand => ⟨field, op, operand⟩) <$> Operand.ofStored op text := by
  have hstring : Operand.ofJson (.string text) = .ok (.string text) := rfl
  rw [ofJson_parts field op hstring, FilterParts.filter_text]

theorem ofJson_text {text : String} (hnull : f.operand.isNull = false)
    (h : operandJson f.operand = .string text) :
    Filter.ofJson f.json =
      (fun operand => { f with operand }) <$> Operand.ofStored f.operator text := by
  rw [json_of_text hnull h, ofJson_members]

/-- **A stored comparison is read as what it is reread as**, if it is storable, and refused
elsewhere. -/
theorem ofJson_json (h : f.operand.Legible f.operator)
    (hnesting : f.operand.nesting ≤ defaultDepth) :
    Filter.ofJson f.json = .ok f' ↔ f.Storable ∧ f.reread = .ok f' := by
  obtain ⟨field, op, operand⟩ := f
  unfold Filter.Storable Filter.reread
  rcases h.cases with ⟨rfl, -⟩ | ⟨s, rfl, hop⟩ | ⟨e, rfl, he⟩
  · rw [ofJson_null]
    simp [Operand.Storable, Operand.reread]
  · rw [ofJson_text rfl rfl]
    simp [map_eq_ok, Operand.ofStored_string hop, and_assoc]
  · rw [ofJson_text rfl rfl]
    simp [map_eq_ok, Operand.ofStored_expression he hnesting, and_assoc]

theorem kept_ofOption (s : Option String) :
    (Json.ofOption s).Kept ∧ (Json.ofOption s).depth = 0 := by
  cases s <;> exact ⟨trivial, rfl⟩

/-- The stored form of a comparison holds no numbers, arrays and objects. -/
theorem kept_json (h : f.operand.Legible f.operator) : f.json.Kept ∧ f.json.depth = 1 := by
  obtain ⟨hkept, hdepth⟩ := kept_ofOption f.field
  -- the value is a text, or left out
  have htext : ∀ text, f.operand.isNull = false → operandJson f.operand = .string text →
      f.json.Kept ∧ f.json.depth = 1 := by
    intro text hnull htext
    rw [json_of_text hnull htext]
    simp [Json.Kept, Json.MembersKept, Json.depth, Json.membersDepth, hkept, hdepth]
  obtain ⟨field, op, operand⟩ := f
  rcases h.cases with ⟨rfl, -⟩ | ⟨s, rfl, -⟩ | ⟨e, rfl, -⟩
  · rw [json_of_null]
    simp [Json.Kept, Json.MembersKept, Json.depth, Json.membersDepth, hkept, hdepth]
  · exact htext _ rfl rfl
  · exact htext _ rfl rfl

end Filter

/-! ## Trees -/

namespace Node

mutual

/-- **The trees whose stored form is read**, however deep they are. -/
def Storable : Node → Prop
  | leaf f => f.Storable
  | group _ _ members => AllStorable members

/-- Several such trees. -/
def AllStorable : List Node → Prop
  | [] => True
  | node :: rest => node.Storable ∧ AllStorable rest

end

mutual

/-- How deep the groups of a tree nest. -/
def groupDepth : Node → Nat
  | leaf _ => 0
  | group _ _ members => groupDepths members + 1

/-- How deep the groups of several trees nest. -/
def groupDepths : List Node → Nat
  | [] => 0
  | node :: rest => max node.groupDepth (groupDepths rest)

end

variable {limit : Nat}

mutual

theorem kept_json : ∀ {node : Node}, node.Legible limit → node.json.Kept
  | leaf _, h => (Filter.kept_json h.operand).1
  | group _ _ _, h => ⟨trivial, kept_jsons h.2, trivial⟩

theorem kept_jsons : ∀ {nodes : List Node}, AllLegible limit nodes →
    Json.ItemsKept (jsons nodes)
  | [], _ => trivial
  | _ :: _, h => ⟨kept_json h.1, kept_jsons h.2⟩

end

mutual

/-- **Groups nest twice as deep in the stored form**, as arrays in objects. -/
theorem depth_json : ∀ {node : Node}, node.Legible limit →
    node.json.depth = 2 * node.groupDepth + 1
  | leaf _, h => (Filter.kept_json h.operand).2
  | group form logic members, h => by
    -- an empty group would be one level short
    have hne : members ≠ [] := by
      rintro rfl
      exact absurd h.1 (by simp)
    have hmembers := depth_jsons h.2 hne
    simp only [json, Json.depth, Json.membersDepth, groupDepth, hmembers]
    omega

theorem depth_jsons : ∀ {nodes : List Node}, AllLegible limit nodes → nodes ≠ [] →
    Json.itemsDepth (jsons nodes) = 2 * groupDepths nodes + 1
  | [], _, hne => absurd rfl hne
  | node :: rest, h, _ => by
    have hnode := depth_json h.1
    by_cases hrest : rest = []
    · subst hrest
      simp only [jsons, Json.itemsDepth, groupDepths, hnode]
      omega
    · have := depth_jsons h.2 hrest
      simp only [jsons, Json.itemsDepth, groupDepths, hnode, this]
      omega

end

/-! ## What stored trees are read as -/

/-- The first member tells a comparison from a group. -/
theorem groupOfJson?_field (field : Json) (members : List (String × Json)) :
    groupOfJson? (.object (("field", field) :: members)) = none := by
  rw [groupOfJson?, groupParts?, if_neg (by simp), if_neg (by simp)]
  rfl

theorem groupOfJson?_filter (f : Filter) : groupOfJson? f.json = none := by
  have hjson : ∃ members, f.json = .object (("field", Json.ofOption f.field) :: members) :=
    ⟨_, rfl⟩
  obtain ⟨members, hmembers⟩ := hjson
  rw [hmembers, groupOfJson?_field]

theorem ofJson?_leaf (f : Filter) :
    Node.ofJson? f.json = (Filter.ofJson f.json).toOption.map .leaf := by
  rw [Node.ofJson?, treeOfJson?, groupOfJson?_filter, Option.bind_none, Option.none_or]

theorem groupOfJson?_group (logic : Logic) (items : List Json) :
    groupOfJson? (.object [("logic", .string logic.token), ("filters", .array items)]) =
      (nodesOfJson? items).map (logic, ·) := by
  have hlogic : Logic.ofJson? (.string logic.token) = some logic := by cases logic <;> rfl
  rw [groupOfJson?, groupParts?, if_pos ⟨rfl, rfl⟩, hlogic]
  simp only [Option.bind_eq_bind, Option.bind_some]
  rw [groupParts?, if_neg (by simp), if_pos ⟨rfl, rfl⟩, membersOfJson?]
  cases nodesOfJson? items <;> rfl

theorem ofJson_group (logic : Json) (members : List (String × Json)) :
    Filter.ofJson (.object (("logic", logic) :: members)) = .error .shape := by
  rw [Filter.ofJson, FilterParts.ofMembers, List.foldlM_cons, FilterParts.add, if_neg (by simp),
    if_neg (by simp), if_neg (by simp)]
  rfl

theorem length_rereadAll {form : GroupForm} : ∀ {nodes nodes' : List Node},
    rereadAll form nodes = .ok nodes' → nodes'.length = nodes.length
  | [], _, h => by cases h; rfl
  | node :: rest, nodes', h => by
    rw [rereadAll] at h
    obtain ⟨n, -, h⟩ := bind_eq_ok.1 h
    obtain ⟨ns, hns, h⟩ := bind_eq_ok.1 h
    cases h
    rw [List.length_cons, List.length_cons, length_rereadAll hns]

/-- A stored group of at least two is read where its members are. -/
theorem ofJson?_group {logic : Logic} {items : List Json} {node' : Node} :
    Node.ofJson? (.object [("logic", .string logic.token), ("filters", .array items)]) =
        some node' ↔
      ∃ nodes, nodesOfJson? items = some nodes ∧ 2 ≤ nodes.length ∧
        node' = .group .composite logic nodes := by
  rw [Node.ofJson?, treeOfJson?, groupOfJson?_group, ofJson_group]
  cases nodesOfJson? items with
  | none => simp [Except.toOption]
  | some nodes =>
    simp only [Option.map_some, Option.bind_some, composite]
    by_cases hlength : nodes.length < 2
    · have hfew : ¬2 ≤ nodes.length := Nat.not_le.2 hlength
      rw [if_pos hlength]
      simp [hfew, Except.toOption]
    · have hmany : 2 ≤ nodes.length := Nat.not_lt.1 hlength
      rw [if_neg hlength]
      simp [hmany, Except.toOption, eq_comm]

mutual

/-- **A stored tree is read as what it is reread as**, if it is storable, and refused elsewhere. -/
theorem ofJson?_json : ∀ {node node' : Node}, node.Legible defaultDepth →
    (Node.ofJson? node.json = some node' ↔
      node.Storable ∧ node.reread .composite = .ok node')
  | leaf f, node', h => by
    rw [json, ofJson?_leaf, Storable, reread, map_eq_ok]
    simp [toOption_eq_some, Filter.ofJson_json h.operand h.nesting, and_assoc]
  | group form logic members, node', h => by
    rw [json, ofJson?_group, Storable, reread, map_eq_ok]
    constructor
    · rintro ⟨nodes, hnodes, -, rfl⟩
      obtain ⟨hs, hreread⟩ := (nodesOfJson?_jsons h.2).1 hnodes
      exact ⟨hs, nodes, hreread, rfl⟩
    · rintro ⟨hs, nodes, hreread, rfl⟩
      -- as many members as before, so at least the two that a group needs
      refine ⟨nodes, (nodesOfJson?_jsons h.2).2 ⟨hs, hreread⟩, ?_, rfl⟩
      rw [length_rereadAll hreread]
      exact h.1

theorem nodesOfJson?_jsons : ∀ {nodes nodes' : List Node}, AllLegible defaultDepth nodes →
    (nodesOfJson? (jsons nodes) = some nodes' ↔
      AllStorable nodes ∧ rereadAll .composite nodes = .ok nodes')
  | [], nodes', _ => by
    rw [jsons, nodesOfJson?, rereadAll]
    simp [AllStorable, pure, Except.pure]
  | node :: rest, nodes', h => by
    rw [jsons, nodesOfJson?, rereadAll, AllStorable]
    constructor
    · intro hread
      obtain ⟨n, hn, hread⟩ := Option.bind_eq_some_iff.1 hread
      obtain ⟨ns, hns, hread⟩ := Option.bind_eq_some_iff.1 hread
      obtain ⟨hs, hreread⟩ := (ofJson?_json h.1).1 hn
      obtain ⟨hss, hrereads⟩ := (nodesOfJson?_jsons h.2).1 hns
      cases hread
      exact ⟨⟨hs, hss⟩, bind_eq_ok.2 ⟨n, hreread, bind_eq_ok.2 ⟨ns, hrereads, rfl⟩⟩⟩
    · rintro ⟨⟨hs, hss⟩, hread⟩
      obtain ⟨n, hreread, hread⟩ := bind_eq_ok.1 hread
      obtain ⟨ns, hrereads, hread⟩ := bind_eq_ok.1 hread
      cases hread
      exact Option.bind_eq_some_iff.2 ⟨n, (ofJson?_json h.1).2 ⟨hs, hreread⟩,
        Option.bind_eq_some_iff.2 ⟨ns, (nodesOfJson?_jsons h.2).2 ⟨hss, hrereads⟩, rfl⟩⟩

end

mutual

/-- A storable tree can be reread. -/
theorem Storable.reread (form : GroupForm) : ∀ {node : Node}, node.Legible limit →
    node.Storable → ∃ node', node.reread form = .ok node'
  | leaf f, h, hs => by
    obtain ⟨o, ho⟩ := Operand.Storable.reread h.operand hs
    exact ⟨_, map_eq_ok.2 ⟨_, map_eq_ok.2 ⟨o, ho, rfl⟩, rfl⟩⟩
  | group _ _ members, h, hs => by
    obtain ⟨nodes, hnodes⟩ := AllStorable.rereadAll form h.2 hs
    exact ⟨_, map_eq_ok.2 ⟨nodes, hnodes, rfl⟩⟩

theorem AllStorable.rereadAll (form : GroupForm) : ∀ {nodes : List Node},
    AllLegible limit nodes → AllStorable nodes → ∃ nodes', rereadAll form nodes = .ok nodes'
  | [], _, _ => ⟨[], rfl⟩
  | _ :: _, h, hs => by
    obtain ⟨n, hn⟩ := Storable.reread form h.1 hs.1
    obtain ⟨ns, hns⟩ := AllStorable.rereadAll form h.2 hs.2
    exact ⟨n :: ns, bind_eq_ok.2 ⟨n, hn, bind_eq_ok.2 ⟨ns, hns, rfl⟩⟩⟩

end

/-! ## Stored texts -/

/-- The text that a tree is stored as. -/
def stored (node : Node) : String := String.ofList node.json.text

/-- The tree that is read back from a stored text. -/
def ofStored? (text : String) : Option Node := (Json.read? text).bind Node.ofJson?

/-- The depth to which stored groups may nest, each taking an object and an array. -/
def storedDepth : Nat := 63

/-- **What the stored text of a tree is read as.** -/
theorem ofStored?_stored {node node' : Node} (h : node.Legible defaultDepth) :
    ofStored? node.stored = some node' ↔
      node.groupDepth ≤ storedDepth ∧ node.Storable ∧ node.reread .composite = .ok node' := by
  have hdepth := depth_json h
  have hlimit : JsonGrammar.maxDepth = 2 * storedDepth + 1 := rfl
  unfold ofStored? stored
  by_cases hle : node.groupDepth ≤ storedDepth
  · rw [Json.read?_text (kept_json h) (by omega), Option.bind_some, ofJson?_json h]
    simp [hle]
  · rw [Json.read?_eq_none (kept_json h) (by omega)]
    simp [hle]

end Node

end Sift
