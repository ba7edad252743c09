import Sift.Proofs.FinalSigma
import Sift.Proofs.Meaning
import Sift.Proofs.TypeSoundness

/-!
# What is lost when case is ignored

* `Record.holding`: a record that holds a value at the end of a path and conforms to its types.
* `Operand.StandsFor`: the operands that a literal text is read as.
* `Operator.losesText`: the searches that lose matches when case is ignored.
* `Schema.accepts_ignoring_case`: **ignoring case loses no match of any other search for a text, nor
  of a comparison with it, and does lose one of each of these.**
-/

namespace Sift

/-! ## Records that hold a value -/

section Holding

variable {n : Nat} {s : Schema n}

/-- A value in the lists of a type. -/
def FieldType.wrapped : FieldType n → FieldValue → FieldValue
  | .list element, v => .list [element.wrapped v]
  | _, v => v

theorem FieldType.elements_wrapped (t : FieldType n) (v : FieldValue) :
    (t.wrapped v).elements = v.elements := by
  induction t with
  | list element ih =>
    rw [wrapped, FieldValue.elements, FieldValue.elementsOf, FieldValue.elementsOf, ih,
      List.append_nil]
  | _ => rfl

theorem FieldType.conforms_wrapped {t : FieldType n} {v : FieldValue}
    (h : v.Conforms s t.innermost) : (t.wrapped v).Conforms s t := by
  induction t with
  | list element ih =>
    refine .list fun w hw => ?_
    rw [List.mem_singleton.1 hw]
    exact ih h
  | _ => exact h

namespace Record

/-- **The record with a value at the end of a path**, in one element of each list on the way, and
nothing besides. -/
def holding : List (PathSegment n) → FieldValue → Record
  | [], _ => []
  | [leaf], v => [(leaf.name, leaf.type.wrapped v)]
  | segment :: next :: rest, v =>
    [(segment.name, segment.type.wrapped (.object (holding (next :: rest) v)))]

theorem conforms_holding {type : Fin n} {names : List String} {segments : List (PathSegment n)}
    {leaf : PathSegment n} {v : FieldValue} (h : s.resolveFrom type names = .ok segments)
    (hleaf : segments.getLast? = some leaf) (hv : v.Conforms s leaf.type.innermost) :
    (holding segments v).Conforms s type := by
  fun_induction Schema.resolveFrom s type names generalizing segments with
  | case1 =>
    cases h
    cases hleaf
  | case2 => cases h
  | case3 type name t ht =>
    cases h
    cases hleaf
    exact conforms_single ht (FieldType.conforms_wrapped hv)
  | case4 => cases h
  | case5 type name t ht next rest inner hinner ih =>
    obtain ⟨tail, htail, rfl⟩ := map_eq_ok.1 h
    cases tail with
    | nil => cases s.names_resolveFrom htail
    | cons second tail =>
      have hnext : (holding (second :: tail) v).Conforms s inner :=
        ih htail (by rwa [List.getLast?_cons_cons] at hleaf)
      have hobject : FieldValue.Conforms s t.innermost (.object (holding (second :: tail) v)) := by
        rw [FieldType.innermost_of_object? hinner]
        exact .object hnext
      exact conforms_single ht (FieldType.conforms_wrapped hobject)

/-- The path leads to the value alone. -/
theorem reached_holding {segments : List (PathSegment n)} {leaf : PathSegment n} {v : FieldValue}
    (hleaf : segments.getLast? = some leaf) :
    (holding segments v).reached (segments.map (·.name)) = [leaf.type.wrapped v] := by
  fun_induction holding segments v with
  | case1 => cases hleaf
  | case2 last v =>
    obtain rfl : last = leaf := Option.some.inj hleaf
    rw [List.map_cons, List.map_nil, reached, get_single]
  | case3 segment next rest v ih =>
    rw [List.getLast?_cons_cons] at hleaf
    have hobject : ∀ r : Record, (FieldValue.object r).elements = [.object r] := fun _ => rfl
    rw [List.map_cons, List.map_cons, reached, get_single, FieldType.elements_wrapped, hobject,
      List.flatMap_singleton, ← List.map_cons]
    exact ih hleaf

end Record

/-- A test that looks into lists where the path ends at one asks about the value that is held. -/
theorem Predicate.accepts_holding {segments : List (PathSegment n)} {leaf : PathSegment n}
    (hleaf : segments.getLast? = some leaf) (test : Test) (ignoreCase : Bool) (x : Scalar) :
    (Predicate.field (segments.map (·.name)) test leaf.type.isList false).accepts ignoreCase
        (.holding segments (.scalar x)) = test.holds ignoreCase (.scalar x) := by
  have hleafTest : leafTest ignoreCase leaf.type.isList test (leaf.type.wrapped (.scalar x)) =
      test.holds ignoreCase (.scalar x) := by
    cases htype : leaf.type with
    | list element =>
      have hlist : (FieldType.list element).isList = true := rfl
      have hscalar : (FieldValue.scalar x).elements = [.scalar x] := rfl
      rw [leafTest, if_pos hlist, FieldValue.anyElement_eq_any, FieldType.elements_wrapped, hscalar,
        List.any_cons, List.any_nil, Bool.or_false]
    | _ => rfl
  rw [accepts, Record.anyValue_eq_any, Record.reached_holding hleaf, List.any_cons, List.any_nil,
    hleafTest, Bool.or_false, Bool.bne_false]

/-- What accepts more values accepts more records. -/
theorem Predicate.accepts_field_mono {names : List String} {lifted : Bool} {test : Test}
    (h : ∀ v, test.holds false v = true → test.holds true v = true) {r : Record}
    (hr : (field names test lifted false).accepts false r = true) :
    (field names test lifted false).accepts true r = true := by
  have hleafTest : ∀ v, leafTest false lifted test v = true →
      leafTest true lifted test v = true := by
    intro v hv
    cases lifted with
    | false => exact h v hv
    | true =>
      simp only [leafTest, if_true, FieldValue.anyElement_eq_any, List.any_eq_true] at hv ⊢
      obtain ⟨e, he, hv⟩ := hv
      exact ⟨e, he, h e hv⟩
  rw [accepts, Bool.bne_false, Record.anyValue_eq_any, List.any_eq_true] at hr ⊢
  obtain ⟨v, hv, hr⟩ := hr
  exact ⟨v, hv, hleafTest v hr⟩

end Holding

/-! ## Tests of a literal text -/

/-- **The operands that a literal text is read as** behind an operator: the text, an expression of
it alone, or the search for it. -/
inductive Operand.StandsFor (op : Operator) (x : String) : Operand → Prop
  | text : StandsFor op x (.string x)
  | constant : StandsFor op x (.expression (.constant x))
  | search {f : Fragment} (hop : op.isText = true) (hf : f.text = x) :
      StandsFor op x (.expression (op.textExpression f))

/-- What an operator asks about a literal text: to be the same, or to hold it at a place. -/
def Operator.textTest (op : Operator) (x : String) : Test :=
  match op.placement? with
  | some place => .text place x
  | none => .equals (.string x)

/-- **The searches that lose matches** when case is ignored. -/
def Operator.losesText (op : Operator) (x : String) : Bool :=
  op.placement?.any (·.loses x.toList)

variable {field : String} {op : Operator} {x : String} {o : Operand} {test : Test}

theorem eq_of_textTest {place : Placement} {piece : List Char}
    (h : textTest field place piece = .ok test) : test = .text place (String.ofList piece) := by
  unfold textTest at h
  cases hf : Fragment.of (String.ofList piece) with
  | error e => rw [hf] at h; cases h
  | ok f =>
    rw [hf] at h
    cases h
    rw [Fragment.text_of_of hf]

theorem eq_of_placedTest {place : Placement} (hplace : op.placement? = some place)
    (ho : o.StandsFor op x) (h : placedTest field place o = .ok test) : test = .text place x := by
  have hpiece : textTest field place x.toList = .ok test := by
    cases ho with
    | text => exact h
    | constant => exact h
    | @search f _ hf =>
      subst hf
      unfold Operator.placement? at hplace
      split at hplace <;> cases hplace <;> exact h
  rw [eq_of_textTest hpiece, String.ofList_toList]

theorem eq_of_equalityTest (hplace : op.isText = false) (ho : o.StandsFor op x)
    (h : equalityTest field .string o = .ok test) : test = .equals (.string x) := by
  cases ho with
  | text => cases h; rfl
  | constant => cases h; rfl
  | search hop => rw [hplace] at hop; cases hop

/-- The operators that look at a text for a literal text. -/
def Operator.searches : List Operator := [.eq, .contains, .startsWith, .endsWith]

theorem eq_of_operatorTest {n : Nat} {s : Schema n} {type : FieldType n}
    (hkind : type.kind? = some .string) (hop : op ∈ Operator.searches) (ho : o.StandsFor op x)
    (h : operatorTest s field type op o = .ok test) : test = op.textTest x := by
  have hkind' : comparedKind s field type = .ok .string := by rw [comparedKind, hkind]
  simp only [Operator.searches, List.mem_cons, List.not_mem_nil, or_false] at hop
  rcases hop with rfl | rfl | rfl | rfl
  · have hnull : o.isNull = false := by cases ho <;> rfl
    simp only [operatorTest, hnull, hkind', Bool.false_eq_true, if_false] at h
    exact eq_of_equalityTest rfl ho h
  all_goals
    simp only [operatorTest, hkind, if_true] at h
    exact eq_of_placedTest rfl ho h

/-- Equal texts are equal without regard to case. -/
theorem Test.holds_equals_lower {v : FieldValue}
    (h : (Test.equals (.string x)).holds false v = true) :
    (Test.equals (.string x)).holds true v = true := by
  rw [holds, FieldValue.equals, beq_iff_eq] at h ⊢
  cases v with
  | scalar y =>
    cases y with
    | string y =>
      have heq : y = x := Std.LawfulEqCmp.eq_of_compare (Option.some.inj h)
      subst heq
      have hself : compare (Text.lowerString y) (Text.lowerString y) = .eq :=
        Std.ReflCmp.compare_self
      exact congrArg some hself
    | _ => cases h
  | _ => cases h

/-- **A test that loses nothing** passes without regard to case what it passes. -/
theorem Operator.holds_textTest_lower (hkeeps : op.losesText x = false) {v : FieldValue}
    (h : (op.textTest x).holds false v = true) : (op.textTest x).holds true v = true := by
  unfold losesText at hkeeps
  unfold textTest at h ⊢
  cases hplace : op.placement? with
  | none =>
    rw [hplace] at h
    exact Test.holds_equals_lower h
  | some place =>
    rw [hplace] at h hkeeps
    rw [Option.any_some] at hkeeps
    cases v with
    | scalar y =>
      cases y with
      | string y =>
        have hlower := Placement.holds_lower hkeeps h
        rw [Test.holds, folded, folded, if_pos rfl, if_pos rfl, Text.lowerString, Text.lowerString,
          String.toList_ofList, String.toList_ofList]
        exact hlower
      | _ => cases h
    | _ => cases h

/-- **A test that loses something** passes some text only with regard to case. -/
theorem Operator.exists_lost_textTest (hloses : op.losesText x = true) :
    ∃ y : String, (op.textTest x).holds false (.scalar (.string y)) = true ∧
      (op.textTest x).holds true (.scalar (.string y)) = false := by
  obtain ⟨place, hplace, hloses⟩ := (Option.any_eq_true _ _).1 hloses
  obtain ⟨whole, hfound, hmissed⟩ := Placement.exists_lost hloses
  refine ⟨String.ofList whole, ?_, ?_⟩
  · simp only [textTest, hplace, Test.holds, folded, Bool.false_eq_true, if_false,
      String.toList_ofList]
    exact hfound
  · simp only [textTest, hplace, Test.holds, folded, if_true, Text.lowerString,
      String.toList_ofList]
    exact hmissed

/-! ## Filters -/

namespace Schema

variable {n : Nat} (s : Schema n) {path : String} {segments : List (PathSegment n)}
  {leaf : PathSegment n} {p : Predicate}

/-- A path that is resolved is not empty, and so the path of a filter on it. -/
theorem path?_of_resolve (hpath : s.resolve path = .ok segments) (op : Operator) (o : Operand) :
    (Filter.on path op o).path? = some path := by
  have hne : path ≠ "" := by
    rintro rfl
    obtain ⟨names, hnames, -⟩ := bind_eq_ok.1 hpath
    have hempty : (Schema.pathNames "").isOk = false := by decide +kernel
    rw [hnames] at hempty
    cases hempty
  simp [Filter.path?, Filter.on, hne]

/-- **What is lost when case is ignored.** A comparison of texts with a literal text, or the search
for one at their start, at their end or anywhere, accepts without regard to case every record that
it accepts, unless the text is one that is lost at the place. Then some record of the root type is
accepted only with regard to case. -/
theorem accepts_ignoring_case (hpath : s.resolve path = .ok segments)
    (hleaf : segments.getLast? = some leaf) (hkind : leaf.type.kind? = some .string)
    (hop : op ∈ Operator.searches) (ho : o.StandsFor op x)
    (hp : s.compile (.leaf (.on path op o)) = .ok p) :
    (op.losesText x = false → ∀ r, p.accepts false r = true → p.accepts true r = true) ∧
      (op.losesText x = true → ∃ r : Record, r.Conforms s s.root ∧ p.accepts false r = true ∧
        p.accepts true r = false) := by
  have hpositive : op.positive = (op, false) ∧ op.looksInside = true := by
    revert hop
    cases op <;> decide
  rw [compile] at hp
  have hpredicate : p = .field (segments.map (·.name)) (op.textTest x) leaf.type.isList false := by
    have hfield := path?_of_resolve s hpath op o
    rcases compileFilter_eq_ok hp with
      ⟨hnone, -⟩ | ⟨_, _, _, test, hsome, hsegments, hlast, htest, rfl⟩
    · rw [hfield] at hnone
      cases hnone
    · rw [hfield] at hsome
      cases hsome
      rw [hpath] at hsegments
      cases hsegments
      rw [hleaf] at hlast
      cases hlast
      have hon : (Filter.on path op o).operator.positive = (op, false) := hpositive.1
      rw [hon] at htest ⊢
      rw [eq_of_operatorTest hkind hop ho htest, hpositive.2, Bool.and_true]
  subst hpredicate
  constructor
  · intro hkeeps r hr
    exact Predicate.accepts_field_mono (fun _ => Operator.holds_textTest_lower hkeeps) hr
  · intro hloses
    obtain ⟨y, hfound, hmissed⟩ := Operator.exists_lost_textTest hloses
    obtain ⟨names, -, hresolve⟩ := bind_eq_ok.1 hpath
    have hconforms : (Record.holding segments (.scalar (.string y))).Conforms s s.root := by
      refine Record.conforms_holding hresolve hleaf ?_
      rw [FieldType.innermost_of_kind? hkind]
      exact .scalar (Or.inl rfl)
    refine ⟨_, hconforms, ?_, ?_⟩
    · rw [Predicate.accepts_holding hleaf, hfound]
    · rw [Predicate.accepts_holding hleaf, hmissed]

/-- The names of friends that end with `ΑΣ` are found without regard to case, but not all of those
that hold `ΑΣ` are. -/
theorem accepts_ignoring_case_friends :
    ∃ (s : Schema 1) (f : Fragment) (p q : Predicate),
      s.compile (.leaf (.on "Friends.Name" .endsWith (.expression (.endsWith f)))) = .ok p ∧
        (∀ r, p.accepts false r = true → p.accepts true r = true) ∧
      s.compile (.leaf (.on "Friends.Name" .contains (.string "ΑΣ"))) = .ok q ∧
        ∃ r : Record, r.Conforms s s.root ∧ q.accepts false r = true ∧
          q.accepts true r = false := by
  let s : Schema 1 :=
    ⟨fun _ => ⟨"Hero", [("Name", .scalar .string), ("Friends", .list (.object 0))]⟩, 0⟩
  let f : Fragment := ⟨"ΑΣ", by decide⟩
  have hpath : s.resolve "Friends.Name" =
      .ok [⟨"Friends", .list (.object 0)⟩, ⟨"Name", .scalar .string⟩] :=
    toOption_eq_some.1 (by decide +kernel)
  have hend : (s.compile
      (.leaf (.on "Friends.Name" .endsWith (.expression (.endsWith f))))).isOk = true := by
    decide +kernel
  have hany : (s.compile
      (.leaf (.on "Friends.Name" .contains (.string "ΑΣ")))).isOk = true := by decide +kernel
  cases hp : s.compile (.leaf (.on "Friends.Name" .endsWith (.expression (.endsWith f)))) with
  | error e => rw [hp] at hend; cases hend
  | ok p =>
    cases hq : s.compile (.leaf (.on "Friends.Name" .contains (.string "ΑΣ"))) with
    | error e => rw [hq] at hany; cases hany
    | ok q =>
      have hsearch : Operand.StandsFor .endsWith "ΑΣ" (.expression (.endsWith f)) :=
        .search (f := f) rfl rfl
      have hkeeps := (accepts_ignoring_case s hpath rfl rfl (by decide) hsearch hp).1
        (by decide +kernel)
      have hloses := (accepts_ignoring_case s hpath rfl rfl (by decide) .text hq).2
        (by decide +kernel)
      exact ⟨s, f, p, q, hp, hkeeps, hq, hloses⟩

/-- **A match is lost.** The sigma at the end of `ΟΔΥΣ` is a final one by itself, but not at the
beginning of `ΟΔΥΣΣΕΑΣ`. -/
theorem exists_lost_match :
    ∃ (s : Schema 1) (p : Predicate) (r : Record), s.compileText "Name startswith ΟΔΥΣ" = .ok p ∧
      r.Conforms s s.root ∧ p.accepts false r = true ∧ p.accepts true r = false := by
  let s : Schema 1 := ⟨fun _ => ⟨"Hero", [("Name", .scalar .string)]⟩, 0⟩
  let r : Record := [("Name", .scalar (.string "ΟΔΥΣΣΕΑΣ"))]
  have hanswers : (s.compileText "Name startswith ΟΔΥΣ").toOption.map (fun p =>
      (p.accepts false r, p.accepts true r)) = some (true, false) := by decide +kernel
  obtain ⟨p, hp, hanswers⟩ := Option.map_eq_some_iff.1 hanswers
  simp only [Prod.mk.injEq] at hanswers
  have hconforms : r.Conforms s s.root := Record.conforms_single rfl (.scalar (Or.inl rfl))
  exact ⟨s, p, r, toOption_eq_some.1 hp, hconforms, hanswers.1, hanswers.2⟩

end Schema

end Sift
