import Sift.Proofs.TypeSoundness

/-!
# Comparisons along paths

* `Record.reached_eq_single`: a path without lists reaches a single value of a record that conforms.
* `Schema.anyValue_eq_test`: **along such a path filters and sorts read the same value**, which is
  null where an object is missing on the way.
* `Test.PassesAt`: whether a value at the end of a path passes; lists there are looked into.
* `Predicate.anyValue_iff_reached`: the search that stops at an answer and the flat list of what is
  reached.
* `Schema.accepts_iff_reached`: **a compiled comparison accepts a record exactly when some value
  that its path reaches passes; its complement accepts it exactly when none does**, whatever the
  record holds.
-/

namespace Sift

namespace Record

variable {n : Nat} {s : Schema n}

/-- **A path without lists** reaches a single value of a record that conforms to its types. -/
theorem reached_eq_single {type : Fin n} {names : List String} {segments : List (PathSegment n)}
    {r : Record} (h : s.resolveFrom type names = .ok segments) (hnames : names ≠ [])
    (hsingle : hasProjection segments = false) (hr : r.Conforms s type) :
    r.reached names = [r.singleValue names] := by
  fun_induction Schema.resolveFrom s type names generalizing segments r with
  | case1 => exact absurd rfl hnames
  | case2 => cases h
  | case3 => rfl
  | case4 => cases h
  | case5 type name t ht next rest inner hinner ih =>
    obtain ⟨tail, htail, rfl⟩ := map_eq_ok.1 h
    rw [hasProjection, List.any_cons, Bool.or_eq_false_iff] at hsingle
    have hinnermost : t.innermost = t := FieldType.innermost_of_not_isList hsingle.1
    have hobject : t = .object inner := by
      rw [← hinnermost, FieldType.innermost_of_object? hinner]
    have hconforms := hr name t ht
    rw [hobject] at hconforms
    rw [reached, singleValue]
    -- the member is an object or null, and no list of them
    generalize r.get name = v at hconforms
    cases hconforms with
    | null => rfl
    | object hmembers =>
      rw [FieldValue.elements, List.flatMap_singleton]
      · exact ih htail (List.cons_ne_nil _ _) hsingle.2 hmembers
      · intro items h
        cases h

/-- Behind a value that is null nothing but null is on a path. -/
theorem singleValue_append_of_null {before : List String} {r : Record} (hbefore : before ≠ [])
    (h : r.singleValue before = .null) (rest : List String) :
    r.singleValue (before ++ rest) = .null := by
  induction before generalizing r with
  | nil => exact absurd rfl hbefore
  | cons name before ih =>
    cases before with
    | nil =>
      cases rest with
      | nil => exact h
      | cons next rest => rw [List.singleton_append, singleValue, show r.get name = .null from h]
    | cons next tail =>
      rw [singleValue] at h
      rw [List.cons_append, List.cons_append, singleValue]
      generalize r.get name = v at h ⊢
      cases v with
      | object members => exact ih (List.cons_ne_nil next tail) h
      | _ => rfl

end Record

namespace Schema

variable {n : Nat} {s : Schema n}

/-- A path has at least one name. -/
theorem pathNames_ne_nil {path : String} {names : List String} (h : pathNames path = .ok names) :
    names ≠ [] := by
  have hnames : fieldNames path = .ok names := mapError_eq_ok.1 h
  obtain ⟨p, -, rfl⟩ := map_eq_ok.1 hnames
  exact List.cons_ne_nil _ _

/-- **Filters and sorts read the same value.** Along a path without lists the search of a filter
has, for every test, the answer of the test on the single value that a sort reads there, in every
record that conforms to the types. Where an object is missing on the way, both read a null. -/
theorem anyValue_eq_test {path : String} {segments : List (PathSegment n)} {r : Record}
    (h : s.resolve path = .ok segments) (hsingle : hasProjection segments = false)
    (hr : r.Conforms s s.root) :
    (∀ test, r.anyValue test (segments.map (·.name)) =
      test (r.singleValue (segments.map (·.name)))) ∧
    ∀ before next rest, segments.map (·.name) = before ++ next :: rest → before ≠ [] →
      r.singleValue before = .null →
      ∀ test, r.anyValue test (segments.map (·.name)) = test .null := by
  obtain ⟨names, hnames, hresolve⟩ := bind_eq_ok.1 h
  have hne : names ≠ [] := pathNames_ne_nil hnames
  rw [names_resolveFrom hresolve]
  have hread (test : FieldValue → Bool) :
      r.anyValue test names = test (r.singleValue names) := by
    rw [Record.anyValue_eq_any, Record.reached_eq_single hresolve hne hsingle hr, List.any_cons,
      List.any_nil, Bool.or_false]
  refine ⟨hread, ?_⟩
  rintro before next rest hsplit hbefore hnull test
  rw [hread test, hsplit, Record.singleValue_append_of_null hbefore hnull]

/-- The name of the henchman's henchman, once where there is one and once where there is no henchman
at all. -/
theorem anyValue_eq_test_henchmen :
    ∃ (s : Schema 1) (segments : List (PathSegment 1)) (served alone : Record),
      s.resolve "Henchman[\"Henchman\"].Name" = .ok segments ∧ hasProjection segments = false ∧
        served.Conforms s s.root ∧ alone.Conforms s s.root ∧
        (∀ test, served.anyValue test ["Henchman", "Henchman", "Name"] =
          test (.scalar (.string "Jarvis"))) ∧
        ∀ test, alone.anyValue test ["Henchman", "Henchman", "Name"] = test .null := by
  let s : Schema 1 :=
    ⟨fun _ => ⟨"Hero", [("Name", .scalar .string), ("Henchman", .object 0)]⟩, 0⟩
  let hero (name : String) (henchman : FieldValue) : Record :=
    [("Name", .scalar (.string name)), ("Henchman", henchman)]
  let served : Record :=
    hero "Bruce" (.object (hero "Alfred" (.object (hero "Jarvis" .null))))
  have hhero (name : String) (henchman : FieldValue) (h : henchman.Conforms s (.object 0)) :
      (hero name henchman).Conforms s 0 := by
    refine Record.conforms_of_members (List.forall_mem_cons.2 ⟨.scalar (.inl rfl), ?_⟩)
    exact List.forall_mem_singleton.2 h
  have halone (name : String) : (hero name .null).Conforms s 0 := hhero name .null (.null _)
  have hserved : served.Conforms s 0 :=
    hhero "Bruce" _ (.object (hhero "Alfred" _ (.object (halone "Jarvis"))))
  have hresolve : (s.resolve "Henchman[\"Henchman\"].Name").toOption =
      some [⟨"Henchman", .object 0⟩, ⟨"Henchman", .object 0⟩, ⟨"Name", .scalar .string⟩] := by
    decide +kernel
  rw [toOption_eq_some] at hresolve
  have hmissing := (anyValue_eq_test hresolve rfl (halone "Clark")).2 ["Henchman"] "Henchman"
    ["Name"] rfl (List.cons_ne_nil _ _) rfl
  exact ⟨s, _, served, hero "Clark" .null, hresolve, rfl, hserved, halone "Clark",
    (anyValue_eq_test hresolve rfl hserved).1, hmissing⟩

end Schema

/-- **Whether a value at the end of a path passes.** Where the last member is a list, what is asked
of its values is asked of every element, in lists of any depth; only the checks for null and for an
empty value are about the list itself. -/
def Test.PassesAt {n : Nat} (ignoreCase : Bool) (op : Operator) (type : FieldType n) (test : Test)
    (v : FieldValue) : Prop :=
  if type.isList = true ∧ op ≠ .isNull ∧ op ≠ .isEmpty then
    ∃ e ∈ v.elements, test.holds ignoreCase e = true
  else test.holds ignoreCase v = true

/-- Every operator but the checks for null and for an empty value looks into lists. -/
theorem Operator.looksInside_iff {op : Operator} :
    op.looksInside = true ↔ op ≠ .isNull ∧ op ≠ .isEmpty := by
  cases op <;> simp [looksInside]

/-- The negation that is taken away is the one of the operator. -/
theorem Operator.positive_snd (op : Operator) : op.positive.2 = op.isNegation := by
  cases op <;> rfl

namespace Predicate

variable {n : Nat} {ignoreCase : Bool} {op : Operator} {type : FieldType n} {test : Test}

theorem leafTest_iff_passesAt {v : FieldValue} :
    leafTest ignoreCase (type.isList && op.looksInside) test v = true ↔
      test.PassesAt ignoreCase op type v := by
  have hlifted : (type.isList && op.looksInside) = true ↔
      type.isList = true ∧ op ≠ .isNull ∧ op ≠ .isEmpty := by
    rw [Bool.and_eq_true, Operator.looksInside_iff]
  rw [Test.PassesAt, leafTest]
  by_cases hinside : (type.isList && op.looksInside) = true
  · rw [if_pos hinside, if_pos (hlifted.1 hinside), FieldValue.anyElement_eq_any, List.any_eq_true]
  · rw [if_neg hinside, if_neg (mt hlifted.2 hinside)]

/-- **The search along a path**, which goes on only until it knows the answer, finds what is among
the values that the path reaches. -/
theorem anyValue_iff_reached {names : List String} {r : Record} :
    r.anyValue (leafTest ignoreCase (type.isList && op.looksInside) test) names = true ↔
      ∃ v ∈ r.reached names, test.PassesAt ignoreCase op type v := by
  rw [Record.anyValue_eq_any, List.any_eq_true]
  exact exists_congr fun v => and_congr_right fun _ => leafTest_iff_passesAt

end Predicate

namespace Schema

variable {n : Nat} {s : Schema n}

/-- **Paths ask for some value among those they reach.** A comparison that compiles and has a field
has one test, that of its positive operator. Of any record, whatever its members hold, a positive
operator accepts it exactly when some value that the path reaches passes, and a negated operator
exactly when none does. Without a field there is nothing to ask. -/
theorem accepts_iff_reached {f : Filter} {p : Predicate} (h : s.compile (.leaf f) = .ok p) :
    (f.path? = none ∧ ∀ ignoreCase r, p.accepts ignoreCase r = true) ∨
      ∃ path names segments leaf test, f.path? = some path ∧ pathNames path = .ok names ∧
        s.resolveFrom s.root names = .ok segments ∧ segments.getLast? = some leaf ∧
        operatorTest s path leaf.type f.operator.positive.1 f.operand = .ok test ∧
        ∀ ignoreCase (r : Record),
          (f.operator.isNegation = false → (p.accepts ignoreCase r = true ↔
            ∃ v ∈ r.reached names,
              test.PassesAt ignoreCase f.operator.positive.1 leaf.type v)) ∧
          (f.operator.isNegation = true → (p.accepts ignoreCase r = true ↔
            ∀ v ∈ r.reached names,
              ¬ test.PassesAt ignoreCase f.operator.positive.1 leaf.type v)) := by
  rw [compile] at h
  rcases compileFilter_eq_ok h with
    ⟨hnone, rfl⟩ | ⟨path, segments, leaf, test, hpath, hsegments, hleaf, htest, rfl⟩
  · exact .inl ⟨hnone, fun _ _ => rfl⟩
  obtain ⟨names, hnames, hresolve⟩ := bind_eq_ok.1 hsegments
  refine .inr ⟨path, names, segments, leaf, test, hpath, hnames, hresolve, hleaf, htest, ?_⟩
  intro ignoreCase r
  rw [names_resolveFrom hresolve, Predicate.accepts, bne_iff_ne,
    ← Operator.positive_snd f.operator]
  refine ⟨fun hop => ?_, fun hop => ?_⟩
  · rw [hop, Bool.ne_false_iff]
    exact Predicate.anyValue_iff_reached
  · rw [hop, Ne, Predicate.anyValue_iff_reached]
    simp only [not_exists, not_and]

/-- The powers of the heroes of several teams, next to a null, to a number that is no hero and to an
object without powers. The words for the powers are in lists of lists. -/
theorem accepts_iff_reached_teams :
    ∃ (s : Schema 2) (f : Filter) (p : Predicate) (r : Record) (leaf : PathSegment 2)
      (test : Test),
      s.compile (.leaf f) = .ok p ∧ leaf.type = .list (.scalar .string) ∧
        (r.reached ["Teams", "Powers"]).length = 4 ∧
        p.accepts true r = false ∧ p.accepts false r = true ∧
        ∀ ignoreCase (r : Record), p.accepts ignoreCase r = true ↔
          ∀ v ∈ r.reached ["Teams", "Powers"], ¬ test.PassesAt ignoreCase .contains leaf.type v := by
  let team : Shape 2 := ⟨"Team", [("Teams", .list (.list (.object 1)))]⟩
  let hero : Shape 2 := ⟨"Hero", [("Powers", .list (.scalar .string))]⟩
  let s : Schema 2 := ⟨fun i => if i = 0 then team else hero, 0⟩
  let powers : FieldValue :=
    .list [.null, .list [.scalar (.string "Stealth"), .list [.scalar (.string "Flight")]]]
  let r : Record := [("Teams", .list [.list [.object [("Powers", powers)], .null], .list [],
    .scalar (.integer 7), .object []])]
  let f : Filter := .on "Teams.Powers" .notContains (.string "flight")
  have hanswers : (s.compile (.leaf f)).toOption.map
      (fun p => (p.accepts true r, p.accepts false r)) = some (false, true) := by decide +kernel
  have hpath : (Schema.pathNames "Teams.Powers").toOption = some ["Teams", "Powers"] := by
    decide +kernel
  obtain ⟨p, hp, hanswers⟩ := Option.map_eq_some_iff.1 hanswers
  have hcompile := toOption_eq_some.1 hp
  obtain ⟨hfold, hcase⟩ := Prod.mk.inj hanswers
  rcases accepts_iff_reached hcompile with
    ⟨hnone, -⟩ | ⟨path, names, segments, leaf, test, hfield, hnames, hresolve, hleaf, -, haccepts⟩
  · cases hnone
  cases hfield
  cases (toOption_eq_some.1 hpath).symm.trans hnames
  have hteams : s.resolveFrom s.root ["Teams", "Powers"] =
      .ok [⟨"Teams", .list (.list (.object 1))⟩, ⟨"Powers", .list (.scalar .string)⟩] := rfl
  cases hteams.symm.trans hresolve
  cases hleaf
  exact ⟨s, f, p, r, _, test, hcompile, rfl, rfl, hfold, hcase,
    fun ignoreCase r => (haccepts ignoreCase r).2 rfl⟩

end Schema

end Sift
