import Sift.Proofs.CaseNames
import Sift.Proofs.Composition
import Sift.Proofs.MemberTables
import Sift.Proofs.SingleComparison
import Sift.Proofs.WellFormed

/-!
# Members that filters can ask for

* `Addressable`: the names that a comparison of a filter text can have for its field.
* `addressable_iff_isIdentifier`: they are the identifiers, but for the word for a negation.
* `NameCase.Admits`: the names that filters can ask for in another case.
* `Declaration.addressable_iff`: **which members of a declaration filters can ask for**;
  `Declaration.exists_unaddressable`: not all of them.
-/

namespace Sift

open Grammar (IsIdentifier)

/-- **Whether filters can ask for a member of a name**: in some text that is read there is a
comparison whose field is a path of that name alone. -/
def Addressable (name : String) : Prop :=
  ∃ text node f path, Node.ofText defaultDepth text = .ok node ∧ f ∈ node.filters ∧
    f.field = some path ∧ fieldNames path = .ok [name]

section Names

variable {limit : Nat} {name text path : String} {node : Node} {f : Filter}

/-- A field of a single name, in whatever tree a text is read as, is a path that is read. -/
theorem FieldPath.valid_of_ofText (h : Node.ofText limit text = .ok node) (hf : f ∈ node.filters)
    (hfield : f.field = some path) (hnames : fieldNames path = .ok [name]) :
    (FieldPath.ofName name).Valid := by
  rcases Node.legible_ofText h with rfl | hlegible
  · -- the tree for a blank text has no field
    rw [Node.always, Node.filters, List.mem_singleton] at hf
    rw [hf] at hfield
    cases hfield
  · obtain ⟨p, hp, hwritten⟩ := (hlegible.filters f hf).field
    obtain rfl : path = p.written := Option.some.inj (hfield.symm.trans hwritten)
    have hread : Except.ok [name] = Except.ok p.names :=
      hnames.symm.trans hp.readable.fieldNames_written
    obtain ⟨hname, -⟩ := List.cons.inj (Except.ok.inj hread)
    have hfirst : name.toList = p.first := by rw [hname, String.toList_ofList]
    exact valid_ofName (hfirst ▸ hp.first) (hfirst ▸ hp.first_ne)

/-- **The names that filters can ask for** are the identifiers, except for the word for a negation
in any case of its letters. -/
theorem addressable_iff_isIdentifier : Addressable name ↔
    IsIdentifier name.toList ∧ name.toList.map Char.toLower ≠ ['n', 'o', 't'] := by
  constructor
  · rintro ⟨text, node, f, path, h, hf, hfield, hnames⟩
    have hvalid := FieldPath.valid_of_ofText h hf hfield hnames
    exact ⟨hvalid.first, hvalid.first_ne⟩
  · rintro ⟨hname, hnot⟩
    have htight : Text.Tight "x".toList := by decide +kernel
    have hvalue : (Operand.ofText .eq "x").toOption.isSome = true := by decide +kernel
    obtain ⟨x, hx⟩ := Option.isSome_iff_exists.1 hvalue
    have hoperand := (Operand.ofText_eq_ok htight).1 (toOption_eq_some.1 hx)
    have hread := (Node.ofText_eq_leaf rfl hname htight).2 ⟨hnot, hoperand⟩
    have hnames := (FieldPath.valid_ofName hname hnot).readable.fieldNames_written
    rw [FieldPath.written_ofName] at hnames
    refine ⟨_, _, .on name .eq x, name, hread, ?_, rfl, ?_⟩
    · rw [Node.filters, List.mem_singleton]
    · rw [hnames]
      simp [FieldPath.names, FieldPath.ofName]

end Names

/-- **When filters can ask for an ASCII name in another case**: its first character, marks between
words apart, is a letter, with dashes between words it is a single word, and it does not become the
word for a negation, as its letters alone would. -/
structure NameCase.Admits (c : NameCase) (name : List Char) : Prop where
  begins : BeginsName (name.filter (· ≠ '_'))
  single : c = kebab → (words name).length = 1
  marked : (name.filter (· ≠ '_')).map Char.toLower = ['n', 'o', 't'] →
    c.joint ≠ [] ∧ (words name).length ≠ 1

theorem NameCase.admits_iff (c : NameCase) {name : List Char} (h : IsName name) :
    IsIdentifier (c.apply name) ∧ (c.apply name).map Char.toLower ≠ ['n', 'o', 't'] ↔
      c.Admits name := by
  have hword := toLower_apply_eq_iff c h (k := ['n', 'o', 't']) (by decide) (by decide) (by decide)
  rw [isIdentifier_apply_iff c h, ne_eq, hword, not_and, not_or]
  exact ⟨fun ⟨⟨hbegins, hsingle⟩, hmarked⟩ => ⟨hbegins, hsingle, hmarked⟩,
    fun hadmits => ⟨⟨hadmits.begins, hadmits.single⟩, hadmits.marked⟩⟩

namespace Declaration

variable {d : Declaration} {t : MemberTable}

/-- **Which members filters can ask for**: those whose names are identifiers other than the word for
a negation. For a field that is not renamed and whose own name is an identifier that word alone is
left out, and if all names are put in another case, whatever this does not admit. -/
theorem addressable_iff (h : d.memberTable = .ok t) :
    (∀ m ∈ t.members, Addressable m.name ↔
      IsIdentifier m.name.toList ∧ m.name.toList.map Char.toLower ≠ ['n', 'o', 't']) ∧
    ∀ f ∈ d.exposed, d.entry f ∈ t.members ∧
      (f.rename? = none → IsIdentifier f.ownName →
        (Addressable (d.nameOf f) ↔
          match d.renameAll? with
          | none => f.ownName.map Char.toLower ≠ ['n', 'o', 't']
          | some c => c.Admits f.ownName)) := by
  obtain ⟨-, -, -, rfl⟩ := memberTable_eq_ok.1 h
  refine ⟨fun m _ => addressable_iff_isIdentifier, fun f hf => ⟨List.mem_map_of_mem hf, ?_⟩⟩
  intro hrename hown
  rw [addressable_iff_isIdentifier, nameOf, hrename]
  cases d.renameAll? with
  | none =>
    simp only [String.toList_ofList]
    exact and_iff_right hown
  | some c =>
    simp only [String.toList_ofList]
    exact NameCase.admits_iff c hown.isWord

/-- With dashes between words filters can ask for a name of one word, but not for one of two, and
not for one that is the word for a negation. -/
theorem addressable_iff_kebab : ∃ (d : Declaration) (t : MemberTable),
    d.memberTable = .ok t ∧ t.members.map (·.name) = ["name", "birth-date", "not"] ∧
      Addressable "name" ∧ ¬Addressable "birth-date" ∧ ¬Addressable "not" ∧
      NameCase.kebab.Admits "name".toList ∧ ¬NameCase.kebab.Admits "birth_date".toList := by
  let first : FieldDeclaration := ⟨"name", "String", []⟩
  let birth : FieldDeclaration := ⟨"birth_date", "String", []⟩
  let d : Declaration := {
    kind := .record
    name := "Hero"
    parameters := []
    constraints := []
    attributes := [⟨"filterable", [("rename_all", some "kebab-case")]⟩]
    fields := [first, birth, ⟨"not", "bool", []⟩] }
  have hresult : (d.memberTable.toOption.map fun t => t.members.map (·.name)) =
      some ["name", "birth-date", "not"] := by decide +kernel
  obtain ⟨t, ht, hnames⟩ := Option.map_eq_some_iff.1 hresult
  have htable : d.memberTable = .ok t := toOption_eq_some.1 ht
  have hmember : ∀ name ∈ ["name", "birth-date", "not"], Addressable name ↔
      IsIdentifier name.toList ∧ name.toList.map Char.toLower ≠ ['n', 'o', 't'] := by
    intro name hname
    obtain ⟨m, hm, rfl⟩ := List.mem_map.1 (hnames ▸ hname)
    exact (addressable_iff htable).1 m hm
  have hfield (f : FieldDeclaration) (hf : f ∈ d.exposed) (hrename : f.rename? = none)
      (hown : IsIdentifier f.ownName) :
      Addressable (d.nameOf f) ↔ NameCase.kebab.Admits f.ownName := by
    have hcase : d.renameAll? = some .kebab := by decide
    have h := ((addressable_iff htable).2 f hf).2 hrename hown
    rwa [hcase] at h
  have hfirstName : IsIdentifier "name".toList :=
    ⟨'n', ['a', 'm', 'e'], rfl, rfl, forall_mem_of_all (by decide)⟩
  have hbirthName : IsIdentifier "birth_date".toList :=
    ⟨'b', "irth_date".toList, by decide, rfl, forall_mem_of_all (by decide)⟩
  have hfirst : Addressable "name" := (hmember _ (by simp)).2 ⟨hfirstName, by decide⟩
  have hbirth : ¬Addressable "birth-date" := by
    intro h
    have hdash := ((hmember _ (by simp)).1 h).1.isWord '-' (by decide)
    revert hdash
    decide
  have hnot : ¬Addressable "not" := fun h => ((hmember _ (by simp)).1 h).2 (by decide)
  have hfirstOwn : first.ownName = "name".toList ∧ d.nameOf first = "name" := by decide +kernel
  have hbirthOwn : birth.ownName = "birth_date".toList ∧ d.nameOf birth = "birth-date" := by
    decide +kernel
  have hadmits := hfield first (by decide) rfl (hfirstOwn.1 ▸ hfirstName)
  have hrefuses := hfield birth (by decide) rfl (hbirthOwn.1 ▸ hbirthName)
  rw [hfirstOwn.1, hfirstOwn.2] at hadmits
  rw [hbirthOwn.1, hbirthOwn.2] at hrefuses
  exact ⟨d, t, htable, hnames, hfirst, hbirth, hnot, hadmits.1 hfirst, mt hrefuses.2 hbirth⟩

/-- Not every member of a declaration can be asked for: with dashes between words `birth_date`
becomes a name that no comparison of a filter text has for its field. -/
theorem exists_unaddressable : ¬∀ (d : Declaration) (t : MemberTable), d.memberTable = .ok t →
    ∀ m ∈ t.members, Addressable m.name := by
  intro hall
  let d : Declaration := {
    kind := .record
    name := "Hero"
    parameters := []
    constraints := []
    attributes := [⟨"filterable", [("rename_all", some "kebab-case")]⟩]
    fields := [⟨"birth_date", "String", []⟩] }
  have hresult : (d.memberTable.toOption.map fun t => t.members.map (·.name)) =
      some ["birth-date"] := by decide +kernel
  obtain ⟨t, ht, hnames⟩ := Option.map_eq_some_iff.1 hresult
  have hmem : "birth-date" ∈ t.members.map (·.name) := by rw [hnames, List.mem_singleton]
  obtain ⟨m, hm, hname⟩ := List.mem_map.1 hmem
  have haddressable := addressable_iff_isIdentifier.1 (hall d t (toOption_eq_some.1 ht) m hm)
  rw [hname] at haddressable
  have hdash := haddressable.1.isWord '-' (by decide)
  revert hdash
  decide

end Declaration

end Sift
