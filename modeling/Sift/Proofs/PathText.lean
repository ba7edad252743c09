import Sift.Proofs.SortFields

/-!
# Writing paths

A path is written with its first name as it is, and with each of the others after a point or between
brackets and quotes, where a backslash keeps the quotes and backslashes in it.

* `WritesName`, `WritesNames`: the ways to write a name behind others, and several names.
* `exists_path_of_writesNames`: what is written so is the text of a path with these names.
* `fieldNames_writesNames`: **however names are written as a path, they are read from it**, and what
  is read as a path begins with an identifier.
-/

namespace Sift

open Grammar (IsIdentifier)

/-- **The ways to write a name behind others**: after a point, if it is an identifier, or between
brackets and quotes. -/
inductive WritesName (name : String) : List Char → Prop
  | dotted (h : IsIdentifier name.toList) : WritesName name ('.' :: name.toList)
  | bracketed : WritesName name ('[' :: Text.Quoted.quote name.toList ++ [']'])

/-- **The ways to write several names as a path.** The first has to be an identifier. -/
def WritesNames (names : List String) (cs : List Char) : Prop :=
  ∃ first rest written, names = first :: rest ∧ IsIdentifier first.toList ∧
    List.Forall₂ WritesName rest written ∧ cs = first.toList ++ written.flatten

section Writing

variable {name : String} {names : List String} {cs : List Char}

/-- A name behind others is written as a step of a path. -/
theorem WritesName.exists_step (h : WritesName name cs) :
    ∃ s : PathStep, s.Valid ∧ s.written = cs ∧ String.ofList s.name = name := by
  cases h with
  | dotted h => exact ⟨.dotted name.toList, h, rfl, String.ofList_toList⟩
  | bracketed =>
    refine ⟨.bracketed (Text.Quoted.escape name.toList), quotedInner_escape _, ?_, ?_⟩
    · simp [PathStep.written, Text.Quoted.quote]
    · rw [PathStep.name, Text.Quoted.unescape_escape, String.ofList_toList]

/-- Names behind others are written as the steps of a path. -/
theorem exists_steps_of_writesName {written : List (List Char)}
    (h : List.Forall₂ WritesName names written) : ∃ steps : List PathStep,
      (∀ s ∈ steps, s.Valid) ∧ steps.flatMap PathStep.written = written.flatten ∧
        steps.map (fun s => String.ofList s.name) = names := by
  induction h with
  | nil => exact ⟨[], by simp, rfl, rfl⟩
  | cons hname _ ih =>
    obtain ⟨s, hs, hwritten, hname⟩ := hname.exists_step
    obtain ⟨steps, hsteps, hrest, hnames⟩ := ih
    refine ⟨s :: steps, List.forall_mem_cons.2 ⟨hs, hsteps⟩, ?_, ?_⟩
    · rw [List.flatMap_cons, List.flatten_cons, hwritten, hrest]
    · rw [List.map_cons, hname, hnames]

/-- **What is written as a path** is the text of a path with these names. -/
theorem exists_path_of_writesNames (h : WritesNames names cs) :
    ∃ path : FieldPath, path.Readable ∧ path.written.toList = cs ∧ path.names = names := by
  obtain ⟨first, rest, written, rfl, hfirst, hrest, rfl⟩ := h
  obtain ⟨steps, hsteps, hwritten, hnames⟩ := exists_steps_of_writesName hrest
  refine ⟨⟨first.toList, steps⟩, ⟨hfirst, hsteps⟩, ?_, ?_⟩
  · rw [FieldPath.written, String.toList_ofList, hwritten]
  · rw [FieldPath.names, hnames, String.ofList_toList]

/-- Between brackets and quotes every name can be written. -/
theorem exists_writesNames (first : String) (hfirst : IsIdentifier first.toList)
    (rest : List String) : ∃ cs, WritesNames (first :: rest) cs := by
  refine ⟨_, first, rest, rest.map fun name => '[' :: Text.Quoted.quote name.toList ++ [']'], rfl,
    hfirst, ?_, rfl⟩
  rw [List.forall₂_map_right_iff]
  exact List.forall₂_same.2 fun _ _ => .bracketed

end Writing

/-- **However names are written as a path, they are read from it**, and names are read from some
text exactly if there is a first one and it is an identifier. -/
theorem fieldNames_writesNames :
    (∀ names text, WritesNames names text.toList → fieldNames text = .ok names) ∧
    ∀ names, (∃ text, fieldNames text = .ok names) ↔
      ∃ first rest, names = first :: rest ∧ IsIdentifier first.toList := by
  have hread (names : List String) (text : String) (h : WritesNames names text.toList) :
      fieldNames text = .ok names := by
    obtain ⟨path, hpath, hwritten, rfl⟩ := exists_path_of_writesNames h
    rw [← String.toList_inj.1 hwritten]
    exact hpath.fieldNames_written
  refine ⟨hread, fun names => ⟨?_, ?_⟩⟩
  · rintro ⟨text, h⟩
    obtain ⟨path, hpath, -, rfl⟩ := fieldNames_eq_ok.1 h
    refine ⟨String.ofList path.first, _, rfl, ?_⟩
    rw [String.toList_ofList]
    exact hpath.first
  · rintro ⟨first, rest, rfl, hfirst⟩
    obtain ⟨cs, hcs⟩ := exists_writesNames first hfirst rest
    exact ⟨String.ofList cs, hread _ _ (by rwa [String.toList_ofList])⟩

/-- Two identifiers, one of them between brackets and quotes, and a name of brackets, points,
quotes, backslashes and white space. -/
theorem fieldNames_writesNames_mixed :
    WritesNames ["_a", "b", "c1", " ].[\"\\ é"] "_a[\"b\"].c1[\" ].[\\\"\\\\ é\"]".toList ∧
      fieldNames "_a[\"b\"].c1[\" ].[\\\"\\\\ é\"]" = .ok ["_a", "b", "c1", " ].[\"\\ é"] := by
  have hwritten : WritesNames ["_a", "b", "c1", " ].[\"\\ é"]
      "_a[\"b\"].c1[\" ].[\\\"\\\\ é\"]".toList := by
    have hfirst : IsIdentifier "_a".toList :=
      ⟨'_', ['a'], rfl, rfl, List.forall_mem_singleton.2 rfl⟩
    have hc : IsIdentifier "c1".toList := ⟨'c', ['1'], rfl, rfl, List.forall_mem_singleton.2 rfl⟩
    refine ⟨_, _, ["[\"b\"]".toList, ".c1".toList, "[\" ].[\\\"\\\\ é\"]".toList], rfl, hfirst, ?_,
      by decide⟩
    exact .cons .bracketed (.cons (.dotted hc) (.cons .bracketed .nil))
  exact ⟨hwritten, fieldNames_writesNames.1 _ _ hwritten⟩

end Sift
