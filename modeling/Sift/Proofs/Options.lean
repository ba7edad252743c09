import Sift.Derive.Table
import Sift.Proofs.Terms

/-!
# What the attributes of a declaration say

* `lastGiven`: what the last of several arguments gives.
* `IsTypeArgument`, `IsFieldArgument`: the arguments that are understood.
* `typeOptions_eq_ok`, `fieldOptions_eq_ok`: **options are read exactly if every argument is
  understood**, and of several arguments for one thing the last one counts.
-/

namespace Sift

/-! ## One argument after another -/

/-- What the last argument gives that gives anything. -/
def lastGiven {β : Type} (given : String × Option String → Option β)
    (arguments : List (String × Option String)) : Option β :=
  (arguments.filterMap given).getLast?

theorem lastGiven_cons {β : Type} (given : String × Option String → Option β)
    (argument : String × Option String) (arguments : List (String × Option String)) :
    lastGiven given (argument :: arguments) =
      (lastGiven given arguments).or (given argument) := by
  rw [lastGiven, lastGiven, List.filterMap_cons]
  cases given argument with
  | none => rw [Option.or_none]
  | some v =>
    rw [List.getLast?_cons]
    cases List.getLast? _ <;> rfl

/-- Steps that each succeed under a condition of their own succeed together under all of these. -/
theorem foldlM_eq_ok {σ α ε : Type} {step : σ → α → Except ε σ} {P : α → Prop} {next : σ → α → σ}
    (hstep : ∀ s a s', step s a = .ok s' ↔ P a ∧ s' = next s a) {as : List α} {s s' : σ} :
    as.foldlM step s = .ok s' ↔ (∀ a ∈ as, P a) ∧ s' = as.foldl next s := by
  induction as generalizing s with
  | nil => simp [pure, Except.pure, eq_comm]
  | cons a as ih =>
    rw [List.foldlM_cons, bind_eq_ok, List.forall_mem_cons, List.foldl_cons]
    constructor
    · rintro ⟨t, ha, hrest⟩
      obtain ⟨hP, rfl⟩ := (hstep s a t).1 ha
      obtain ⟨hall, rfl⟩ := ih.1 hrest
      exact ⟨⟨hP, hall⟩, rfl⟩
    · rintro ⟨⟨hP, hall⟩, rfl⟩
      exact ⟨next s a, (hstep s a _).2 ⟨hP, rfl⟩, ih.2 ⟨hall, rfl⟩⟩

/-! ## Types -/

/-- **The arguments that are understood at a type**: the name of a case for all members, and a path
to the traits. -/
inductive IsTypeArgument : String × Option String → Prop
  | renameAll (c : NameCase) : IsTypeArgument ("rename_all", some c.token)
  | root {path : String} (h : pathFault? (Lexeme.ofText path) = none) :
      IsTypeArgument ("crate", some path)

/-- The case that an argument gives to all members. -/
def caseGiven (argument : String × Option String) : Option NameCase :=
  if argument.1 = "rename_all" then argument.2.bind NameCase.ofToken? else none

/-- The path to the traits that an argument gives. -/
def rootGiven (argument : String × Option String) : Option String :=
  if argument.1 = "crate" then argument.2.map fun path => Lexeme.written (Lexeme.ofText path)
  else none

theorem NameCase.ofToken?_token (c : NameCase) : ofToken? c.token = some c := by
  cases c <;> decide

theorem NameCase.ofToken?_eq_some {s : String} {c : NameCase} (h : ofToken? s = some c) :
    s = c.token := by
  have hfound := List.find?_some (show NameCase.all.find? (fun c => c.token == s) = some c from h)
  exact (beq_iff_eq.1 hfound).symm

/-- What an argument changes about the options of a type. -/
def TypeOptions.next (o : TypeOptions) (argument : String × Option String) : TypeOptions :=
  ⟨(caseGiven argument).or o.renameAll, (rootGiven argument).getD o.root⟩

theorem TypeOptions.add_renameAll (o : TypeOptions) (name : String) :
    o.add ("rename_all", some name) =
      match NameCase.ofToken? name with
      | some c => .ok { o with renameAll := some c }
      | none => .error (.unknownCase name) :=
  rfl

theorem TypeOptions.add_root (o : TypeOptions) (path : String) :
    o.add ("crate", some path) =
      match pathFault? (Lexeme.ofText path) with
      | some fault => .error (.notPath fault)
      | none => .ok { o with root := Lexeme.written (Lexeme.ofText path) } :=
  rfl

/-- An argument is taken if it is understood, and then it changes the options. -/
theorem TypeOptions.add_eq_ok (o : TypeOptions) (argument : String × Option String)
    (o' : TypeOptions) :
    o.add argument = .ok o' ↔ IsTypeArgument argument ∧ o' = o.next argument := by
  constructor
  · intro h
    obtain ⟨key, value⟩ := argument
    have hkey : key = "rename_all" ∨ key = "crate" := by
      unfold add at h
      split at h
      · next hkey => exact .inl hkey
      · next hkey => exact .inr hkey
      · cases h
    cases value with
    | none => rcases hkey with rfl | rfl <;> cases h
    | some v =>
      rcases hkey with rfl | rfl
      · rw [add_renameAll] at h
        split at h
        · next c hcase =>
          cases h
          obtain rfl := NameCase.ofToken?_eq_some hcase
          have hgiven : caseGiven ("rename_all", some c.token) = some c := hcase
          rw [next, hgiven]
          exact ⟨.renameAll c, rfl⟩
        · cases h
      · rw [add_root] at h
        split at h
        · cases h
        · next hpath =>
          cases h
          exact ⟨.root hpath, rfl⟩
  · rintro ⟨h, rfl⟩
    cases h with
    | renameAll c =>
      have hcase : NameCase.ofToken? c.token = some c := NameCase.ofToken?_token c
      have hgiven : caseGiven ("rename_all", some c.token) = some c := hcase
      rw [add_renameAll, hcase, next, hgiven]
      rfl
    | root hpath =>
      rw [add_root, hpath]
      rfl

theorem TypeOptions.foldl_next (arguments : List (String × Option String)) (o : TypeOptions) :
    arguments.foldl next o =
      ⟨(lastGiven caseGiven arguments).or o.renameAll,
        (lastGiven rootGiven arguments).getD o.root⟩ := by
  induction arguments generalizing o with
  | nil => rfl
  | cons argument arguments ih =>
    rw [List.foldl_cons, ih, lastGiven_cons, lastGiven_cons, next, Option.or_assoc]
    cases lastGiven rootGiven arguments <;> rfl

/-- **The options of a type are read** exactly if every argument is understood; a later argument
takes the place of an earlier one. -/
theorem typeOptions_eq_ok {attributes : List Attribute} {o : TypeOptions} :
    typeOptions attributes = .ok o ↔
      (∀ a ∈ filterableArguments attributes, IsTypeArgument a) ∧
        o = ⟨lastGiven caseGiven (filterableArguments attributes),
          (lastGiven rootGiven (filterableArguments attributes)).getD "::strainer"⟩ := by
  rw [typeOptions, foldlM_eq_ok TypeOptions.add_eq_ok, TypeOptions.foldl_next, Option.or_none]

/-! ## Fields -/

/-- **The arguments that are understood at a field**: a name that is not empty, and that there is no
member for the field. -/
inductive IsFieldArgument : String × Option String → Prop
  | rename {name : String} (h : name ≠ "") : IsFieldArgument ("rename", some name)
  | skip : IsFieldArgument ("skip", none)

/-- The name that an argument gives to the member of a field. -/
def nameGiven (argument : String × Option String) : Option String :=
  if argument.1 = "rename" then argument.2 else none

/-- What an argument changes about the options of a field. -/
def FieldOptions.next (o : FieldOptions) (argument : String × Option String) : FieldOptions :=
  ⟨(nameGiven argument).or o.rename, argument.1 = "skip" || o.skip⟩

theorem FieldOptions.add_rename (o : FieldOptions) (name : String) :
    o.add ("rename", some name) =
      if name = "" then .error .emptyName else .ok { o with rename := some name } := by
  by_cases h : name = ""
  · subst h
    rfl
  · rw [if_neg h]
    exact if_neg h

/-- An argument is taken if it is understood, and then it changes the options. -/
theorem FieldOptions.add_eq_ok (o : FieldOptions) (argument : String × Option String)
    (o' : FieldOptions) :
    o.add argument = .ok o' ↔ IsFieldArgument argument ∧ o' = o.next argument := by
  constructor
  · intro h
    obtain ⟨key, value⟩ := argument
    have hkey : key = "rename" ∨ key = "skip" := by
      unfold add at h
      split at h
      · next hkey => exact .inl hkey
      · next hkey => exact .inr hkey
      · cases h
    cases value with
    | none =>
      rcases hkey with rfl | rfl
      · cases h
      · cases h
        exact ⟨.skip, rfl⟩
    | some name =>
      rcases hkey with rfl | rfl
      · rw [add_rename] at h
        split at h
        · cases h
        · next hname =>
          cases h
          exact ⟨.rename hname, rfl⟩
      · cases h
  · rintro ⟨h, rfl⟩
    cases h with
    | rename hname =>
      rw [add_rename, if_neg hname]
      rfl
    | skip => rfl

theorem FieldOptions.foldl_next (arguments : List (String × Option String)) (o : FieldOptions) :
    arguments.foldl next o =
      ⟨(lastGiven nameGiven arguments).or o.rename,
        arguments.any (·.1 = "skip") || o.skip⟩ := by
  induction arguments generalizing o with
  | nil => rfl
  | cons argument arguments ih =>
    rw [List.foldl_cons, ih, lastGiven_cons, next, Option.or_assoc, List.any_cons, Bool.or_assoc,
      Bool.or_left_comm]

/-- **The options of a field are read** exactly if every argument is understood; a later name takes
the place of an earlier one. -/
theorem fieldOptions_eq_ok {attributes : List Attribute} {o : FieldOptions} :
    fieldOptions attributes = .ok o ↔
      (∀ a ∈ filterableArguments attributes, IsFieldArgument a) ∧
        o = ⟨lastGiven nameGiven (filterableArguments attributes),
          (filterableArguments attributes).any (·.1 = "skip")⟩ := by
  rw [fieldOptions, foldlM_eq_ok FieldOptions.add_eq_ok, FieldOptions.foldl_next, Option.or_none,
    Bool.or_false]

end Sift
