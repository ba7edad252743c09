import Mathlib.Data.List.Forall2
import Sift.Proofs.Terms
import Sift.Query.Order

/-!
# Compiled sorts are total preorders

* `Kind.Scale`, `FieldValue.measure`: the ordered type on which the values of a kind are measured.
* `sortCompare_eq_compare`: values of one kind are sorted by their measures, those without one
  first.
* `OrderKey.transCmp`, `RecordOrder.transCmp`: one key, and several, are a total preorder among
  records with values of one kind at each.
* `compare_append`: keys on which two records tie leave the order to the keys after them.
* `RecordOrder.lexicographic`: the laws of such an order, put together.
* `Schema.compileSort_lexicographic`: they hold of every compiled sort, and reversing the directions
  reverses it.
-/

namespace Sift

/-! ## Measures -/

instance : Std.TransOrd Date :=
  inferInstanceAs (Std.TransCmp (compareLex (compareOn Date.year)
    (compareLex (compareOn Date.month) (compareOn Date.day))))

instance : Std.TransOrd TimeOfDay :=
  inferInstanceAs (Std.TransCmp (compareLex (compareOn TimeOfDay.second)
    (compareOn TimeOfDay.nano)))

instance : Std.TransOrd LocalDateTime :=
  inferInstanceAs (Std.TransCmp (compareLex (compareOn LocalDateTime.date)
    (compareOn LocalDateTime.time)))

namespace Kind

/-- The ordered type on which the values of a kind are measured. -/
def Scale : Kind → Type
  | string => String
  | integer => Int
  | float => Int
  | boolean => Bool
  | date => Date
  | dateTime => LocalDateTime
  | offsetDateTime => LocalDateTime

instance : (kind : Kind) → Ord kind.Scale
  | string => inferInstanceAs (Ord String)
  | integer => inferInstanceAs (Ord Int)
  | float => inferInstanceAs (Ord Int)
  | boolean => inferInstanceAs (Ord Bool)
  | date => inferInstanceAs (Ord Date)
  | dateTime => inferInstanceAs (Ord LocalDateTime)
  | offsetDateTime => inferInstanceAs (Ord LocalDateTime)

instance : (kind : Kind) → Std.TransOrd kind.Scale
  | string => inferInstanceAs (Std.TransOrd String)
  | integer => inferInstanceAs (Std.TransOrd Int)
  | float => inferInstanceAs (Std.TransOrd Int)
  | boolean => inferInstanceAs (Std.TransOrd Bool)
  | date => inferInstanceAs (Std.TransOrd Date)
  | dateTime => inferInstanceAs (Std.TransOrd LocalDateTime)
  | offsetDateTime => inferInstanceAs (Std.TransOrd LocalDateTime)

end Kind

namespace FieldValue

/-- Whether there is nothing, or a scalar of the kind. -/
def IsOf (kind : Kind) (v : FieldValue) : Prop :=
  v = .null ∨ ∃ x : Scalar, v = .scalar x ∧ x.kind = kind

/-- Whether there is nothing to sort by: no value, or one that is no number. -/
def IsMissing (v : FieldValue) : Prop := v = .null ∨ v = .scalar (.float .nan)

/-- The measure of a value of a kind. -/
def measure (ignoreCase : Bool) : (kind : Kind) → FieldValue → Option kind.Scale
  | .string, .scalar (.string s) => some (folded ignoreCase s)
  | .integer, .scalar (.integer i) => some i.toInt
  | .float, .scalar (.float f) => f.rank
  | .boolean, .scalar (.boolean b) => some b
  | .date, .scalar (.date d) => some d
  | .dateTime, .scalar (.dateTime t) => some t
  | .offsetDateTime, .scalar (.offsetDateTime t) => some t.utc
  | _, _ => none

variable {ignoreCase : Bool} {kind : Kind} {a b : FieldValue}

/-- **Values of one kind are sorted by their measures**, those without one first. -/
theorem sortCompare_eq_compare (ha : a.IsOf kind) (hb : b.IsOf kind) :
    sortCompare ignoreCase a.sortValue b.sortValue =
      compare (a.measure ignoreCase kind) (b.measure ignoreCase kind) := by
  rcases ha with rfl | ⟨x, rfl, hx⟩ <;> rcases hb with rfl | ⟨y, rfl, hy⟩
  · cases kind <;> rfl
  · subst hy
    cases y with
    | float g => cases g <;> rfl
    | _ => rfl
  · subst hx
    cases x with
    | float f => cases f <;> rfl
    | _ => rfl
  · subst hx
    cases x <;> cases y <;> cases hy
    case float.float.refl f g => cases f <;> cases g <;> rfl
    all_goals rfl

theorem sortCompare_of_isMissing (ha : a.IsMissing) (hb : b.IsMissing) :
    sortCompare ignoreCase a.sortValue b.sortValue = .eq := by
  rcases ha with rfl | rfl <;> rcases hb with rfl | rfl <;> rfl

/-- Null and NaN come before every other value. -/
theorem sortCompare_of_not_isMissing (ha : a.IsMissing) (hb : ¬b.IsMissing) :
    sortCompare ignoreCase a.sortValue b.sortValue = .lt := by
  have hleft : a.sortValue.isNull = true := by rcases ha with rfl | rfl <;> rfl
  have hright : b.sortValue.isNull = false := by
    cases b with
    | null => exact absurd (Or.inl rfl) hb
    | scalar x =>
      cases x with
      | float f =>
        cases f with
        | nan => exact absurd (Or.inr rfl) hb
        | _ => rfl
      | _ => rfl
    | _ => rfl
  rw [sortCompare, hleft, hright]

end FieldValue

/-! ## Keys -/

instance Direction.transCmp_apply {α : Type} [Ord α] [Std.TransOrd α] (d : Direction) :
    Std.TransCmp fun a b : α => d.apply (compare a b) := by
  cases d with
  | ascending => exact inferInstanceAs (Std.TransOrd α)
  | descending =>
    have hswap : (fun a b : α => (compare a b).swap) = fun a b => compare b a := by
      funext a b
      exact Std.OrientedCmp.eq_swap.symm
    exact hswap ▸ Std.TransCmp.opposite

theorem Direction.apply_reverse (d : Direction) (o : Ordering) :
    d.reverse.apply o = (d.apply o).swap := by
  cases d with
  | ascending => rfl
  | descending => exact Ordering.swap_swap.symm

namespace OrderKey

/-- The key in the other direction. -/
def reverse (k : OrderKey) : OrderKey := { k with direction := k.direction.reverse }

theorem compare_reverse (k : OrderKey) (ignoreCase : Bool) (a b : Record) :
    k.reverse.compare ignoreCase a b = (k.compare ignoreCase a b).swap :=
  k.direction.apply_reverse _

/-- **A key is a total preorder** among records with values of one kind at it. -/
theorem transCmp (k : OrderKey) (ignoreCase : Bool) {P : Record → Prop} {kind : Kind}
    (h : ∀ r, P r → (Record.singleValue k.names r).IsOf kind) :
    Std.TransCmp fun a b : Subtype P => k.compare ignoreCase a b := by
  let measured (r : Subtype P) : Option kind.Scale :=
    (Record.singleValue k.names r).measure ignoreCase kind
  have hcompare : ∀ a b : Subtype P, k.compare ignoreCase a b =
      k.direction.apply (Ord.compare (measured a) (measured b)) := by
    intro a b
    rw [compare, FieldValue.sortCompare_eq_compare (h a a.2) (h b b.2)]
  have htrans : Std.TransCmp fun x y : Option kind.Scale =>
      k.direction.apply (Ord.compare x y) := k.direction.transCmp_apply
  refine { eq_swap := ?_, isLE_trans := ?_ }
  · intro a b
    rw [hcompare, hcompare]
    exact htrans.eq_swap
  · intro a b c hab hbc
    rw [hcompare] at hab hbc ⊢
    exact htrans.isLE_trans hab hbc

end OrderKey

/-! ## Orders by several keys -/

namespace RecordOrder

variable {o : RecordOrder} {a b : Record}

theorem compare_cons (k : OrderKey) (keys : List OrderKey) (ignoreCase : Bool) (a b : Record) :
    (RecordOrder.mk (k :: keys) ignoreCase).compare a b =
      (k.compare ignoreCase a b).then ((RecordOrder.mk keys ignoreCase).compare a b) := rfl

/-- **Several keys are a total preorder** among records with values of one kind at each of
them. -/
theorem transCmp {P : Record → Prop} {keys : List OrderKey} (ignoreCase : Bool)
    (h : ∀ k ∈ keys, ∃ kind, ∀ r, P r → (Record.singleValue k.names r).IsOf kind) :
    Std.TransCmp fun a b : Subtype P => (RecordOrder.mk keys ignoreCase).compare a b := by
  induction keys with
  | nil => exact { eq_swap := rfl, isLE_trans := fun _ _ => rfl }
  | cons k keys ih =>
    rw [List.forall_mem_cons] at h
    obtain ⟨⟨kind, hkind⟩, hkeys⟩ := h
    have hfirst := k.transCmp ignoreCase hkind
    have hlater := ih hkeys
    exact inferInstanceAs (Std.TransCmp (compareLex
      (fun a b : Subtype P => k.compare ignoreCase a b)
      (fun a b : Subtype P => (RecordOrder.mk keys ignoreCase).compare a b)))

theorem compare_append {before : List OrderKey} (after : List OrderKey) {ignoreCase : Bool}
    (h : ∀ k ∈ before, k.compare ignoreCase a b = .eq) :
    (RecordOrder.mk (before ++ after) ignoreCase).compare a b =
      (RecordOrder.mk after ignoreCase).compare a b := by
  induction before with
  | nil => rfl
  | cons k before ih =>
    rw [List.forall_mem_cons] at h
    rw [List.cons_append, compare_cons, h.1, ih h.2]
    rfl

/-- The order with every direction reversed. -/
def reverse (o : RecordOrder) : RecordOrder := { o with keys := o.keys.map OrderKey.reverse }

theorem compare_reverse (o : RecordOrder) (a b : Record) :
    o.reverse.compare a b = (o.compare a b).swap := by
  obtain ⟨keys, ignoreCase⟩ := o
  induction keys with
  | nil => rfl
  | cons k keys ih =>
    have hlater : (RecordOrder.mk (keys.map OrderKey.reverse) ignoreCase).compare a b =
        ((RecordOrder.mk keys ignoreCase).compare a b).swap := ih
    rw [reverse, List.map_cons, compare_cons, compare_cons, Ordering.swap_then,
      OrderKey.compare_reverse, hlater]

/-- **A total preorder by one key after the other**, among the records of a class. -/
structure Lexicographic (o : RecordOrder) (P : Record → Prop) : Prop where
  refl : ∀ a, P a → o.compare a a = .eq
  swap : ∀ a b, P a → P b → o.compare b a = (o.compare a b).swap
  trans : ∀ a b c, P a → P b → P c →
    o.compare a b ≠ .gt → o.compare b c ≠ .gt → o.compare a c ≠ .gt
  eq_of_keys : ∀ a b, (∀ k ∈ o.keys, k.compare o.ignoreCase a b = .eq) → o.compare a b = .eq
  first_decides : ∀ a b before k after, o.keys = before ++ k :: after →
    (∀ q ∈ before, q.compare o.ignoreCase a b = .eq) → k.compare o.ignoreCase a b ≠ .eq →
      o.compare a b = k.compare o.ignoreCase a b
  missing_tie : ∀ a b, ∀ k ∈ o.keys, (Record.singleValue k.names a).IsMissing →
    (Record.singleValue k.names b).IsMissing → k.compare o.ignoreCase a b = .eq
  missing_first : ∀ a b, ∀ k ∈ o.keys, k.direction = .ascending →
    (Record.singleValue k.names a).IsMissing → ¬(Record.singleValue k.names b).IsMissing →
      k.compare o.ignoreCase a b = .lt

theorem lexicographic {P : Record → Prop}
    (h : ∀ k ∈ o.keys, ∃ kind, ∀ r, P r → (Record.singleValue k.names r).IsOf kind) :
    o.Lexicographic P := by
  have htrans : Std.TransCmp fun a b : Subtype P => o.compare a b := transCmp o.ignoreCase h
  constructor
  case refl =>
    intro a ha
    have hrefl : Std.ReflCmp fun a b : Subtype P => o.compare a b := inferInstance
    exact hrefl.compare_self (a := ⟨a, ha⟩)
  case swap =>
    intro a b ha hb
    exact htrans.eq_swap (a := ⟨b, hb⟩) (b := ⟨a, ha⟩)
  case trans =>
    intro a b c ha hb hc hab hbc
    have hle := htrans.isLE_trans (a := ⟨a, ha⟩) (b := ⟨b, hb⟩) (c := ⟨c, hc⟩)
      (Ordering.isLE_iff_ne_gt.2 hab) (Ordering.isLE_iff_ne_gt.2 hbc)
    exact Ordering.isLE_iff_ne_gt.1 hle
  case eq_of_keys =>
    intro a b hkeys
    have hall := compare_append [] hkeys
    rw [List.append_nil] at hall
    exact hall
  case first_decides =>
    intro a b before k after hsplit hbefore hk
    have hrest := compare_append (k :: after) hbefore
    rw [← hsplit, compare_cons] at hrest
    cases hcompare : k.compare o.ignoreCase a b with
    | eq => exact absurd hcompare hk
    | lt => rw [hcompare] at hrest; exact hrest
    | gt => rw [hcompare] at hrest; exact hrest
  case missing_tie =>
    intro a b k _ ha hb
    rw [OrderKey.compare, FieldValue.sortCompare_of_isMissing ha hb]
    cases k.direction <;> rfl
  case missing_first =>
    intro a b k _ hascending ha hb
    rw [OrderKey.compare, FieldValue.sortCompare_of_not_isMissing ha hb, hascending]
    rfl

end RecordOrder

/-! ## Compiled sorts -/

namespace Schema

variable {n : Nat} (s : Schema n)

/-- **What may be sorted**: a record that has at every key of a sort no value, or one of the kind
that the types declare there. -/
def Fits (sorting : Sorting) (r : Record) : Prop :=
  ∀ k ∈ sorting.keys, ∀ segments, s.resolve k.field = .ok segments →
    ∀ kind, segments.getLast?.bind (·.type.kind?) = some kind →
      (Record.singleValue (segments.map (·.name)) r).IsOf kind

variable {s} {sorting : Sorting} {ignoreCase : Bool} {o : RecordOrder}

theorem compileKey_eq_ok {k : SortKey} {key : OrderKey} (h : s.compileKey k = .ok key) :
    ∃ segments kind, s.resolve k.field = .ok segments ∧
      segments.getLast?.bind (·.type.kind?) = some kind ∧
        key = ⟨segments.map (·.name), k.direction⟩ := by
  obtain ⟨segments, hsegments, h⟩ := bind_eq_ok.1 h
  by_cases hsortable : isSortable segments
  · rw [if_pos hsortable] at h
    cases h
    rw [isSortable, Bool.and_eq_true, Option.isSome_iff_exists] at hsortable
    obtain ⟨-, kind, hkind⟩ := hsortable
    exact ⟨segments, kind, hsegments, hkind, rfl⟩
  · rw [if_neg hsortable] at h
    cases h

theorem forall₂_compileKey {ks : List SortKey} {keys : List OrderKey}
    (h : ks.mapM s.compileKey = .ok keys) :
    List.Forall₂ (fun k key => s.compileKey k = .ok key) ks keys := by
  induction ks generalizing keys with
  | nil =>
    cases h
    exact .nil
  | cons k ks ih =>
    rw [List.mapM_cons] at h
    obtain ⟨first, hfirst, h⟩ := bind_eq_ok.1 h
    obtain ⟨later, hlater, h⟩ := bind_eq_ok.1 h
    cases h
    exact .cons hfirst (ih hlater)

/-- The keys of a compiled sort are those of the sort, at the ends of their paths. -/
theorem forall₂_compileSort (h : s.compileSort ignoreCase sorting = .ok o) :
    List.Forall₂ (fun k key => ∃ segments kind, s.resolve k.field = .ok segments ∧
      segments.getLast?.bind (·.type.kind?) = some kind ∧
        key = ⟨segments.map (·.name), k.direction⟩) sorting.keys o.keys := by
  obtain ⟨keys, hkeys, h⟩ := bind_eq_ok.1 h
  cases h
  exact (forall₂_compileKey hkeys).imp fun _ _ => compileKey_eq_ok

theorem isOf_of_compileSort (h : s.compileSort ignoreCase sorting = .ok o) :
    ∀ key ∈ o.keys, ∃ kind, ∀ r, s.Fits sorting r →
      (Record.singleValue key.names r).IsOf kind := by
  intro key hkey
  obtain ⟨i, hi, rfl⟩ := List.getElem_of_mem hkey
  have hkeys := List.forall₂_iff_get.1 (forall₂_compileSort h)
  have hi' : i < sorting.keys.length := hkeys.1 ▸ hi
  obtain ⟨segments, kind, hsegments, hkind, hkey⟩ := hkeys.2 i hi' hi
  refine ⟨kind, fun r hr => ?_⟩
  rw [List.get_eq_getElem] at hkey
  rw [hkey]
  exact hr _ (List.get_mem _ _) segments hsegments kind hkind

theorem compileKey_reverse (k : SortKey) :
    s.compileKey k.reverse = (s.compileKey k).map OrderKey.reverse := by
  rw [compileKey, compileKey, SortKey.reverse]
  cases s.resolve k.field with
  | error e => rfl
  | ok segments =>
    simp only [bind, Except.bind]
    split
    · rfl
    · rfl

theorem mapM_compileKey_reverse (ks : List SortKey) :
    (ks.map SortKey.reverse).mapM s.compileKey =
      (ks.mapM s.compileKey).map (List.map OrderKey.reverse) := by
  induction ks with
  | nil => rfl
  | cons k ks ih =>
    rw [List.map_cons, List.mapM_cons, List.mapM_cons, compileKey_reverse, ih]
    cases s.compileKey k with
    | error e => rfl
    | ok key => cases ks.mapM s.compileKey <;> rfl

/-- A sort with every direction reversed compiles to the order with every direction reversed. -/
theorem compileSort_reverse :
    s.compileSort ignoreCase sorting.reverse =
      (s.compileSort ignoreCase sorting).map RecordOrder.reverse := by
  have hkeys : sorting.reverse.keys = sorting.keys.map SortKey.reverse := by
    cases sorting <;> rfl
  rw [compileSort, compileSort, hkeys, mapM_compileKey_reverse]
  cases sorting.keys.mapM s.compileKey <;> rfl

/-- **A compiled sort is a total preorder by one key after the other**, among the records that may
be sorted by it, whether or not the case of letters counts. The keys are those of the sort, in
their order and in their directions.

The sort with every direction reversed compiles as well, and puts any two records the other way
round. -/
theorem compileSort_lexicographic (h : s.compileSort ignoreCase sorting = .ok o) :
    o.Lexicographic (s.Fits sorting) ∧
      List.Forall₂ (fun k key => key.direction = k.direction ∧
        ∃ segments, s.resolve k.field = .ok segments ∧ key.names = segments.map (·.name))
        sorting.keys o.keys ∧
      ∃ o', s.compileSort ignoreCase sorting.reverse = .ok o' ∧
        ∀ a b, o'.compare a b = (o.compare a b).swap := by
  refine ⟨RecordOrder.lexicographic (isOf_of_compileSort h), ?_, o.reverse, ?_, o.compare_reverse⟩
  · refine (forall₂_compileSort h).imp ?_
    rintro k key ⟨segments, kind, hsegments, -, rfl⟩
    exact ⟨rfl, segments, hsegments, rfl⟩
  · rw [compileSort_reverse, h]
    rfl

/-- By a score in an object that may be missing, best first, and then by name: without an object
and without a number two heroes tie, and their names decide. -/
theorem compileSort_lexicographic_scores :
    ∃ (s : Schema 2) (sorting : Sorting) (o : RecordOrder) (a b c : Record),
      s.compileSort true sorting = .ok o ∧ s.Fits sorting a ∧ s.Fits sorting b ∧
        s.Fits sorting c ∧ o.compare c a = .lt ∧ o.compare a b = .lt ∧ o.compare c b ≠ .gt := by
  let s : Schema 2 := ⟨fun
    | 0 => ⟨"Hero", [("Name", .scalar .string), ("Stats", .object 1)]⟩
    | 1 => ⟨"Stats", [("Score", .scalar .float)]⟩, 0⟩
  let sorting : Sorting := .several [⟨"Stats.Score", .descending⟩, ⟨"Name", .ascending⟩]
  let hero (name : String) (stats : FieldValue) : Record :=
    [("Name", .scalar (.string name)), ("Stats", stats)]
  let scored (f : Binary64) : FieldValue := .object [("Score", .scalar (.float f))]
  let a := hero "anna" .null
  let b := hero "Bert" (scored .nan)
  let c := hero "Zoe" (scored (.ofInt 3))
  have hname : s.resolve "Name" = .ok [⟨"Name", .scalar .string⟩] :=
    toOption_eq_some.1 (by decide +kernel)
  have hscore : s.resolve "Stats.Score" = .ok [⟨"Stats", .object 1⟩, ⟨"Score", .scalar .float⟩] :=
    toOption_eq_some.1 (by decide +kernel)
  have hfits : ∀ name stats, (Record.singleValue ["Stats", "Score"] (hero name stats)).IsOf .float →
      s.Fits sorting (hero name stats) := by
    intro name stats hstats k hk segments hsegments kind hkind
    have hk : k = ⟨"Stats.Score", .descending⟩ ∨ k = ⟨"Name", .ascending⟩ := by
      simpa [sorting, Sorting.keys] using hk
    rcases hk with rfl | rfl
    · rw [hscore] at hsegments
      cases hsegments
      cases hkind
      exact hstats
    · rw [hname] at hsegments
      cases hsegments
      cases hkind
      exact Or.inr ⟨.string name, rfl, rfl⟩
  have ha : s.Fits sorting a := hfits _ _ (Or.inl rfl)
  have hb : s.Fits sorting b := hfits _ _ (Or.inr ⟨_, rfl, rfl⟩)
  have hc : s.Fits sorting c := hfits _ _ (Or.inr ⟨_, rfl, rfl⟩)
  let o : RecordOrder := ⟨[⟨["Stats", "Score"], .descending⟩, ⟨["Name"], .ascending⟩], true⟩
  have horder : s.compileSort true sorting = .ok o := toOption_eq_some.1 (by decide +kernel)
  obtain ⟨hlexicographic, -, -⟩ := compileSort_lexicographic horder
  have hca : o.compare c a = .lt := by decide +kernel
  have hab : o.compare a b = .lt := by decide +kernel
  refine ⟨s, sorting, o, a, b, c, horder, ha, hb, hc, hca, hab, ?_⟩
  apply hlexicographic.trans c a b hc ha hb
  · rw [hca]; decide
  · rw [hab]; decide

end Schema

end Sift
