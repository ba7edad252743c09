import Sift.Proofs.LiteralSets
import Sift.Proofs.MixedNumbers
import Sift.Proofs.OrderCoherence
import Sift.Proofs.StoredOperand
import Sift.Proofs.TypedText

/-!
# Stored values

Comparisons that are built in code have operands which no filter text has: truth values, numbers,
dates, times, and lists of anything. What JSON has no form for is stored as its text. By itself
such a text is read like a value in a filter text, within a list it stands for itself.

* `Operand.restored`: what an operand is read as within a list.
* `Operand.KeepsAs`, `Operand.as?_restored`: the values that are read alike as a kind.
* `Operand.ofStored_date`: by itself a date is read as a text, or as a text to look for.
* `Filter.ofJson_typed`: what the stored form of a comparison is read as.
* `Schema.compile_stored`: **a comparison with such an operand is stored as one with the same
  predicate** if its values keep what they are read as; `Schema.exists_unlike_stored`: not always.
-/

namespace Sift

open Scan

/-! ## Operands within lists -/

/-- The dates and times. -/
def Scalar.IsDate : Scalar → Prop
  | date _ | dateTime _ | offsetDateTime _ => True
  | _ => False

theorem Scalar.IsDate.text {v : Scalar} (h : v.IsDate) :
    '-' ∈ v.text ∧ ∀ c ∈ v.text, isDateChar c = true := by
  cases v with
  | date d => exact ⟨by simp [Scalar.text, Date.text], isDateChar_date d⟩
  | dateTime t =>
    exact ⟨by simp [Scalar.text, LocalDateTime.text, Date.text], isDateChar_dateTime t⟩
  | offsetDateTime t =>
    refine ⟨by simp [Scalar.text, OffsetDateTime.text, LocalDateTime.text, Date.text], ?_⟩
    intro c hc
    rcases List.mem_append.1 hc with hc | hc
    · exact isDateChar_dateTime t.clock c hc
    · exact isDateChar_minute t.offset c hc
  | _ => exact h.elim

namespace Operand

mutual

/-- What an operand is read as from its stored form. -/
def restored : Operand → Operand
  | null => null
  | scalar (.boolean b) => scalar (.boolean b)
  | scalar (.integer i) => scalar (.integer i)
  | scalar (.float f) => scalar (.float f)
  | scalar v => string (String.ofList v.text)
  | list items => list (allRestored items)
  | expression e => string (String.ofList e.text)

/-- What several operands are read as. -/
def allRestored : List Operand → List Operand
  | [] => []
  | item :: rest => item.restored :: allRestored rest

end

mutual

theorem ofJson_json : ∀ o : Operand, Operand.ofJson o.json = .ok o.restored
  | null | scalar (.boolean _) | scalar (.integer _) | scalar (.float _) | scalar (.string _)
  | scalar (.date _) | scalar (.dateTime _) | scalar (.offsetDateTime _) | expression _ => rfl
  | list items => by rw [json, Operand.ofJson, ofJsons_jsons items]; rfl

theorem ofJsons_jsons : ∀ items : List Operand,
    Operand.ofJsons (jsons items) = .ok (allRestored items)
  | [] => rfl
  | item :: rest => by
    rw [jsons, Operand.ofJsons, ofJson_json item, ofJsons_jsons rest]
    rfl

end

mutual

/-- **The text of an operand stays what it is.** -/
theorem text?_restored : ∀ o : Operand, o.restored.text? = o.text?
  | null | scalar (.boolean _) | scalar (.integer _) | scalar (.float _) => rfl
  | scalar (.string _) | scalar (.date _) | scalar (.dateTime _) | scalar (.offsetDateTime _)
  | expression _ => congrArg some String.toList_ofList
  | list items => by rw [restored, text?, text?, texts_restored items]

theorem texts_restored : ∀ items : List Operand, texts (allRestored items) = texts items
  | [] => rfl
  | item :: rest => by rw [allRestored, texts, texts, text?_restored item, texts_restored rest]

end

theorem restored_date {v : Scalar} (h : v.IsDate) :
    (scalar v).restored = string (String.ofList v.text) := by
  cases v with
  | date d => rfl
  | dateTime t => rfl
  | offsetDateTime t => rfl
  | _ => exact h.elim

/-- **The values that are read alike as a kind** from their stored form: dates and times whose text
keeps them, texts that need no quotes, and literals that are read back. -/
def KeepsAs (kind : Kind) : Operand → Prop
  | scalar (.float _) => True
  | scalar v => v.InFormat kind ∧ v.TextKeeps kind
  | expression (.literal (.text s)) => isPlainWord s.toList = true
  | expression (.literal l) => kind = .string ∨ l.Legible
  | _ => True

variable {kind : Kind} {o : Operand} {v : Scalar}

theorem as?_text (h : v.InFormat kind ∧ v.TextKeeps kind) :
    (string (String.ofList v.text)).as? kind = (scalar v).as? kind := by
  rw [as?_string]
  exact (Scalar.readScalar?_text_iff h.1).2 h.2

/-- A literal that is no text is read back, as a text at any rate. -/
theorem as?_written {l : Literal} (hl : ∀ s, l ≠ .text s) (h : kind = .string ∨ l.Legible) :
    (string (String.ofList l.written)).as? kind = l.as? kind := by
  rw [as?_string]
  rcases h with rfl | h
  · rw [Literal.as?_of_ne_text hl, Literal.temporalAs?, if_pos rfl]
    rfl
  · rw [← plainText_of_ne_text hl, l.readScalar?_plainText h]

/-- **What keeps a value is read as it.** -/
theorem as?_restored (hkeeps : o.KeepsAs kind) (h : o.as? kind = some v) :
    o.restored.as? kind = some v := by
  cases o with
  | null => cases h
  | list items => cases h
  | scalar w =>
    cases w with
    | boolean b => exact h
    | integer i => exact h
    | float f => exact h
    | _ => exact (as?_text hkeeps).trans h
  | expression e =>
    cases e with
    | literal l =>
      cases l with
      | text s =>
        have hplain : wordText s.toList = s.toList := if_pos hkeeps
        rw [restored, as?_string, Expression.text, Literal.written, hplain, String.ofList_toList]
        exact h
      | date d => exact (as?_written (by simp) hkeeps).trans h
      | dateTime t offset => exact (as?_written (by simp) hkeeps).trans h
    | _ => cases h

/-! ## Operands by themselves -/

/-- The operands that are no text and no expression. -/
def IsTyped : Operand → Prop
  | scalar (.string _) => False
  | scalar _ | list _ => True
  | _ => False

theorem IsTyped.isNull (h : o.IsTyped) : o.isNull = false := by
  cases o with
  | null => exact h.elim
  | _ => rfl

theorem isNull_restored (o : Operand) : o.restored.isNull = o.isNull := by
  cases o with
  | scalar v => cases v <;> rfl
  | _ => rfl

mutual

/-- No NaN and no infinity is among the values of an operand. -/
def IsFinite : Operand → Prop
  | scalar (.float f) => f.IsFinite
  | list items => AllFinite items
  | _ => True

/-- None is among those of several operands. -/
def AllFinite : List Operand → Prop
  | [] => True
  | item :: rest => item.IsFinite ∧ AllFinite rest

end

/-- The values of an operand, several if it is a list. -/
def values : Operand → List Operand
  | list items => items
  | o => [o]

/-- The places of a text in a list are looked at in the texts of its items. -/
theorem placedTest_list (field : String) (place : Placement) (items : List Operand) :
    placedTest field place (list (allRestored items)) = placedTest field place (list items) := by
  have htests : (allRestored items).mapM (fun item => textTest field place (item.text?.getD [])) =
      items.mapM fun item => textTest field place (item.text?.getD []) := by
    induction items with
    | nil => rfl
    | cons item rest ih =>
      rw [allRestored, List.mapM_cons, List.mapM_cons, text?_restored, ih]
  simp only [placedTest, htests]

/-- A date or time by itself is read like a bare word. -/
theorem ofText_word {cs : List Char} (hne : cs ≠ []) (hcs : ∀ c ∈ cs, isDateChar c = true)
    (op : Operator) : ofText op (String.ofList cs) = (Word.bare cs).behind op := by
  have hbare : ∀ c ∈ cs, Grammar.isBareChar c = true :=
    fun c hc => isBareChar_of_isDateChar (hcs c hc)
  have htight : Text.Tight cs := Text.tight_of_all fun c hc => isBlank_of_isDateChar (hcs c hc)
  have htrimmed : trimmed (String.ofList cs) = String.ofList cs := by
    rw [trimmed, String.toList_ofList, Text.trim_of_tight htight]
  have hdepth : checkDepth defaultDepth (String.ofList cs) = .ok () := by
    rw [checkDepth_of_nests (n := 0) (by rw [String.toList_ofList]; exact nests_bare hbare)]
    exact Nat.zero_le _
  have hreads : ReadsUpTo (Grammar.value ((String.ofList cs).length + 1))
      (fun v => (Word.bare cs).IsTerm v.first ∧ v.rest = []) (String.ofList cs).toList [] := by
    have hread := Grammar.reads_value_word (w := .bare cs) (String.ofList cs).length ⟨hne, hbare⟩
      Grammar.endsTerm_nil (by simp)
    rw [List.append_nil] at hread
    rw [String.toList_ofList]
    exact hread
  obtain ⟨v, hv, hwhole⟩ := scannedWhole_of_reads hreads .afterValue
  unfold ofText
  simp only [htrimmed, hdepth]
  show (scannedWhole _ _ _ >>= _) = _
  rw [hwhole]
  exact Value.operand_of_word hv _ op

/-- **A date or time by itself** is read as its text, or as its text to look for. -/
theorem ofStored_date {cs : List Char} (hdash : '-' ∈ cs) (hcs : ∀ c ∈ cs, isDateChar c = true)
    (op : Operator) : ∃ o, ofStored op (String.ofList cs) = .ok o ∧
      (op.isText = false → o = string (String.ofList cs)) ∧
      ∀ field place, op.positive.1.placement? = some place →
        placedTest field place o = textTest field place cs := by
  have hne : cs ≠ [] := List.ne_nil_of_mem hdash
  have hread := ofText_word hne hcs op
  have hplace : op.isText = op.positive.1.placement?.isSome := op.isText_positive
  unfold Word.behind at hread
  cases hop : op.isText with
  | false =>
    rw [hop, if_neg Bool.false_ne_true, bare_operand (isKeyword_of_dash hdash)] at hread
    refine ⟨_, ofStored_of_ok hread, fun _ => rfl, fun field place h => ?_⟩
    rw [hop, h] at hplace
    cases hplace
  | true =>
    have hfragment : String.ofList cs ≠ "" := by
      intro hempty
      exact hne (String.ofList_injective (hempty.trans String.ofList_nil.symm))
    let f : Fragment := ⟨String.ofList cs, hfragment⟩
    have hf : (Word.bare cs).fragment = .ok f := dif_neg hfragment
    rw [hop, if_pos rfl, hf] at hread
    refine ⟨_, ofStored_of_ok hread, nofun, fun field place h => ?_⟩
    show expressionTest field .string (some place) (op.textExpression f) = _
    rw [expressionTest_textExpression h, String.toList_ofList]

end Operand

/-! ## Comparisons -/

namespace FilterParts

/-- Only a text is looked at again. -/
theorem filter_value (field : Option String) (op : Operator) {o : Operand}
    (h : ∀ text, o ≠ .string text) :
    filter ⟨some field, some op, some o⟩ = .ok ⟨field, op, o⟩ := by
  cases o with
  | scalar v =>
    cases v with
    | string text => exact absurd rfl (h text)
    | _ => rfl
  | _ => rfl

end FilterParts

namespace Filter

variable {f : Filter}

/-- What is no text by itself is stored by itself as within a list. -/
theorem json_typed (h : f.operand.IsTyped) :
    f.json = .object [("field", Json.ofOption f.field), ("operator", .string f.operator.token),
      ("value", f.operand.json)] := by
  obtain ⟨field, op, operand⟩ := f
  cases operand with
  | scalar v =>
    cases v with
    | string text => exact h.elim
    | _ => rfl
  | list items => rfl
  | _ => exact h.elim

/-- **What a stored comparison is read as** if its operand is no text and no expression. -/
theorem ofJson_typed (h : f.operand.IsTyped) : ∃ o,
    Filter.ofJson f.json = .ok { f with operand := o } ∧
      (f.operator.isText = false → o = f.operand.restored) ∧
      ∀ field place, f.operator.positive.1.placement? = some place →
        placedTest field place o = placedTest field place f.operand := by
  have hread : Filter.ofJson f.json =
      FilterParts.filter ⟨some f.field, some f.operator, some f.operand.restored⟩ := by
    rw [json_typed h, ofJson_parts _ _ (Operand.ofJson_json f.operand)]
  obtain ⟨field, op, operand⟩ := f
  rw [hread]
  cases operand with
  | null => exact h.elim
  | expression e => exact h.elim
  | list items =>
    refine ⟨_, FilterParts.filter_value _ _ nofun, fun _ => rfl, fun field place _ => ?_⟩
    exact Operand.placedTest_list field place items
  | scalar v =>
    by_cases hdate : v.IsDate
    · obtain ⟨hdash, hchars⟩ := hdate.text
      obtain ⟨o, ho, hrestored, hplaced⟩ := Operand.ofStored_date hdash hchars op
      refine ⟨o, ?_, fun hop => (hrestored hop).trans (Operand.restored_date hdate).symm, hplaced⟩
      show FilterParts.filter ⟨_, _, some (Operand.scalar v).restored⟩ = _
      rw [Operand.restored_date hdate, FilterParts.filter_text, ho]
      rfl
    · cases v with
      | string text => exact h.elim
      | date d => exact absurd trivial hdate
      | dateTime t => exact absurd trivial hdate
      | offsetDateTime t => exact absurd trivial hdate
      | _ => exact ⟨_, FilterParts.filter_value _ _ nofun, fun _ => rfl, fun _ _ _ => rfl⟩

end Filter

/-! ## Tests -/

section Tests

variable {n : Nat} {s : Schema n} {field : String} {type : FieldType n} {op : Operator}
  {kind : Kind} {o : Operand} {t : Test}

theorem Operand.keepsAs_of_values (h : ∀ item ∈ o.values, item.KeepsAs kind) : o.KeepsAs kind := by
  cases o with
  | list items => trivial
  | _ => exact h _ (List.mem_singleton_self _)

theorem mapM_operandValue_restored {items : List Operand} {vs : List Scalar}
    (hkeeps : ∀ item ∈ items, item.KeepsAs kind)
    (h : items.mapM (operandValue field kind) = .ok vs) :
    (Operand.allRestored items).mapM (operandValue field kind) = .ok vs := by
  induction items generalizing vs with
  | nil => exact h
  | cons item items ih =>
    rw [List.forall_mem_cons] at hkeeps
    rw [List.mapM_cons] at h
    obtain ⟨v, hv, h⟩ := bind_eq_ok.1 h
    obtain ⟨vs, hvs, h⟩ := bind_eq_ok.1 h
    have hitem : operandValue field kind item.restored = .ok v :=
      operandValue_eq_ok.2 (Operand.as?_restored hkeeps.1 (operandValue_eq_ok.1 hv))
    rw [Operand.allRestored, List.mapM_cons]
    exact bind_eq_ok.2 ⟨v, hitem, bind_eq_ok.2 ⟨vs, ih hkeeps.2 hvs, h⟩⟩

theorem equalityTest_restored (ho : o.IsTyped) (hkeeps : ∀ item ∈ o.values, item.KeepsAs kind)
    (h : equalityTest field kind o = .ok t) : equalityTest field kind o.restored = .ok t := by
  cases o with
  | list items =>
    obtain ⟨vs, hvs, rfl⟩ := map_eq_ok.1 h
    exact map_eq_ok.2 ⟨vs, mapM_operandValue_restored hkeeps hvs, rfl⟩
  | scalar v =>
    obtain ⟨w, hw, rfl⟩ := map_eq_ok.1 h
    have hread : operandValue field kind (Operand.scalar v).restored = .ok w :=
      operandValue_eq_ok.2 (Operand.as?_restored (Operand.keepsAs_of_values hkeeps)
        (operandValue_eq_ok.1 hw))
    obtain ⟨w', hw'⟩ : ∃ w', (Operand.scalar v).restored = .scalar w' := by
      cases v <;> exact ⟨_, rfl⟩
    rw [hw'] at hread ⊢
    exact map_eq_ok.2 ⟨w, hread, rfl⟩
  | _ => exact ho.elim

theorem operatorTest_placed {place : Placement} (hop : op.placement? = some place) :
    operatorTest s field type op o = if type.kind? = some .string then placedTest field place o
      else refuse field (.notText op.token (s.typeName type)) := by
  unfold Operator.placement? at hop
  split at hop <;> cases hop <;> rfl

theorem orderTest_restored {orEqual : Bool}
    (hkeeps : ∀ kind, type.kind? = some kind → ∀ item ∈ o.values, item.KeepsAs kind)
    (h : orderTest s field type orEqual o = .ok t) :
    orderTest s field type orEqual o.restored = .ok t := by
  obtain ⟨y, ⟨kind, hkind, horderable, hy⟩, rfl⟩ := orderTest_eq_ok.1 h
  have hread := Operand.as?_restored (Operand.keepsAs_of_values (hkeeps kind hkind)) hy
  exact orderTest_eq_ok.2 ⟨y, ⟨kind, hkind, horderable, hread⟩, rfl⟩

/-- **Where no text is looked for, what keeps its values stands for the same test.** -/
theorem operatorTest_restored (hop : op.placement? = none) (ho : o.IsTyped)
    (hkeeps : ∀ kind, type.kind? = some kind → ∀ item ∈ o.values, item.KeepsAs kind)
    (h : operatorTest s field type op o = .ok t) :
    operatorTest s field type op o.restored = .ok t := by
  cases op with
  | eq =>
    simp only [operatorTest, o.isNull_restored, ho.isNull, Bool.false_eq_true, if_false] at h ⊢
    obtain ⟨kind, hkind, h⟩ := bind_eq_ok.1 h
    exact bind_eq_ok.2 ⟨kind, hkind,
      equalityTest_restored ho (hkeeps kind (kind?_of_comparedKind hkind)) h⟩
  | gt => exact orderTest_restored hkeeps h
  | gte => exact orderTest_restored hkeeps h
  | contains => cases hop
  | startsWith => cases hop
  | endsWith => cases hop
  | _ => exact h

end Tests

/-! ## Predicates -/

namespace Schema

variable {n : Nat} {s : Schema n} {f : Filter} {p : Predicate}

/-- The field that a comparison asks about has values of a kind. -/
def ComparesKind (s : Schema n) (f : Filter) (kind : Kind) : Prop :=
  ∃ path segments leaf, f.path? = some path ∧ s.resolve path = .ok segments ∧
    segments.getLast? = some leaf ∧ leaf.type.kind? = some kind

/-- A comparison keeps its predicate with an operand that stands for the same test. -/
theorem compileFilter_operand {o : Operand} (hp : s.compileFilter f = .ok p)
    (h : ∀ path segments leaf test, f.path? = some path → s.resolve path = .ok segments →
      segments.getLast? = some leaf →
        operatorTest s path leaf.type f.operator.positive.1 f.operand = .ok test →
          operatorTest s path leaf.type f.operator.positive.1 o = .ok test) :
    s.compileFilter { f with operand := o } = .ok p := by
  have hpath : ({ f with operand := o } : Filter).path? = f.path? := rfl
  rcases compileFilter_eq_ok hp with ⟨hnone, rfl⟩ | ⟨path, segments, leaf, test, hfield, hresolve,
    hlast, htest, rfl⟩
  · rw [compileFilter, hpath, hnone]
  · rw [compileFilter, hpath, hfield]
    refine bind_eq_ok.2 ⟨segments, hresolve, ?_⟩
    rw [hlast]
    have hsame := h path segments leaf test hfield hresolve hlast htest
    exact bind_eq_ok.2 ⟨test, mapError_eq_ok.2 hsame, rfl⟩

/-- **A comparison with values that are no texts is stored as one with the same predicate**, if its
doubles are read back from JSON, its lists do not nest too deep, and, where no text is looked for,
its values keep what they are read as. -/
theorem compile_stored (ho : f.operand.IsTyped) (hp : s.compile (.leaf f) = .ok p)
    (hkept : f.json.Kept) (hdepth : f.json.depth ≤ JsonGrammar.maxDepth)
    (hkeeps : f.operator.isText = false → ∀ kind, s.ComparesKind f kind →
      ∀ item ∈ f.operand.values, item.KeepsAs kind) :
    ∃ node, Node.ofStored? (Node.leaf f).stored = some node ∧ s.compile node = .ok p := by
  obtain ⟨o, hread, hrestored, hplaced⟩ := Filter.ofJson_typed ho
  have hnode : Node.ofStored? (Node.leaf f).stored = some (.leaf { f with operand := o }) := by
    rw [Node.ofStored?, Node.stored, Node.json, Json.read?_text hkept hdepth, Option.bind_some,
      Node.ofJson?_leaf, hread]
    rfl
  refine ⟨_, hnode, ?_⟩
  rw [compile] at hp ⊢
  refine compileFilter_operand hp fun path segments leaf test hfield hresolve hlast htest => ?_
  have htext := f.operator.isText_positive
  cases hplace : f.operator.positive.1.placement? with
  | none =>
    rw [hplace] at htext
    rw [hrestored htext]
    refine operatorTest_restored hplace ho (fun kind hkind => ?_) htest
    exact hkeeps htext kind ⟨path, segments, leaf, hfield, hresolve, hlast, hkind⟩
  | some place =>
    rw [operatorTest_placed hplace] at htest ⊢
    rwa [hplaced path place hplace]

/-- A date, a double, and two texts in a list, one of them a literal. -/
theorem compile_stored_names : ∃ (s : Schema 1) (f : Filter) (p : Predicate) (node : Node),
    f.operand = .list [.scalar (.date ⟨2024, 2, 29, by decide, by decide, by decide, by decide,
      by decide, by decide⟩), .scalar (.float (.ofRatio .double false 1 2)), .string "a, b*",
      .expression (.constant "c")] ∧
    s.compile (.leaf f) = .ok p ∧ Node.ofStored? (Node.leaf f).stored = some node ∧
      s.compile node = .ok p := by
  let s : Schema 1 := ⟨fun _ => ⟨"Pet", [("Name", .scalar .string)]⟩, 0⟩
  let half : Binary64 := .ofRatio .double false 1 2
  let items : List Operand := [.scalar (.date ⟨2024, 2, 29, by decide, by decide, by decide,
    by decide, by decide, by decide⟩), .scalar (.float half), .string "a, b*",
    .expression (.constant "c")]
  let f : Filter := .on "Name" .neq (.list items)
  have hcompile : (s.compile (.leaf f)).toOption.isSome := by decide +kernel
  obtain ⟨p, hp⟩ := Option.isSome_iff_exists.1 hcompile
  have hhalf : (Json.float half).Kept := by
    have hsteps : half = .finite false (Nat.pow 2 1073) (by decide +kernel) := by decide +kernel
    rw [hsteps]
    exact Json.kept_float_of_small false _ (by decide +kernel) (by decide +kernel)
      (by decide +kernel)
  have hkept : f.json.Kept :=
    ⟨trivial, trivial, ⟨trivial, hhalf, trivial, trivial, trivial⟩, trivial⟩
  have hdepth : f.json.depth ≤ JsonGrammar.maxDepth := by decide
  have hnames : (pathNames "Name").toOption = some ["Name"] := by decide +kernel
  have hkeeps : ∀ kind, s.ComparesKind f kind → ∀ item ∈ items, item.KeepsAs kind := by
    rintro kind ⟨path, segments, leaf, hpath, hsegments, hleaf, hkind⟩
    have hresolve : s.resolve "Name" = .ok [⟨"Name", .scalar .string⟩] :=
      bind_eq_ok.2 ⟨_, toOption_eq_some.1 hnames, rfl⟩
    obtain rfl : "Name" = path := Option.some.inj hpath
    cases hresolve.symm.trans hsegments
    cases hleaf
    cases hkind
    have hplain : isPlainWord "c".toList = true := by decide +kernel
    simp only [items, List.forall_mem_cons]
    exact ⟨⟨trivial, trivial⟩, trivial, ⟨trivial, trivial⟩, hplain, by simp⟩
  obtain ⟨node, hnode, hsame⟩ := compile_stored (f := f) trivial (toOption_eq_some.1 hp) hkept
    hdepth fun _ => hkeeps
  exact ⟨s, f, p, node, rfl, toOption_eq_some.1 hp, hnode, hsame⟩

/-- Not every comparison means what it is stored as. A text in a list that has to be quoted in a
filter text is stored with the quotes, and read with them. -/
theorem exists_unlike_stored : ¬∀ (s : Schema 1) (f : Filter) (p : Predicate),
    f.operator.requiresValue = true → f.operand.IsTyped → f.operand.IsFinite →
      (∀ t, f.operand = .scalar (.offsetDateTime t) → t.offset.seconds % 60 = 0) →
        s.compile (.leaf f) = .ok p → ∃ node q, Node.ofStored? (Node.leaf f).stored = some node ∧
          s.compile node = .ok q ∧ ∀ ignoreCase (r : Record), r.Conforms s s.root →
            q.accepts ignoreCase r = p.accepts ignoreCase r := by
  intro hall
  let s : Schema 1 := ⟨fun _ => ⟨"Hero", [("Name", .scalar .string)]⟩, 0⟩
  let f : Filter := .on "Name" .eq (.list [.expression (.constant "Bruce Wayne")])
  let r : Record := [("Name", .scalar (.string "Bruce Wayne"))]
  have hr : r.Conforms s s.root :=
    Record.conforms_single (t := .scalar .string) rfl (.scalar (.inl rfl))
  have hoffset : ∀ t, f.operand = .scalar (.offsetDateTime t) → t.offset.seconds % 60 = 0 := by
    intro t ht
    cases ht
  have hbefore : (s.compile (.leaf f)).toOption.map (·.accepts false r) = some true := by
    decide +kernel
  have hafter : ((Node.ofStored? (Node.leaf f).stored).bind fun node =>
      (s.compile node).toOption.map (·.accepts false r)) = some false := by decide +kernel
  obtain ⟨p, hp, haccepts⟩ := Option.map_eq_some_iff.1 hbefore
  obtain ⟨node, q, hnode, hq, hsame⟩ := hall s f p rfl trivial ⟨trivial, trivial⟩ hoffset
    (toOption_eq_some.1 hp)
  rw [hnode, Option.bind_some, hq] at hafter
  have hrejects : q.accepts false r = false := Option.some.inj hafter
  rw [hsame false r hr, haccepts] at hrejects
  cases hrejects

end Schema

end Sift
