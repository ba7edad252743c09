import Sift.Proofs.JsonText
import Sift.Proofs.SortFields

/-!
# Sorts written and read back

* `Sorting.ofText_joined`: parts in which keys are written, with commas between them, are read as
  the sort of these keys.
* `SortKey.isWritten_text`: a key is written in its text; `SortKey.isWritten_turned`: and the key in
  the other direction where its sign is turned round.
* `Sorting.ofJson?_json`: a stored sort is read as what it is, never as another kind of sort.
* `Sorting.readBack`: **sorts that are read are read back from their text, sorts of any kind from
  their stored form, and turning the signs of a text round reverses the sort.**
-/

namespace Sift

/-! ## Texts of keys -/

namespace SortKey

variable {k : SortKey} {part : List Char}

/-- A part of a sort text with its sign turned round: a minus is left out, and where there is none
one is put in. -/
def turned (part : List Char) : List Char :=
  part.takeWhile Text.isAsciiBlank ++
    match part.dropWhile Text.isAsciiBlank with
    | '-' :: rest => rest
    | '+' :: rest => '-' :: rest
    | rest => '-' :: rest

theorem nil_mem_blanks : [] ∈ SortPattern.blanks := SortPattern.mem_oneOf_kstar.2 (by simp)

theorem IsSigned.isWritten {cs : List Char} (h : k.IsSigned cs) : k.IsWritten cs :=
  ⟨[], cs, [], nil_mem_blanks, h, nil_mem_blanks, (List.append_nil cs).symm⟩

/-- The sign of a key in its text is one of its direction. -/
theorem hasSign_sign (d : Direction) : d.HasSign d.sign.toList := by
  cases d with
  | ascending => exact Or.inl rfl
  | descending => exact rfl

/-- **A key is written in its text**, if its field is written as a path. -/
theorem isWritten_text (h : ∃ path : FieldPath, path.Plain ∧ k.field = path.written) :
    k.IsWritten k.text.toList := by
  obtain ⟨path, hpath, hfield⟩ := h
  refine IsSigned.isWritten ⟨k.direction.sign.toList, path, hasSign_sign k.direction, hpath, hfield,
    ?_⟩
  rw [text, String.toList_append, hfield]

/-- Only the path follows a sign that is turned round. -/
theorem turned_signed {front sign : List Char} {path : FieldPath}
    (hfront : front ∈ SortPattern.blanks) (hsign : k.direction.HasSign sign)
    (hpath : path.Plain) (back : List Char) : ∃ sign', k.direction.reverse.HasSign sign' ∧
      turned (front ++ (sign ++ (path.written.toList ++ back))) =
        front ++ (sign' ++ (path.written.toList ++ back)) := by
  have hblank : ∀ c ∈ front, Text.isAsciiBlank c = true := SortPattern.mem_oneOf_kstar.1 hfront
  -- the white space in front ends at the sign
  have hends : ∀ c ∈ (sign ++ (path.written.toList ++ back)).head?,
      Text.isAsciiBlank c = false := by
    rw [← List.append_assoc]
    have hsigned : SortKey.IsSigned ⟨path.written, k.direction⟩ (sign ++ path.written.toList) :=
      ⟨sign, path, hsign, hpath, rfl, rfl⟩
    exact SortGrammar.isAsciiBlank_head_signed hsigned
  have hdrop : (front ++ (sign ++ (path.written.toList ++ back))).dropWhile Text.isAsciiBlank =
      sign ++ (path.written.toList ++ back) := by
    rw [List.dropWhile_append_of_pos hblank, Scan.dropWhile_of_head hends]
  have htake : (front ++ (sign ++ (path.written.toList ++ back))).takeWhile Text.isAsciiBlank =
      front := by
    have hboth := List.takeWhile_append_dropWhile (p := Text.isAsciiBlank)
      (l := front ++ (sign ++ (path.written.toList ++ back)))
    rw [hdrop] at hboth
    exact List.append_cancel_right hboth
  obtain ⟨c, cs, hcs, hc⟩ := SortGrammar.head_written hpath
  have hminus : c ≠ '-' := by rintro rfl; exact absurd hc (by decide)
  have hplus : c ≠ '+' := by rintro rfl; exact absurd hc (by decide)
  unfold turned
  rw [htake, hdrop]
  cases hd : k.direction with
  | ascending =>
    rw [hd] at hsign
    refine ⟨['-'], rfl, congrArg (front ++ ·) ?_⟩
    rcases hsign with rfl | rfl
    · rw [hcs]
      split
      · next h => exact absurd (List.cons.inj h).1 hminus
      · next h => exact absurd (List.cons.inj h).1 hplus
      · rfl
    · rfl
  | descending =>
    rw [hd] at hsign
    cases hsign
    exact ⟨[], Or.inl rfl, rfl⟩

/-- **Turning its sign round reverses a key.** -/
theorem isWritten_turned (h : k.IsWritten part) : k.reverse.IsWritten (turned part) := by
  obtain ⟨front, _, back, hfront, ⟨sign, path, hsign, hpath, hfield, rfl⟩, hback, rfl⟩ := h
  obtain ⟨sign', hsign', hturned⟩ := turned_signed hfront hsign hpath back
  rw [List.append_assoc, hturned]
  refine ⟨front, sign' ++ path.written.toList, back, hfront, ⟨sign', path, hsign', hpath, hfield,
    rfl⟩, hback, ?_⟩
  rw [List.append_assoc]

end SortKey

/-! ## Texts of sorts -/

namespace Sorting

variable {text : String} {ks : List SortKey} {parts : List (List Char)} {s : Sorting}

/-- A sort text with every sign turned round. -/
def turnedText (text : String) : String :=
  String.ofList ([','].intercalate ((sortParts false [] text.toList).map SortKey.turned))

/-- **Parts in which keys are written**, with commas between them, are the sort of these keys. -/
theorem ofText_joined (hne : ks ≠ []) (h : List.Forall₂ SortKey.IsWritten ks parts) :
    ofText (String.ofList ([','].intercalate parts)) = .ok (ofKeys ks) := by
  refine ofText_eq_ok.2 ⟨ks, rfl, ?_⟩
  have hneutral := neutral_of_written h
  cases h with
  | nil => exact absurd rfl hne
  | cons hk hks =>
    have hparts := sortParts_joined (fun p hp => (hneutral p hp).inside)
      fun p hp => (hneutral p (List.dropLast_subset _ hp)).closed
    rw [String.toList_ofList, intercalate_comma, hparts]
    exact .cons hk hks

/-- The text of a sort holds the texts of its keys. -/
theorem text_eq (s : Sorting) :
    s.text = String.ofList ([','].intercalate (s.keys.map fun k => k.text.toList)) := by
  rw [← String.toList_inj, String.toList_ofList, text, String.toList_intercalate, List.map_map]
  rfl

/-- **Sorts by paths are read back** from their text, unless they have no keys. -/
theorem ofText_text_of_plain (hne : ks ≠ [])
    (h : ∀ k ∈ ks, ∃ path : FieldPath, path.Plain ∧ k.field = path.written) :
    ofText (ofKeys ks).text = .ok (ofKeys ks) := by
  rw [text_eq, keys_ofKeys]
  refine ofText_joined hne ?_
  rw [List.forall₂_map_right_iff, List.forall₂_same]
  exact fun k hk => SortKey.isWritten_text (h k hk)

theorem reverse_ofKeys (ks : List SortKey) :
    (ofKeys ks).reverse = ofKeys (ks.map SortKey.reverse) := by
  match ks with
  | [] => rfl
  | [_] => rfl
  | _ :: _ :: _ => rfl

/-- Every part of a text is a key of its sort, so that there is at least one. -/
theorem keys_ne_nil_of_forall₂
    (h : List.Forall₂ SortKey.IsWritten ks (sortParts false [] text.toList)) : ks ≠ [] := by
  obtain ⟨part, parts, hparts, -⟩ := exists_sortParts false [] text.toList
  rw [hparts] at h
  rintro rfl
  cases h

/-! ## Stored sorts -/

/-- The text that a sort is stored as. -/
def stored (s : Sorting) : String := String.ofList s.json.text

/-- The sort that a stored text stands for. -/
def ofStored? (text : String) : Option Sorting := (Json.read? text).bind Sorting.ofJson?

/-- A stored key is read as what it is. -/
theorem ofJson?_keyJson (k : SortKey) : SortKey.ofJson? k.json = some k := by
  obtain ⟨field, direction⟩ := k
  cases direction <;> rfl

/-- **An array of keys is no key**: the first part of a key is a text. -/
theorem ofJson?_keyJsons (keys : List SortKey) :
    SortKey.ofJson? (.array (keys.map SortKey.json)) = none := by
  match keys with
  | [] => rfl
  | [_] => rfl
  | [_, _] => rfl
  | _ :: _ :: _ :: rest =>
    rw [SortKey.ofJson?, if_pos]
    simp

/-- **A stored sort is read as what it is.** -/
theorem ofJson?_json (s : Sorting) : ofJson? s.json = some s := by
  cases s with
  | single k =>
    show ((SortKey.ofJson? k.json).map Sorting.single).or _ = _
    rw [ofJson?_keyJson]
    rfl
  | several keys =>
    have hkeys : (keys.map SortKey.json).mapM SortKey.ofJson? = some keys := by
      rw [List.mapM_map]
      induction keys with
      | nil => rfl
      | cons k keys ih => simp [List.mapM_cons, ofJson?_keyJson, ih]
    show ((SortKey.ofJson? (.array (keys.map SortKey.json))).map Sorting.single).or
      (((keys.map SortKey.json).mapM SortKey.ofJson?).map Sorting.several) = _
    rw [ofJson?_keyJsons, hkeys]
    rfl

/-- The stored form of a sort holds texts only, and nests little. -/
theorem kept_json (s : Sorting) : s.json.Kept ∧ s.json.depth ≤ 2 := by
  have hkey (k : SortKey) : k.json.Kept ∧ k.json.depth = 1 := ⟨⟨trivial, trivial, trivial⟩, rfl⟩
  cases s with
  | single k => exact ⟨(hkey k).1, Nat.le_trans (Nat.le_of_eq (hkey k).2) (by decide)⟩
  | several keys =>
    constructor
    · refine Json.itemsKept_iff.2 fun j hj => ?_
      obtain ⟨k, -, rfl⟩ := List.mem_map.1 hj
      exact (hkey k).1
    · refine Nat.succ_le_succ (Json.itemsDepth_le_iff.2 fun j hj => ?_)
      obtain ⟨k, -, rfl⟩ := List.mem_map.1 hj
      exact Nat.le_of_eq (hkey k).2

theorem ofStored?_stored (s : Sorting) : ofStored? s.stored = some s := by
  have hdepth : s.json.depth ≤ JsonGrammar.maxDepth := Nat.le_trans (kept_json s).2 (by decide)
  unfold ofStored? stored
  rw [Json.read?_text (kept_json s).1 hdepth, Option.bind_some, ofJson?_json]

/-- **Sorts are read back.** The text of a sort that was read is read as the same sort, with one key
or several as before. The text of the reversed sort is read as that, and so is the text that was
read with every sign turned round. The stored form of any sort is read as the same sort. -/
theorem readBack :
    (∀ text s, ofText text = .ok s → ofText s.text = .ok s ∧
      ofText s.reverse.text = .ok s.reverse ∧ ofText (turnedText text) = .ok s.reverse) ∧
    ∀ s, ofStored? s.stored = some s := by
  refine ⟨fun text s h => ?_, ofStored?_stored⟩
  have hplain := exists_path_of_ofText h
  obtain ⟨ks, rfl, hks⟩ := ofText_eq_ok.1 h
  rw [keys_ofKeys] at hplain
  have hne := keys_ne_nil_of_forall₂ hks
  have hne' : ks.map SortKey.reverse ≠ [] := by simpa using hne
  rw [reverse_ofKeys]
  refine ⟨ofText_text_of_plain hne hplain, ofText_text_of_plain hne' ?_, ofText_joined hne' ?_⟩
  · intro k' hk'
    obtain ⟨k, hk, rfl⟩ := List.mem_map.1 hk'
    exact hplain k hk
  · rw [List.forall₂_map_left_iff, List.forall₂_map_right_iff]
    exact hks.imp fun _ _ => SortKey.isWritten_turned

/-- A comma between quotes, white space, and both signs. -/
theorem readBack_signs : ∃ s : Sorting, ofText " +A[\"b,c\"] ,-D.e , F" = .ok s ∧
    s.text = "A[\"b,c\"],-D.e,F" ∧ ofText "A[\"b,c\"],-D.e,F" = .ok s ∧
      turnedText " +A[\"b,c\"] ,-D.e , F" = " -A[\"b,c\"] ,D.e , -F" ∧
      ofText " -A[\"b,c\"] ,D.e , -F" = .ok s.reverse ∧ ofStored? s.stored = some s := by
  have htext : ofText " +A[\"b,c\"] ,-D.e , F" = .ok (.several [⟨"A[\"b,c\"]", .ascending⟩,
      ⟨"D.e", .descending⟩, ⟨"F", .ascending⟩]) := toOption_eq_some.1 (by decide +kernel)
  have hturned : turnedText " +A[\"b,c\"] ,-D.e , F" = " -A[\"b,c\"] ,D.e , -F" := by
    decide +kernel
  obtain ⟨hsame, -, hreverse⟩ := readBack.1 _ _ htext
  refine ⟨_, htext, by decide +kernel, hsame, hturned, ?_, readBack.2 _⟩
  rw [← hturned]
  exact hreverse

end Sorting

end Sift
