import Sift.Proofs.JsonNumber

/-!
# JSON texts read back

* `Json.Kept`, `Json.depth`: values whose doubles are read back, and how deep arrays and objects
  nest in a value.
* `JsonGrammar.reads_quoted`: a string is read back.
* `JsonGrammar.reads_value`: a value is read back where it does not nest too deep.
* `JsonGrammar.fails_value`: elsewhere it is refused.
* `Json.read?_text`, `Json.read?_eq_none`: the same for whole texts.
* `Json.kept_float_iff`: a double is read back within other values if it is by itself;
  `Json.kept_float_of_small`: if its digits are few; `Json.exists_changed_float`: some are not.
-/

namespace Sift

open Scan

namespace Json

mutual

/-- How deep arrays and objects nest in a value. -/
def depth : Json → Nat
  | array items => itemsDepth items + 1
  | object members => membersDepth members + 1
  | _ => 0

/-- How deep arrays and objects nest in several values. -/
def itemsDepth : List Json → Nat
  | [] => 0
  | item :: rest => max item.depth (itemsDepth rest)

/-- How deep arrays and objects nest in the members of an object. -/
def membersDepth : List (String × Json) → Nat
  | [] => 0
  | (_, value) :: rest => max value.depth (membersDepth rest)

end

mutual

/-- The values whose doubles are read back: all others are. -/
def Kept : Json → Prop
  | null | boolean _ | integer _ | string _ => True
  | float f => ∃ x : Numeral, x.text = floatText f ∧ x.value? = some (.float f)
  | array items => ItemsKept items
  | object members => MembersKept members

/-- Several such values. -/
def ItemsKept : List Json → Prop
  | [] => True
  | item :: rest => item.Kept ∧ ItemsKept rest

/-- Members with such values. -/
def MembersKept : List (String × Json) → Prop
  | [] => True
  | (_, value) :: rest => value.Kept ∧ MembersKept rest

end

theorem itemsKept_iff {items : List Json} : ItemsKept items ↔ ∀ j ∈ items, j.Kept := by
  induction items with
  | nil => simp [ItemsKept]
  | cons j items ih => simp [ItemsKept, ih]

theorem membersKept_iff {members : List (String × Json)} :
    MembersKept members ↔ ∀ m ∈ members, m.2.Kept := by
  induction members with
  | nil => simp [MembersKept]
  | cons m members ih => simp [MembersKept, ih]

theorem itemsDepth_le_iff {items : List Json} {n : Nat} :
    itemsDepth items ≤ n ↔ ∀ j ∈ items, j.depth ≤ n := by
  induction items with
  | nil => simp [itemsDepth]
  | cons j items ih => rw [itemsDepth, Nat.max_le, ih, List.forall_mem_cons]

theorem membersDepth_le_iff {members : List (String × Json)} {n : Nat} :
    membersDepth members ≤ n ↔ ∀ m ∈ members, m.2.depth ≤ n := by
  induction members with
  | nil => simp [membersDepth]
  | cons m members ih => rw [membersDepth, Nat.max_le, ih, List.forall_mem_cons]

theorem lt_itemsDepth_iff {items : List Json} {n : Nat} :
    n < itemsDepth items ↔ ∃ j ∈ items, n < j.depth := by
  have h : itemsDepth items ≤ n ↔ ∀ j ∈ items, j.depth ≤ n := itemsDepth_le_iff
  simpa using not_congr h

theorem lt_membersDepth_iff {members : List (String × Json)} {n : Nat} :
    n < membersDepth members ↔ ∃ m ∈ members, n < m.2.depth := by
  have h : membersDepth members ≤ n ↔ ∀ m ∈ members, m.2.depth ≤ n := membersDepth_le_iff
  simpa using not_congr h

end Json

namespace JsonGrammar

variable {rest : List Char}

/-! ## Strings -/

theorem fails_plainCharacter {c : Char} {cs : List Char}
    (h : c.toNat < 32 ∨ c = '"' ∨ c = '\\') :
    Fails (char fun c => 32 ≤ c.toNat && c != '"' && c != '\\') (c :: cs) := by
  refine fails_char fun d hd => ?_
  cases hd
  rcases h with h | rfl | rfl
  · have hlt : ¬32 ≤ c.toNat := by omega
    simp [hlt]
  · decide
  · decide

/-- A letter after a backslash is read as what it stands for. -/
theorem reads_escaped {c d : Char} (hu : d ≠ 'u') (h : escaped? d = some c) :
    Reads character (· = c) ('\\' :: d :: rest) rest := by
  refine Reads.orElse_right (fails_plainCharacter (Or.inr (Or.inr rfl))) ?_
  refine Reads.exactly_bind ?_
  refine Reads.orElse_right (fails_exactly (by simpa using hu)).bind ?_
  refine (Reads.char (P := (· = d)) (by rw [h]; rfl) rfl).bind_eq ?_
  exact Reads.pure (by rw [h]; rfl)

theorem reads_hexDigit {n value : Nat} {d : Char} {k : Nat} (h : Number.hexValue? d = some k)
    {P : Nat → Prop} {cs after : List Char}
    (hrest : Reads (hexNumber n (16 * value + k)) P cs after) :
    Reads (hexNumber (n + 1) value) P (d :: cs) after := by
  refine (Reads.char (P := (· = d)) (by rw [h]; rfl) rfl).bind_eq ?_
  rwa [h, Option.getD_some]

theorem hexValue?_digitChar : ∀ k < 16, Number.hexValue? (Nat.digitChar k) = some k := by decide

/-- A control character is read back from its code. -/
theorem reads_control {c : Char} (h : c.toNat < 32) :
    Reads character (· = c) (['\\', 'u', '0', '0', Nat.digitChar (c.toNat / 16),
      Nat.digitChar (c.toNat % 16)] ++ rest) rest := by
  have hhigh := hexValue?_digitChar (c.toNat / 16) (by omega)
  have hlow := hexValue?_digitChar (c.toNat % 16) (by omega)
  have hzero : Number.hexValue? '0' = some 0 := by decide
  have hnumber : Reads (hexNumber 4 0) (· = c.toNat) ('0' :: '0' :: Nat.digitChar (c.toNat / 16) ::
      Nat.digitChar (c.toNat % 16) :: rest) rest := by
    refine reads_hexDigit hzero (reads_hexDigit hzero (reads_hexDigit hhigh (reads_hexDigit hlow
      (Reads.pure ?_))))
    omega
  refine Reads.orElse_right (fails_plainCharacter (Or.inr (Or.inr rfl))) ?_
  refine Reads.exactly_bind ?_
  refine Reads.orElse_left (Reads.exactly_bind ?_)
  -- no half of a surrogate pair is below 32
  refine hnumber.bind_eq ?_
  rw [if_neg (by omega), if_neg (by omega)]
  exact Reads.pure (Char.ofNat_toNat c)

/-- **A character of a string is read back.** -/
theorem reads_character (c : Char) : Reads character (· = c) (Json.escape c ++ rest) rest := by
  have hcode : ∀ n < 32, c.toNat = n → c = Char.ofNat n := by
    rintro n - rfl
    exact (Char.ofNat_toNat c).symm
  unfold Json.escape
  -- quote and backslash, the five short escapes, the other control characters, all others
  split
  · next h =>
    rcases h with rfl | rfl
    · exact reads_escaped (by decide) rfl
    · exact reads_escaped (by decide) rfl
  split
  · next h => rw [h]; exact reads_escaped (by decide) rfl
  split
  · next h => rw [h]; exact reads_escaped (by decide) rfl
  split
  · next h => rw [h]; exact reads_escaped (by decide) rfl
  split
  · next h => rw [hcode 8 (by decide) h]; exact reads_escaped (by decide) rfl
  split
  · next h => rw [hcode 12 (by decide) h]; exact reads_escaped (by decide) rfl
  split
  · next h => exact reads_control h
  · next hspecial _ _ _ _ _ h =>
    rw [not_or] at hspecial
    have hle : 32 ≤ c.toNat := by omega
    exact Reads.orElse_left (Reads.char (by simp [hle, hspecial.1, hspecial.2]) rfl)

theorem escape_ne_nil (c : Char) : Json.escape c ≠ [] := by
  unfold Json.escape
  repeat' split
  all_goals simp

theorem readsMany_character (cs : List Char) :
    ReadsMany character (· = cs) (cs.flatMap Json.escape ++ '"' :: rest) ('"' :: rest) := by
  induction cs with
  | nil =>
    exact ReadsMany.nil (Fails.orElse (fails_plainCharacter (Or.inr (Or.inl rfl)))
      (fails_exactly (by simp)).bind) rfl
  | cons c cs ih =>
    rw [List.flatMap_cons, List.append_assoc]
    refine ReadsMany.cons (reads_character c) ?_ ih ?_
    · have hpos := List.length_pos_iff.2 (escape_ne_nil c)
      simp only [List.length_append]
      omega
    · rintro _ _ rfl rfl
      rfl

/-- **A string is read back.** -/
theorem reads_quoted (s : String) : Reads quoted (· = s) (Json.stringText s ++ rest) rest := by
  unfold Json.stringText
  simp only [List.cons_append, List.append_assoc, List.nil_append]
  refine Reads.exactly_bind ?_
  refine (readsMany_character s.toList).many.bind_eq ?_
  refine Reads.exactly_bind ?_
  exact Reads.pure String.ofList_toList

theorem fails_quoted (h : ∀ c ∈ rest.head?, c ≠ '"') : Fails quoted rest := (fails_exactly h).bind

/-! ## Values with commas between them -/

variable {α : Type} {item : Scan α} {written : α → List Char}

/-- Texts with commas between them. -/
def commaText (written : α → List Char) : List α → List Char
  | [] => []
  | a :: as => written a ++ as.flatMap fun b => ',' :: written b

/-- Whether a scanner reads an item wherever it is written, and no number goes on behind it. -/
def ReadsItem (item : Scan α) (written : α → List Char) (a : α) : Prop :=
  ∀ rest, EndsNumber rest → Reads item (· = a) (written a ++ rest) rest

/-- Whether a scanner fails wherever an item is written. -/
def FailsItem (item : Scan α) (written : α → List Char) (a : α) : Prop :=
  ∀ rest, Fails item (written a ++ rest)

/-- An item begins with something that is neither white space nor a closing bracket. -/
def Begins (written : α → List Char) (close : Char) (a : α) : Prop :=
  ∃ c cs, written a = c :: cs ∧ Scan.isBlank c = false ∧ c ≠ close

variable {close : Char} {a : α}

theorem Begins.afterBlanks (h : Begins written close a) (cs : List Char) :
    afterBlanks (written a ++ cs) = written a ++ cs := by
  obtain ⟨c, ds, hwritten, hblank, -⟩ := h
  rw [hwritten]
  exact afterBlanks_of_head (by simpa using hblank)

theorem Begins.head_ne (h : Begins written close a) (cs : List Char) :
    ∀ c ∈ (written a ++ cs).head?, c ≠ close := by
  obtain ⟨c, ds, hwritten, -, hclose⟩ := h
  rw [hwritten]
  simpa using hclose

/-- An item after a comma. -/
def nextItem (item : Scan α) : Scan α := do
  spaced (exactly ',')
  spaced item

theorem reads_comma (cs : List Char) :
    Reads (spaced (exactly ',')) (fun _ => True) (',' :: cs) cs :=
  Reads.spaced_to rfl (Reads.exactly trivial)

theorem endsNumber_cons {c : Char} (h : c ∈ [',', ']', '}']) (cs : List Char) :
    EndsNumber (c :: cs) := by
  have hends : ∀ c ∈ [',', ']', '}'], c.isDigit = false ∧ c ≠ '.' ∧ c ≠ 'e' ∧ c ≠ 'E' :=
    forall_mem_of_all (by decide)
  rintro d ⟨⟩
  exact hends c h

/-- Behind an item there is a comma, or what stands behind all of them. -/
theorem endsNumber_items (written : α → List Char) (as : List α) {cs : List Char}
    (hcs : EndsNumber cs) :
    EndsNumber (as.flatMap (fun b => ',' :: written b) ++ cs) := by
  cases as with
  | nil => exact hcs
  | cons a as => exact endsNumber_cons (by simp) _

theorem readsMany_nextItem {as : List α} (hbegins : ∀ a ∈ as, Begins written close a)
    (hitem : ∀ a ∈ as, ReadsItem item written a)
    {cs : List Char} (hends : EndsNumber cs) (hcs : Fails (nextItem item) cs) :
    ReadsMany (nextItem item) (· = as) (as.flatMap (fun b => ',' :: written b) ++ cs) cs := by
  induction as with
  | nil => exact ReadsMany.nil hcs rfl
  | cons a as ih =>
    rw [List.forall_mem_cons] at hbegins hitem
    rw [List.flatMap_cons, List.append_assoc, List.cons_append]
    refine ReadsMany.cons ((reads_comma _).bind fun _ _ =>
      Reads.spaced_to (hbegins.1.afterBlanks _) (hitem.1 _ (endsNumber_items written as hends))) ?_
      (ih hbegins.2 hitem.2) ?_
    · simp only [List.length_cons, List.length_append]
      omega
    · rintro _ _ rfl rfl
      rfl

theorem fails_nextItem {c : Char} {cs : List Char} (hblank : Scan.isBlank c = false)
    (hc : c ≠ ',') : Fails (nextItem item) (c :: cs) := by
  refine Fails.bind (Fails.spaced (fails_exactly ?_))
  rw [afterBlanks_of_head (by simpa using hblank)]
  simpa using hc

/-- The first of several items that cannot be read. -/
theorem exists_first_failing {as : List α} (hitem : ∀ a ∈ as, ReadsItem item written a ∨
    FailsItem item written a) (hfails : ∃ a ∈ as, FailsItem item written a) :
    ∃ before a after, as = before ++ a :: after ∧ (∀ b ∈ before, ReadsItem item written b) ∧
      FailsItem item written a := by
  induction as with
  | nil => obtain ⟨a, ha, -⟩ := hfails; cases ha
  | cons a as ih =>
    rw [List.forall_mem_cons] at hitem
    rcases hitem.1 with ha | ha
    -- an item may be read here and fail later, so the first failing one is looked for
    · by_cases hhere : FailsItem item written a
      · exact ⟨[], a, as, rfl, by simp, hhere⟩
      · have hlater : ∃ b ∈ as, FailsItem item written b := by
          obtain ⟨b, hb, hfb⟩ := hfails
          rcases List.mem_cons.1 hb with rfl | hb
          · exact absurd hfb hhere
          · exact ⟨b, hb, hfb⟩
        obtain ⟨before, b, after, rfl, hbefore, hb⟩ := ih hitem.2 hlater
        exact ⟨a :: before, b, after, rfl, List.forall_mem_cons.2 ⟨ha, hbefore⟩, hb⟩
    · exact ⟨[], a, as, rfl, by simp, ha⟩

theorem reads_listed_nil {cs : List Char} (h : Fails item (afterBlanks cs)) :
    Reads (listed item) (· = []) cs (afterBlanks cs) := by
  refine Reads.bind_eq (Reads.spaced (Reads.optional_none h rfl)) ?_
  exact Reads.pure rfl

/-- Items are read up to where no other follows. -/
theorem reads_listed_cons {as : List α} (hbegins : ∀ b ∈ a :: as, Begins written close b)
    (hitem : ∀ b ∈ a :: as, ReadsItem item written b) {stop : List Char}
    (hends : EndsNumber stop) (hstop : Fails (nextItem item) stop) :
    Reads (listed item) (· = a :: as) (commaText written (a :: as) ++ stop) (afterBlanks stop) := by
  rw [List.forall_mem_cons] at hbegins hitem
  rw [commaText, List.append_assoc]
  have hfirst := hitem.1 _ (endsNumber_items written as hends)
  refine Reads.bind_eq (Reads.spaced_to (hbegins.1.afterBlanks _)
    (Reads.optional_some (hfirst.mono fun _ h => congrArg some h))) ?_
  refine (readsMany_nextItem hbegins.2 hitem.2 hends hstop).many.bind_eq ?_
  exact Reads.blanks_bind (Reads.pure rfl)

/-- What stands behind the opening bracket of an array or an object. -/
def listedUntil (item : Scan α) (close : Char) (whole : List α → Json) : Scan Json := do
  let items ← listed item
  exactly close
  return whole items

theorem reads_listedUntil (whole : List α → Json) {as : List α}
    (hbegins : ∀ a ∈ as, Begins written close a) (hitem : ∀ a ∈ as, ReadsItem item written a)
    (hblank : Scan.isBlank close = false) (hcomma : close ≠ ',')
    (hends : EndsNumber (close :: rest)) (hclose : Fails item (close :: rest)) :
    Reads (listedUntil item close whole) (· = whole as) (commaText written as ++ close :: rest)
      rest := by
  have hblanks : afterBlanks (close :: rest) = close :: rest :=
    afterBlanks_of_head (by simpa using hblank)
  have hlisted : Reads (listed item) (· = as) (commaText written as ++ close :: rest)
      (afterBlanks (close :: rest)) := by
    cases as with
    | nil => exact reads_listed_nil (hblanks.symm ▸ hclose)
    | cons a as => exact reads_listed_cons hbegins hitem hends (fails_nextItem hblank hcomma)
  rw [hblanks] at hlisted
  refine hlisted.bind_eq ?_
  exact Reads.exactly_bind (Reads.pure rfl)

/-- No closing bracket is ahead where an item cannot be read. -/
theorem fails_listedUntil (whole : List α → Json) {as : List α}
    (hbegins : ∀ a ∈ as, Begins written close a)
    (hitem : ∀ a ∈ as, ReadsItem item written a ∨ FailsItem item written a)
    (hfails : ∃ a ∈ as, FailsItem item written a) (hcomma : close ≠ ',') (cs : List Char) :
    Fails (listedUntil item close whole) (commaText written as ++ cs) := by
  obtain ⟨before, a, after, rfl, hbefore, ha⟩ := exists_first_failing hitem hfails
  have hbegin := hbegins a (List.mem_append_right _ List.mem_cons_self)
  cases before with
  | nil =>
    rw [List.nil_append, commaText, List.append_assoc]
    refine (reads_listed_nil (by rw [hbegin.afterBlanks]; exact ha _)).bind_fails fun _ _ => ?_
    rw [hbegin.afterBlanks]
    exact (fails_exactly (hbegin.head_ne _)).bind
  | cons b before =>
    -- the list stops at the comma before the item, where a bracket should be
    have hstop : Fails (nextItem item) (',' :: (written a ++
        (after.flatMap (fun b => ',' :: written b) ++ cs))) := by
      refine (reads_comma _).bind_fails fun _ _ => Fails.spaced ?_
      rw [hbegin.afterBlanks]
      exact ha _
    have hlisted := reads_listed_cons (fun c hc => hbegins c (List.mem_append_left _ hc)) hbefore
      (endsNumber_cons (by simp) _) hstop
    have htext : commaText written (b :: before ++ a :: after) ++ cs =
        commaText written (b :: before) ++ ',' :: (written a ++
          (after.flatMap (fun b => ',' :: written b) ++ cs)) := by
      simp [commaText]
    rw [htext]
    refine hlisted.bind_fails fun _ _ => (fails_exactly ?_).bind
    rw [afterBlanks_of_head (by simp [Scan.isBlank])]
    simpa using hcomma.symm

/-! ## Single values -/

theorem reads_fixed (cs : List Char) : Reads (fixed cs) (fun _ => True) (cs ++ rest) rest := by
  induction cs with
  | nil => exact Reads.pure trivial
  | cons c cs ih => exact Reads.exactly_bind ih

theorem fails_fixed {c : Char} {cs : List Char} (h : ∀ d ∈ rest.head?, d ≠ c) :
    Fails (fixed (c :: cs)) rest :=
  (fails_exactly h).bind

theorem fails_number (h : ∀ c ∈ rest.head?, c ≠ '-' ∧ c.isDigit = false) : Fails number rest := by
  refine Reads.bind_fails (P := fun _ => True)
    (Reads.optional_none (fails_exactly fun c hc => (h c hc).1) trivial) fun _ _ => ?_
  exact Fails.bind (Fails.bind (Fails.bind (fails_char fun c hc => (h c hc).2)))

/-- No value by itself begins with a bracket. -/
theorem fails_scalar {c : Char} (hc : c ∈ ['[', '{', ']', '}']) : Fails scalar (c :: rest) := by
  have hne : ∀ c ∈ ['[', '{', ']', '}'],
      c ≠ 'n' ∧ c ≠ 't' ∧ c ≠ 'f' ∧ c ≠ '"' ∧ c ≠ '-' ∧ c.isDigit = false :=
    forall_mem_of_all (by decide)
  obtain ⟨hn, ht, hf, hquote, hnumber⟩ := hne c hc
  exact Fails.orElse (fails_fixed (by simpa using hn)).bind (Fails.orElse
    (fails_fixed (by simpa using ht)).bind (Fails.orElse (fails_fixed (by simpa using hf)).bind
      (Fails.orElse (fails_quoted (by simpa using hquote)).map
        (fails_number (by simpa using hnumber)))))

/-- What begins a number begins no other value. -/
theorem numberHead_ne {c : Char} (hc : c = '-' ∨ c.isDigit = true) :
    c ∉ ['n', 't', 'f', '"', '[', '{', ']', '}'] ∧ Scan.isBlank c = false := by
  rcases hc with rfl | hc
  · decide
  · have hnone : ∀ d ∈ ['n', 't', 'f', '"', '[', '{', ']', '}', ' ', '\t', '\r', '\n'],
        d.isDigit = false := forall_mem_of_all (by decide)
    have hne : ∀ d ∈ ['n', 't', 'f', '"', '[', '{', ']', '}', ' ', '\t', '\r', '\n'], c ≠ d := by
      rintro d hd rfl
      rw [hnone c hd] at hc
      cases hc
    simp only [List.forall_mem_cons] at hne
    obtain ⟨hn, ht, hf, hquote, hopen, hopen', hclose, hclose', hblank⟩ := hne
    constructor
    · simp [hn, ht, hf, hquote, hopen, hopen', hclose, hclose']
    · simp [Scan.isBlank, hblank.1, hblank.2.1, hblank.2.2.1, hblank.2.2.2]

section Numbers

variable {x : Json.Numeral} {j : Json}

/-- A number is none of the other values. -/
theorem reads_scalar_number (h : x.value? = some j) (hends : EndsNumber rest) :
    Reads scalar (· = j) (x.text ++ rest) rest := by
  obtain ⟨c, cs, htext, hc⟩ := x.exists_head
  obtain ⟨hother, -⟩ := numberHead_ne hc
  simp only [List.mem_cons, not_or] at hother
  obtain ⟨hn, ht, hf, hquote, -⟩ := hother
  have hnumber := reads_number h hends
  rw [htext, List.cons_append] at hnumber ⊢
  exact Reads.orElse_right (fails_fixed (by simpa using hn)).bind (Reads.orElse_right
    (fails_fixed (by simpa using ht)).bind (Reads.orElse_right
      (fails_fixed (by simpa using hf)).bind (Reads.orElse_right
        (fails_quoted (by simpa using hquote)).map hnumber)))

/-- A number beyond every double is no value. -/
theorem fails_value_number (h : x.value? = none) (hends : EndsNumber rest) (depth : Nat) :
    Fails (JsonGrammar.value depth) (x.text ++ rest) := by
  obtain ⟨c, cs, htext, hc⟩ := x.exists_head
  obtain ⟨hother, -⟩ := numberHead_ne hc
  simp only [List.mem_cons, not_or] at hother
  obtain ⟨hn, ht, hf, hquote, hopen, hopen', -⟩ := hother
  have hnumber := fails_number_of_none h hends
  rw [htext, List.cons_append] at hnumber ⊢
  have hscalar : Fails scalar (c :: (cs ++ rest)) :=
    Fails.orElse (fails_fixed (by simpa using hn)).bind (Fails.orElse
      (fails_fixed (by simpa using ht)).bind (Fails.orElse (fails_fixed (by simpa using hf)).bind
        (Fails.orElse (fails_quoted (by simpa using hquote)).map hnumber)))
  cases depth with
  | zero => exact hscalar
  | succ depth =>
    exact Fails.orElse hscalar (Fails.orElse (fails_exactly (by simpa using hopen)).bind
      (fails_exactly (by simpa using hopen')).bind)

end Numbers

theorem reads_scalar {j : Json} (h : j.Kept) (hdepth : j.depth = 0) :
    ReadsItem scalar Json.text j := by
  intro rest hends
  cases j with
  | null =>
    exact Reads.orElse_left ((reads_fixed ['n', 'u', 'l', 'l']).bind fun _ _ => Reads.pure rfl)
  | boolean b =>
    refine Reads.orElse_right ?_ ?_
    · cases b <;> exact (fails_fixed (by simp [Json.text])).bind
    · cases b with
      | true =>
        exact Reads.orElse_left ((reads_fixed ['t', 'r', 'u', 'e']).bind fun _ _ => Reads.pure rfl)
      | false =>
        exact Reads.orElse_right (fails_fixed (by simp [Json.text])).bind (Reads.orElse_left
          ((reads_fixed ['f', 'a', 'l', 's', 'e']).bind fun _ _ => Reads.pure rfl))
  | string s =>
    refine Reads.orElse_right (fails_fixed (by simp [Json.text, Json.stringText])).bind
      (Reads.orElse_right (fails_fixed (by simp [Json.text, Json.stringText])).bind
        (Reads.orElse_right (fails_fixed (by simp [Json.text, Json.stringText])).bind
          (Reads.orElse_left ((reads_quoted s).map ?_))))
    rintro _ rfl
    rfl
  | integer i =>
    have hread := reads_scalar_number (Json.Numeral.value?_ofInt i) hends
    rwa [Json.Numeral.text_ofInt] at hread
  | float f =>
    obtain ⟨x, htext, hvalue⟩ := h
    have hread := reads_scalar_number hvalue hends
    rwa [htext] at hread
  | array items => cases hdepth
  | object members => cases hdepth

/-! ## Arrays and objects -/

/-- A member of an object as it is written. -/
def memberText (m : String × Json) : List Char := Json.stringText m.1 ++ ':' :: m.2.text

theorem itemsText_eq (items : List Json) : Json.itemsText items = commaText Json.text items := by
  induction items with
  | nil => rfl
  | cons j items ih =>
    cases items with
    | nil => rw [Json.itemsText, commaText, List.flatMap_nil, List.append_nil]
    | cons k items =>
      rw [Json.itemsText, ih]
      · rfl
      · simp

theorem membersText_eq (members : List (String × Json)) :
    Json.membersText members = commaText memberText members := by
  induction members with
  | nil => rfl
  | cons m members ih =>
    cases members with
    | nil => rw [Json.membersText, commaText, List.flatMap_nil, List.append_nil]; rfl
    | cons k members =>
      rw [Json.membersText, ih]
      · simp only [commaText, memberText, List.flatMap_cons, List.append_assoc, List.cons_append]
      · simp

theorem begins_number {j : Json} {x : Json.Numeral} (h : j.text = x.text) {close : Char}
    (hclose : close = ']' ∨ close = '}') : Begins Json.text close j := by
  obtain ⟨c, cs, htext, hc⟩ := x.exists_head
  obtain ⟨hother, hblank⟩ := numberHead_ne hc
  refine ⟨c, cs, h.trans htext, hblank, ?_⟩
  rintro rfl
  exact hother (by rcases hclose with rfl | rfl <;> simp)

theorem begins_text {j : Json} (h : j.Kept) {close : Char} (hclose : close = ']' ∨ close = '}') :
    Begins Json.text close j := by
  have hne : ∀ c ∈ ['n', 't', 'f', '"', '[', '{'], Scan.isBlank c = false ∧ c ≠ close := by
    rcases hclose with rfl | rfl <;> exact forall_mem_of_all (by decide)
  cases j with
  | null => exact ⟨'n', _, rfl, hne _ (by simp)⟩
  | boolean b =>
    cases b with
    | true => exact ⟨'t', _, rfl, hne _ (by simp)⟩
    | false => exact ⟨'f', _, rfl, hne _ (by simp)⟩
  | string s => exact ⟨'"', _, rfl, hne _ (by simp)⟩
  | integer i => exact begins_number (j := .integer i) (Json.Numeral.text_ofInt i.toInt).symm hclose
  | float f =>
    obtain ⟨x, htext, -⟩ := h
    exact begins_number (j := .float f) htext.symm hclose
  | array items => exact ⟨'[', _, rfl, hne _ (by simp)⟩
  | object members => exact ⟨'{', _, rfl, hne _ (by simp)⟩

theorem begins_memberText (m : String × Json) : Begins memberText '}' m :=
  ⟨'"', _, rfl, by decide, by decide⟩

variable {value : Scan Json}

theorem reads_pair {m : String × Json} (h : m.2.Kept) (hvalue : ReadsItem value Json.text m.2) :
    ReadsItem (pair value) memberText m := by
  intro rest hends
  have hblanks := (begins_text h (Or.inl rfl)).afterBlanks rest
  unfold memberText
  rw [List.append_assoc, List.cons_append]
  refine (reads_quoted m.1).bind_eq ?_
  refine (Reads.spaced_to (P := fun _ => True) rfl (Reads.exactly trivial)).bind fun _ _ => ?_
  refine (Reads.spaced_to hblanks (hvalue rest hends)).bind_eq ?_
  exact Reads.pure rfl

theorem fails_pair {m : String × Json} (h : m.2.Kept) (hvalue : FailsItem value Json.text m.2) :
    FailsItem (pair value) memberText m := by
  intro rest
  have hblanks := (begins_text h (Or.inl rfl)).afterBlanks rest
  unfold memberText
  rw [List.append_assoc, List.cons_append]
  refine (reads_quoted m.1).bind_fails fun _ _ => ?_
  refine (Reads.spaced_to (P := fun _ => True) rfl (Reads.exactly trivial)).bind_fails fun _ _ => ?_
  refine Fails.bind (Fails.spaced ?_)
  rw [hblanks]
  exact hvalue rest

theorem value_succ (depth : Nat) :
    JsonGrammar.value (depth + 1) = (scalar <|>
      (exactly '[' >>= fun _ => listedUntil (JsonGrammar.value depth) ']' .array) <|>
      (exactly '{' >>= fun _ => listedUntil (pair (JsonGrammar.value depth)) '}' .object)) := rfl

theorem fails_value_close (depth : Nat) : Fails (JsonGrammar.value depth) (']' :: rest) := by
  have hscalar : Fails scalar (']' :: rest) := fails_scalar (by simp)
  cases depth with
  | zero => exact hscalar
  | succ depth =>
    rw [value_succ]
    exact Fails.orElse hscalar
      (Fails.orElse (fails_exactly (by simp)).bind (fails_exactly (by simp)).bind)

theorem fails_pair_close : Fails (pair value) ('}' :: rest) := (fails_quoted (by simp)).bind

theorem reads_array {depth : Nat} {items : List Json} (hkept : ∀ j ∈ items, j.Kept)
    (h : ∀ j ∈ items, ReadsItem (JsonGrammar.value depth) Json.text j) :
    ReadsItem (JsonGrammar.value (depth + 1)) Json.text (.array items) := by
  intro rest _
  have hclose : Fails (JsonGrammar.value depth) (']' :: rest) := fails_value_close depth
  have hinner := reads_listedUntil .array
    (fun j hj => begins_text (hkept j hj) (Or.inl rfl)) h (by decide) (by decide)
    (endsNumber_cons (by simp) rest) hclose
  rw [value_succ, Json.text, itemsText_eq]
  simp only [List.cons_append, List.append_assoc, List.nil_append]
  exact Reads.orElse_right (fails_scalar (by simp))
    (Reads.orElse_left (Reads.exactly_bind hinner))

theorem reads_object {depth : Nat} {members : List (String × Json)}
    (hkept : ∀ m ∈ members, m.2.Kept)
    (h : ∀ m ∈ members, ReadsItem (JsonGrammar.value depth) Json.text m.2) :
    ReadsItem (JsonGrammar.value (depth + 1)) Json.text (.object members) := by
  intro rest _
  have hclose : Fails (pair (JsonGrammar.value depth)) ('}' :: rest) := fails_pair_close
  have hinner := reads_listedUntil .object (fun m _ => begins_memberText m)
    (fun m hm => reads_pair (hkept m hm) (h m hm)) (by decide) (by decide)
    (endsNumber_cons (by simp) rest) hclose
  rw [value_succ, Json.text, membersText_eq]
  simp only [List.cons_append, List.append_assoc, List.nil_append]
  exact Reads.orElse_right (fails_scalar (by simp))
    (Reads.orElse_right (fails_exactly (by simp)).bind
      (Reads.exactly_bind hinner))

theorem fails_array {depth : Nat} {items : List Json} (hkept : ∀ j ∈ items, j.Kept)
    (h : ∀ j ∈ items, ReadsItem (JsonGrammar.value depth) Json.text j ∨
      FailsItem (JsonGrammar.value depth) Json.text j)
    (hfails : ∃ j ∈ items, FailsItem (JsonGrammar.value depth) Json.text j) :
    FailsItem (JsonGrammar.value (depth + 1)) Json.text (.array items) := by
  intro rest
  have hinner := fails_listedUntil .array
    (fun j hj => begins_text (hkept j hj) (Or.inl rfl)) h hfails (by decide) (']' :: rest)
  rw [value_succ, Json.text, itemsText_eq]
  simp only [List.cons_append, List.append_assoc, List.nil_append]
  exact Fails.orElse (fails_scalar (by simp)) (Fails.orElse
    (Fails.exactly_bind hinner)
    (fails_exactly (by simp)).bind)

theorem fails_object {depth : Nat} {members : List (String × Json)}
    (hkept : ∀ m ∈ members, m.2.Kept)
    (h : ∀ m ∈ members, ReadsItem (JsonGrammar.value depth) Json.text m.2 ∨
      FailsItem (JsonGrammar.value depth) Json.text m.2)
    (hfails : ∃ m ∈ members, FailsItem (JsonGrammar.value depth) Json.text m.2) :
    FailsItem (JsonGrammar.value (depth + 1)) Json.text (.object members) := by
  intro rest
  have hpairs : ∀ m ∈ members, ReadsItem (pair (JsonGrammar.value depth)) memberText m ∨
      FailsItem (pair (JsonGrammar.value depth)) memberText m :=
    fun m hm => (h m hm).imp (reads_pair (hkept m hm)) (fails_pair (hkept m hm))
  obtain ⟨m, hm, hfail⟩ := hfails
  have hinner := fails_listedUntil .object (fun m _ => begins_memberText m) hpairs
    ⟨m, hm, fails_pair (hkept m hm) hfail⟩ (by decide) ('}' :: rest)
  rw [value_succ, Json.text, membersText_eq]
  simp only [List.cons_append, List.append_assoc, List.nil_append]
  exact Fails.orElse (fails_scalar (by simp)) (Fails.orElse (fails_exactly (by simp)).bind
    (Fails.exactly_bind hinner))

/-- A value that is no array and no object is read whatever the depth. -/
theorem reads_value_scalar (depth : Nat) {j : Json} (h : j.Kept) (hdepth : j.depth = 0) :
    ReadsItem (JsonGrammar.value depth) Json.text j := by
  intro rest hends
  cases depth with
  | zero => exact reads_scalar h hdepth rest hends
  | succ depth => exact Reads.orElse_left (reads_scalar h hdepth rest hends)

/-- **A value is read back where it does not nest too deep.** -/
theorem reads_value (depth : Nat) {j : Json} (h : j.Kept) (hdepth : j.depth ≤ depth) :
    ReadsItem (JsonGrammar.value depth) Json.text j := by
  induction depth generalizing j with
  | zero => exact reads_value_scalar 0 h (Nat.le_zero.1 hdepth)
  | succ depth ih =>
    cases j with
    | array items =>
      have hkept := Json.itemsKept_iff.1 h
      have hshallow := Json.itemsDepth_le_iff.1 (Nat.le_of_succ_le_succ hdepth)
      exact reads_array hkept fun j hj => ih (hkept j hj) (hshallow j hj)
    | object members =>
      have hkept := Json.membersKept_iff.1 h
      have hshallow := Json.membersDepth_le_iff.1 (Nat.le_of_succ_le_succ hdepth)
      exact reads_object hkept fun m hm => ih (hkept m hm) (hshallow m hm)
    | _ => exact reads_value_scalar _ h rfl

/-- **A value that nests too deep is refused.** -/
theorem fails_value (depth : Nat) {j : Json} (h : j.Kept) (hdepth : depth < j.depth) :
    FailsItem (JsonGrammar.value depth) Json.text j := by
  induction depth generalizing j with
  | zero =>
    intro rest
    cases j with
    | array items => exact fails_scalar (by simp)
    | object members => exact fails_scalar (by simp)
    | _ => exact absurd hdepth (by simp [Json.depth])
  | succ depth ih =>
    have heither : ∀ {j : Json}, j.Kept → ReadsItem (JsonGrammar.value depth) Json.text j ∨
        FailsItem (JsonGrammar.value depth) Json.text j := fun {j} hj =>
      (Nat.lt_or_ge depth j.depth).symm.imp (reads_value depth hj) (ih hj)
    cases j with
    | array items =>
      have hkept := Json.itemsKept_iff.1 h
      obtain ⟨j, hj, hlt⟩ := Json.lt_itemsDepth_iff.1 (Nat.lt_of_succ_lt_succ hdepth)
      exact fails_array hkept (fun j hj => heither (hkept j hj)) ⟨j, hj, ih (hkept j hj) hlt⟩
    | object members =>
      have hkept := Json.membersKept_iff.1 h
      obtain ⟨m, hm, hlt⟩ := Json.lt_membersDepth_iff.1 (Nat.lt_of_succ_lt_succ hdepth)
      exact fails_object hkept (fun m hm => heither (hkept m hm)) ⟨m, hm, ih (hkept m hm) hlt⟩
    | _ => exact absurd hdepth (by simp [Json.depth])

end JsonGrammar

namespace Json

open JsonGrammar

variable {j : Json} {cs : List Char}

/-- A whole text is read as what stands between the white space around it. -/
theorem read?_of_reads (hblanks : Scan.afterBlanks cs = cs)
    (h : Reads (JsonGrammar.value maxDepth) (· = j) cs []) :
    read? (String.ofList cs) = some j := by
  have hdocument : Reads document (· = j) cs [] := by
    refine (Reads.spaced_to hblanks h).bind_eq ?_
    refine Reads.bind (P := fun _ => True) (Reads.spaced_to rfl ?_) fun _ _ => Reads.pure rfl
    exact Reads.notBefore (by simp) trivial
  obtain ⟨_, there, hfound, -, -, rfl⟩ := hdocument (Cursor.start cs) rfl
  unfold read?
  rw [String.toList_ofList, hfound]
  rfl

theorem read?_of_fails (hblanks : Scan.afterBlanks cs = cs)
    (h : Fails (JsonGrammar.value maxDepth) cs) : read? (String.ofList cs) = none := by
  rw [← hblanks] at h
  have hdocument : Fails document cs := (Fails.spaced h).bind
  unfold read?
  rw [String.toList_ofList, hdocument (Cursor.start cs) rfl]
  rfl

theorem Kept.afterBlanks (h : j.Kept) : Scan.afterBlanks j.text = j.text := by
  have hblanks := (begins_text h (Or.inl rfl)).afterBlanks []
  rwa [List.append_nil] at hblanks

/-- **A text is read as the value that was written.** -/
theorem read?_text (h : j.Kept) (hdepth : j.depth ≤ maxDepth) :
    read? (String.ofList j.text) = some j := by
  have hvalue := reads_value maxDepth h hdepth [] (by simp [EndsNumber])
  rw [List.append_nil] at hvalue
  exact read?_of_reads h.afterBlanks hvalue

/-- **The text of a value that nests too deep is no text of a value.** -/
theorem read?_eq_none (h : j.Kept) (hdepth : maxDepth < j.depth) :
    read? (String.ofList j.text) = none := by
  have hvalue := fails_value maxDepth h hdepth []
  rw [List.append_nil] at hvalue
  exact read?_of_fails h.afterBlanks hvalue

/-- A number by itself is read as the value of its parts. -/
theorem read?_numeral (x : Numeral) : read? (String.ofList x.text) = x.value? := by
  have hends : EndsNumber [] := by simp [EndsNumber]
  have hblanks : Scan.afterBlanks x.text = x.text := by
    obtain ⟨c, cs, htext, hc⟩ := x.exists_head
    rw [htext]
    exact afterBlanks_of_head (by simpa using (numberHead_ne hc).2)
  cases hvalue : x.value? with
  | some j =>
    have hread := reads_scalar_number hvalue hends
    rw [List.append_nil] at hread
    exact read?_of_reads hblanks (Reads.orElse_left hread)
  | none =>
    have hfails := fails_value_number hvalue hends maxDepth
    rw [List.append_nil] at hfails
    exact read?_of_fails hblanks hfails

/-- **A double is read back within other values if it is by itself.** -/
theorem kept_float_iff {f : Binary64} :
    (float f).Kept ↔ read? (String.ofList (float f).text) = some (.float f) := by
  refine ⟨fun h => read?_text h (Nat.zero_le _), fun h => ?_⟩
  have hnull : read? (String.ofList null.text) = some null := read?_text trivial (Nat.zero_le _)
  cases f with
  | finite negative steps fits =>
    obtain ⟨x, d, hx, -⟩ := exists_numeral negative fits
    refine ⟨x, hx.text, ?_⟩
    rw [← read?_numeral, hx.text]
    exact h
  -- there is no text for them
  | nan => cases hnull.symm.trans h
  | infinity negative => cases hnull.symm.trans h

/-- **A double whose shortest digits are few is read back**: less than `9·10¹⁴` with the zeros
behind them, and no more than 22 places away from the point. -/
theorem kept_float_of_small (negative : Bool) {steps : Nat} (fits : Fits steps) (hsteps : 0 < steps)
    (hdigits : (Number.shortest .even steps).digits *
      10 ^ ((Number.shortest .even steps).exponent.toNat + 1) ≤ 2 ^ 53)
    (hexp : (Number.shortest .even steps).exponent.natAbs ≤ 22) :
    (float (.finite negative steps fits)).Kept := by
  obtain ⟨x, d, hx, hround, hshortest⟩ := exists_numeral negative fits
  rw [← hshortest hsteps] at hdigits hexp
  exact ⟨x, hx.text, hx.value? hround fits hdigits hexp⟩

/-- **Not every double is read back**: the text of the one nearest to `10⁻²³` is read as another
one. -/
theorem exists_changed_float : ∃ f g : Binary64, f ≠ g ∧
    read? (String.ofList (float f).text) = some (.float g) := by
  let x : Numeral := ⟨false, ['1'], none, some (-23), by simp, by simp, fun _ => Nat.le_refl 1,
    by simp, by simp⟩
  have hdiffers : Binary64.ofRatio .double false 1 (Nat.pow 10 23) ≠
      dividedBy false Binary64.one 23 := by decide +kernel
  have htext : x.text = floatText (Binary64.ofRatio .double false 1 (Nat.pow 10 23)) := by
    decide +kernel
  have hscale : scale? false 1 (-23) = some (dividedBy false Binary64.one 23) := by decide +kernel
  have hvalue : x.value? = (scale? false 1 (-23)).map float :=
    x.value?_of_digits (Or.inr (by simp [x])) (by decide +kernel)
  refine ⟨_, _, hdiffers, ?_⟩
  rw [text, ← htext, read?_numeral, hvalue, hscale, Option.map_some]

end Json

end Sift
