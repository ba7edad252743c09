import Sift.Scan

/-!
# What scanners read and where they fail

* `Reads p P before after`: from any place with `before` ahead, `p` reads on until `after` is
  ahead, and what it finds satisfies `P`.
* `Fails p before`: from no place with `before` ahead `p` finds anything.
* `Reads.bind`, `Reads.orElse_left`, `ReadsMany.cons`, …: one rule for each way to put scanners
  together.
-/

namespace Sift

/-- What holds of the characters of a short text is found out by trying each. -/
theorem forall_mem_of_all {cs : List Char} {P : Char → Prop} [DecidablePred P]
    (h : (cs.all fun c => decide (P c)) = true) : ∀ c ∈ cs, P c := by
  simpa using h

/-- A class of characters leaves out each of some. -/
theorem contains_eq_false_of_all {accepts : Char → Bool} {cs : List Char} {c : Char}
    (hcs : (cs.all fun d => !accepts d) = true) (h : accepts c = true) :
    cs.contains c = false := by
  rw [List.contains_eq_mem, decide_eq_false_iff_not]
  intro hc
  have hnot := List.all_eq_true.1 hcs c hc
  rw [h] at hnot
  cases hnot

/-- Texts with a separator between them. -/
theorem intercalate_cons {α β : Type} (sep : List α) (text : β → List α) (b : β) (bs : List β) :
    List.intercalate sep ((b :: bs).map text) = text b ++ bs.flatMap fun b => sep ++ text b := by
  induction bs generalizing b with
  | nil => simp
  | cons b' bs ih =>
    rw [List.map_cons, List.map_cons, List.intercalate_cons_cons, ← List.map_cons, ih,
      List.flatMap_cons, List.append_assoc, List.append_assoc]

/-- The bytes of a text. -/
def byteCount : List Char → Nat
  | [] => 0
  | c :: cs => c.utf8Size + byteCount cs

theorem byteCount_append (cs ds : List Char) :
    byteCount (cs ++ ds) = byteCount cs + byteCount ds := by
  induction cs with
  | nil => exact (Nat.zero_add _).symm
  | cons c cs ih => rw [List.cons_append, byteCount, byteCount, ih, Nat.add_assoc]

theorem utf8ByteSize_eq_byteCount (s : String) : s.utf8ByteSize = byteCount s.toList := by
  rw [← String.ofList_toList (s := s), String.toList_ofList]
  induction s.toList with
  | nil => rfl
  | cons c cs ih =>
    rw [String.ofList_cons, String.utf8ByteSize_append, String.utf8ByteSize_singleton, ih]
    rfl

/-- The offset at which the text ends. -/
def Cursor.stop (here : Cursor) : Nat := here.offset + byteCount here.rest

@[simp] theorem Cursor.stop_step (here : Cursor) (c : Char) (rest : List Char)
    (h : here.rest = c :: rest) : (here.step c rest).stop = here.stop := by
  unfold stop step
  rw [h, byteCount, Nat.add_assoc]

/-- With the same text ahead and the same end a place is the same. -/
theorem Cursor.eq_of_stop {here there : Cursor} (hrest : here.rest = there.rest)
    (hstop : here.stop = there.stop) : here = there := by
  obtain ⟨offset, rest⟩ := here
  obtain ⟨offset', rest'⟩ := there
  cases hrest
  simp only [Cursor.stop] at hstop
  rw [Cursor.mk.injEq]
  exact ⟨by omega, rfl⟩

namespace Scan

variable {α β : Type} {p : Scan α} {q : Scan α} {f : α → Scan β} {P P' : α → Prop}
  {Q : β → Prop} {before between after : List Char}

/-- From any place with `before` ahead a scanner reads on until `after` is ahead, and finds a value
with some property. -/
def Reads (p : Scan α) (P : α → Prop) (before after : List Char) : Prop :=
  ∀ here : Cursor, here.rest = before → ∃ a there, (p here).found = some (a, there) ∧
    there.rest = after ∧ there.stop = here.stop ∧ P a

/-- From no place with `before` ahead a scanner finds anything. -/
def Fails (p : Scan α) (before : List Char) : Prop :=
  ∀ here : Cursor, here.rest = before → (p here).found = none

/-! ## One after another -/

theorem found_bind (p : Scan α) (f : α → Scan β) (here : Cursor) :
    ((p >>= f) here).found = (p here).found.bind fun x => (f x.1 x.2).found := by
  show (bind p f here).found = _
  unfold bind
  cases h : (p here).found with
  | none => simp only [h, Option.bind_none]
  | some x => simp only [h, Option.bind_some]

theorem found_bind_eq_some {b : β} {here last : Cursor} :
    ((p >>= f) here).found = some (b, last) ↔
      ∃ a there, (p here).found = some (a, there) ∧ (f a there).found = some (b, last) := by
  rw [found_bind, Option.bind_eq_some_iff, Prod.exists]

theorem Reads.mono (h : Reads p P before after) (hP : ∀ a, P a → P' a) :
    Reads p P' before after := by
  intro here hrest
  obtain ⟨a, there, hfound, hafter, hstop, ha⟩ := h here hrest
  exact ⟨a, there, hfound, hafter, hstop, hP a ha⟩

theorem Reads.pure {a : α} (ha : P a) : Reads (Pure.pure a : Scan α) P before before := by
  intro here hrest
  exact ⟨a, here, rfl, hrest, rfl, ha⟩

theorem Reads.bind (hp : Reads p P before between) (hf : ∀ a, P a → Reads (f a) Q between after) :
    Reads (p >>= f) Q before after := by
  intro here hrest
  obtain ⟨a, there, hfound, hbetween, hstop, ha⟩ := hp here hrest
  obtain ⟨b, last, hfound', hafter, hstop', hb⟩ := hf a ha there hbetween
  refine ⟨b, last, ?_, hafter, hstop'.trans hstop, hb⟩
  rw [found_bind, hfound, Option.bind_some, hfound']

/-- What follows a known value. -/
theorem Reads.bind_eq {a : α} (hp : Reads p (· = a) before between)
    (hf : Reads (f a) Q between after) : Reads (p >>= f) Q before after :=
  hp.bind fun _ ha => ha ▸ hf

theorem Reads.map {g : α → β} (hp : Reads p P before after) (hg : ∀ a, P a → Q (g a)) :
    Reads (g <$> p) Q before after :=
  hp.bind fun a ha => Reads.pure (hg a ha)

theorem Fails.bind (hp : Fails p before) : Fails (p >>= f) before := by
  intro here hrest
  rw [found_bind, hp here hrest, Option.bind_none]

theorem Fails.map {g : α → β} (hp : Fails p before) : Fails (g <$> p) before := hp.bind

theorem Reads.bind_fails (hp : Reads p P before between) (hf : ∀ a, P a → Fails (f a) between) :
    Fails (p >>= f) before := by
  intro here hrest
  obtain ⟨a, there, hfound, hbetween, -, ha⟩ := hp here hrest
  rw [found_bind, hfound, Option.bind_some, hf a ha there hbetween]

/-! ## Choices -/

theorem found_orElse (p q : Scan α) (here : Cursor) :
    ((p <|> q) here).found = (p here).found.or (q here).found := by
  show (orElse p (fun _ => q) here).found = _
  unfold orElse
  cases h : (p here).found with
  | none => simp only [h, Option.none_or]
  | some x => simp only [h, Option.some_or]

theorem Reads.orElse_left (hp : Reads p P before after) : Reads (p <|> q) P before after := by
  intro here hrest
  obtain ⟨a, there, hfound, h⟩ := hp here hrest
  exact ⟨a, there, by rw [found_orElse, hfound, Option.some_or], h⟩

theorem Reads.orElse_right (hp : Fails p before) (hq : Reads q P before after) :
    Reads (p <|> q) P before after := by
  intro here hrest
  obtain ⟨a, there, hfound, h⟩ := hq here hrest
  exact ⟨a, there, by rw [found_orElse, hp here hrest, Option.none_or, hfound], h⟩

theorem Fails.orElse (hp : Fails p before) (hq : Fails q before) : Fails (p <|> q) before := by
  intro here hrest
  rw [found_orElse, hp here hrest, hq here hrest, Option.none_or]

theorem Reads.optional_some {P : Option α → Prop}
    (hp : Reads p (fun a => P (some a)) before after) : Reads (optional p) P before after :=
  Reads.orElse_left (hp.map fun _ ha => ha)

theorem Reads.optional_none {P : Option α → Prop} (hp : Fails p before) (hP : P none) :
    Reads (optional p) P before before :=
  Reads.orElse_right hp.map (Reads.pure hP)

/-! ## Names and characters -/

theorem found_named (p : Scan α) (here : Cursor) : (named p here).found = (p here).found := by
  unfold named
  cases h : (p here).found with
  | none => simp only [h]
  | some x => simp only [h]

theorem Reads.named (hp : Reads p P before after) : Reads (named p) P before after := by
  intro here hrest
  obtain ⟨a, there, hfound, h⟩ := hp here hrest
  exact ⟨a, there, by rw [found_named, hfound], h⟩

theorem Fails.named (hp : Fails p before) : Fails (named p) before := by
  intro here hrest
  rw [found_named, hp here hrest]

theorem fails_fail : Fails (fail : Scan α) before := fun _ _ => rfl

variable {accepts : Char → Bool} {c : Char} {cs : List Char}

theorem Reads.char {P : Char → Prop} (hc : accepts c = true) (hP : P c) :
    Reads (char accepts) P (c :: cs) cs := by
  intro here hrest
  refine ⟨c, here.step c cs, ?_, rfl, Cursor.stop_step here c cs hrest, hP⟩
  unfold Scan.char
  simp only [hrest, hc, if_true]

/-- The class of the character ahead decides. -/
theorem fails_char (h : ∀ c ∈ before.head?, accepts c = false) : Fails (char accepts) before := by
  intro here hrest
  unfold Scan.char
  cases before with
  | nil => simp only [hrest]
  | cons c cs => simp [hrest, h c rfl]

theorem Reads.exactly {P : Unit → Prop} (hP : P ()) : Reads (exactly c) P (c :: cs) cs :=
  Reads.bind (P := fun _ => True) (Reads.char (beq_self_eq_true c) trivial) fun _ _ =>
    Reads.pure hP

/-- What follows a known character goes on behind it. -/
theorem Reads.exactly_bind {f : Unit → Scan β} (hf : Reads (f ()) Q cs after) :
    Reads (Scan.exactly c >>= f) Q (c :: cs) after :=
  Reads.bind (P := fun _ => True) (Reads.exactly trivial) fun _ _ => hf

theorem Fails.exactly_bind {f : Unit → Scan β} (hf : Fails (f ()) cs) :
    Fails (exactly c >>= f) (c :: cs) :=
  Reads.bind_fails (P := fun _ => True) (Reads.exactly trivial) fun _ _ => hf

theorem fails_exactly (h : ∀ d ∈ before.head?, d ≠ c) : Fails (exactly c) before :=
  (fails_char fun d hd => beq_eq_false_iff_ne.2 (h d hd)).bind

theorem Reads.notBefore {P : Unit → Prop} (h : ∀ c ∈ before.head?, accepts c = false) (hP : P ()) :
    Reads (notBefore accepts) P before before := by
  intro here hrest
  refine ⟨(), here, ?_, hrest, rfl, hP⟩
  unfold Scan.notBefore
  cases before with
  | nil => simp only [hrest]
  | cons c cs => simp [hrest, h c rfl]

theorem fails_notBefore (h : accepts c = true) : Fails (notBefore accepts) (c :: cs) := by
  intro here hrest
  unfold Scan.notBefore
  simp only [hrest, h, if_true]

theorem Reads.withSpan (hp : Reads p P before after) :
    Reads (withSpan p) (fun x => P x.1) before after := by
  intro here hrest
  obtain ⟨a, there, hfound, hafter, hstop, ha⟩ := hp here hrest
  refine ⟨(a, here.offset, there.offset - here.offset), there, ?_, hafter, hstop, ha⟩
  show ((position >>= _) here).found = _
  rw [found_bind]
  show ((p >>= _) here).found = _
  rw [found_bind, hfound]
  rfl

theorem Fails.withSpan (hp : Fails p before) : Fails (withSpan p) before := by
  intro here hrest
  show ((position >>= _) here).found = _
  rw [found_bind]
  exact hp.bind here hrest

/-! ## Repetition -/

/-- A repetition reads on, however much room it is given beyond the text ahead. -/
def ReadsMany (p : Scan α) (P : List α → Prop) (before after : List Char) : Prop :=
  ∀ room : List Char, before.length ≤ room.length → Reads (manyWithin room p) P before after

variable {R R' : List α → Prop}

theorem ReadsMany.nil (hp : Fails p before) (hR : R []) : ReadsMany p R before before := by
  intro room _
  cases room with
  | nil => exact fun here hrest => ⟨[], here, rfl, hrest, rfl, hR⟩
  | cons c room => exact Reads.orElse_right hp.bind (Reads.pure hR)

theorem ReadsMany.cons (hp : Reads p P before between) (hlt : between.length < before.length)
    (hrest : ReadsMany p R between after) (hR : ∀ a as, P a → R as → R' (a :: as)) :
    ReadsMany p R' before after := by
  intro room hroom
  cases room with
  | nil => simp only [List.length_nil] at hroom; omega
  | cons c room =>
    -- a value takes at least one character, so the room suffices for what follows it
    have hroom' : between.length ≤ room.length := by
      simp only [List.length_cons] at hroom; omega
    exact Reads.orElse_left (hp.bind fun a ha =>
      (hrest room hroom').bind fun as has => Reads.pure (hR a as ha has))

theorem ReadsMany.many (h : ReadsMany p R before after) : Reads (many p) R before after := by
  intro here hrest
  have hroom : before.length ≤ here.rest.length := Nat.le_of_eq (by rw [hrest])
  exact h here.rest hroom here hrest

/-- Characters of a class are taken as long as there are any. -/
theorem readsMany_char (accepts : Char → Bool) (before : List Char) :
    ReadsMany (char accepts) (· = before.takeWhile accepts) before (before.dropWhile accepts) := by
  induction before with
  | nil => exact ReadsMany.nil (fails_char (by simp)) rfl
  | cons c cs ih =>
    cases hc : accepts c with
    | true =>
      rw [List.dropWhile_cons_of_pos hc, List.takeWhile_cons_of_pos hc]
      refine ReadsMany.cons (P := (· = c)) (Reads.char hc rfl) (by simp) ih ?_
      rintro a as rfl rfl; rfl
    | false =>
      rw [List.dropWhile_cons_of_neg (by simp [hc]), List.takeWhile_cons_of_neg (by simp [hc])]
      exact ReadsMany.nil (fails_char (by simpa using hc)) rfl

/-! ## White space -/

theorem mem_of_isBlank {c : Char} (h : isBlank c = true) : c ∈ [' ', '\t', '\r', '\n'] := by
  unfold isBlank at h
  simpa [or_assoc] using h

/-- What is ahead after the white space. -/
def afterBlanks (cs : List Char) : List Char := cs.dropWhile isBlank

/-- Nothing is left out where the first character is of another class. -/
theorem dropWhile_of_head (h : ∀ c ∈ before.head?, accepts c = false) :
    before.dropWhile accepts = before := by
  cases before with
  | nil => rfl
  | cons c cs => rw [List.dropWhile_cons_of_neg (by simp [h c rfl])]

theorem afterBlanks_of_head (h : ∀ c ∈ before.head?, isBlank c = false) :
    afterBlanks before = before :=
  dropWhile_of_head h

@[simp] theorem afterBlanks_nil : afterBlanks [] = [] := rfl

@[simp] theorem afterBlanks_space (cs : List Char) : afterBlanks (' ' :: cs) = afterBlanks cs := rfl

theorem head?_dropWhile (accepts : Char → Bool) (cs : List Char) :
    ∀ c ∈ (cs.dropWhile accepts).head?, accepts c = false := by
  intro c hc
  have hnot := List.head?_dropWhile_not accepts cs
  rwa [Option.mem_def.1 hc] at hnot

theorem isBlank_head_afterBlanks (cs : List Char) :
    ∀ c ∈ (afterBlanks cs).head?, isBlank c = false :=
  head?_dropWhile isBlank cs

theorem afterBlanks_afterBlanks (cs : List Char) : afterBlanks (afterBlanks cs) = afterBlanks cs :=
  afterBlanks_of_head (isBlank_head_afterBlanks cs)

theorem length_afterBlanks_le (cs : List Char) : (afterBlanks cs).length ≤ cs.length :=
  (List.dropWhile_sublist _).length_le

theorem Reads.blanks {P : Unit → Prop} (hP : P ()) : Reads blanks P before (afterBlanks before) :=
  (readsMany_char isBlank before).many.bind fun _ _ => Reads.pure hP

theorem Reads.blanks_bind {f : Unit → Scan β} (hf : Reads (f ()) Q (afterBlanks before) after) :
    Reads (Scan.blanks >>= f) Q before after :=
  Reads.bind (P := fun _ => True) (Reads.blanks trivial) fun _ _ => hf

theorem Reads.spaced (hp : Reads p P (afterBlanks before) after) :
    Reads (spaced p) P before after :=
  Reads.blanks_bind hp

theorem Fails.spaced (hp : Fails p (afterBlanks before)) : Fails (spaced p) before :=
  Reads.bind_fails (P := fun _ => True) (Reads.blanks trivial) fun _ _ => hp

theorem Reads.spaced_to (h : afterBlanks before = between) (hp : Reads p P between after) :
    Reads (Scan.spaced p) P before after := by
  rw [← h] at hp
  exact hp.spaced

/-- A scanner that may also take the white space after what it reads. -/
def ReadsUpTo (p : Scan α) (P : α → Prop) (before after : List Char) : Prop :=
  Reads p P before after ∨ Reads p P before (afterBlanks after)

theorem Reads.upTo (h : Reads p P before after) : ReadsUpTo p P before after := Or.inl h

theorem ReadsUpTo.mono (h : ReadsUpTo p P before after) (hP : ∀ a, P a → P' a) :
    ReadsUpTo p P' before after :=
  h.imp (·.mono hP) (·.mono hP)

theorem ReadsUpTo.map {g : α → β} (hp : ReadsUpTo p P before after) (hg : ∀ a, P a → Q (g a)) :
    ReadsUpTo (g <$> p) Q before after :=
  hp.imp (fun h => h.map hg) fun h => h.map hg

theorem ReadsUpTo.named (hp : ReadsUpTo p P before after) :
    ReadsUpTo (Scan.named p) P before after :=
  hp.imp Reads.named Reads.named

theorem ReadsUpTo.spaced_to (h : afterBlanks before = between) (hp : ReadsUpTo p P between after) :
    ReadsUpTo (Scan.spaced p) P before after :=
  hp.imp (Reads.spaced_to h) (Reads.spaced_to h)

theorem ReadsUpTo.orElse_left (hp : ReadsUpTo p P before after) :
    ReadsUpTo (p <|> q) P before after :=
  hp.imp Reads.orElse_left Reads.orElse_left

theorem ReadsUpTo.orElse_right (hp : Fails p before) (hq : ReadsUpTo q P before after) :
    ReadsUpTo (p <|> q) P before after :=
  hq.imp (Reads.orElse_right hp) (Reads.orElse_right hp)

/-- What follows a known value decides how much of the white space is taken. -/
theorem Reads.bind_upTo {a : α} (hp : Reads p (· = a) before between)
    (hf : ReadsUpTo (f a) Q between after) : ReadsUpTo (p >>= f) Q before after :=
  hf.imp (fun h => hp.bind fun _ ha => ha ▸ h) fun h => hp.bind fun _ ha => ha ▸ h

/-- White space after a value does not matter where what follows skips it anyway. -/
theorem ReadsUpTo.bind (hp : ReadsUpTo p P before between)
    (hf : ∀ a, P a → ∀ cs, afterBlanks cs = afterBlanks between → Reads (f a) Q cs after) :
    Reads (p >>= f) Q before after := by
  rcases hp with hp | hp
  · exact hp.bind fun a ha => hf a ha between rfl
  · exact hp.bind fun a ha => hf a ha _ (afterBlanks_afterBlanks between)

theorem Reads.manySpaced_nil (hp : Fails p before) (hR : R []) :
    Reads (manySpaced p) R before before :=
  Reads.orElse_right hp.bind (Reads.pure hR)

theorem Reads.manySpaced_cons (hp : Reads p P before between)
    (hrest : ReadsMany (Scan.spaced p) R between after) (hR : ∀ a as, P a → R as → R' (a :: as)) :
    Reads (manySpaced p) R' before after :=
  Reads.orElse_left (hp.bind fun a ha =>
    hrest.many.bind fun as has => Reads.pure (hR a as ha has))

/-- A repetition that may also take the white space after what it reads. -/
def ReadsManyUpTo (p : Scan α) (R : List α → Prop) (before after : List Char) : Prop :=
  ReadsMany p R before after ∨ ReadsMany p R before (afterBlanks after)

theorem ReadsUpTo.many_cons (hp : ReadsUpTo p P before between)
    (hlt : between.length < before.length)
    (hrest : ∀ {cs}, cs = between ∨ cs = afterBlanks between → ReadsManyUpTo p R cs after)
    (hR : ∀ a as, P a → R as → R' (a :: as)) : ReadsManyUpTo p R' before after := by
  have hle := length_afterBlanks_le between
  -- whether the white space was taken or not, what follows is read from there
  rcases hp with hp | hp
  · exact (hrest (Or.inl rfl)).imp (ReadsMany.cons hp hlt · hR) (ReadsMany.cons hp hlt · hR)
  · exact (hrest (Or.inr rfl)).imp (ReadsMany.cons hp (by omega) · hR)
      (ReadsMany.cons hp (by omega) · hR)

theorem ReadsUpTo.manySpaced_cons (hp : ReadsUpTo p P before between)
    (hrest : ∀ {cs}, cs = between ∨ cs = afterBlanks between →
      ReadsManyUpTo (Scan.spaced p) R cs after)
    (hR : ∀ a as, P a → R as → R' (a :: as)) : ReadsUpTo (manySpaced p) R' before after := by
  rcases hp with hp | hp
  · exact (hrest (Or.inl rfl)).imp (hp.manySpaced_cons · hR) (hp.manySpaced_cons · hR)
  · exact (hrest (Or.inr rfl)).imp (hp.manySpaced_cons · hR) (hp.manySpaced_cons · hR)

end Scan

end Sift
