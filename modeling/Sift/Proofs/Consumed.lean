import Mathlib.Data.List.TakeWhile
import Sift.Proofs.Scanning

/-!
# What scanners consume

* `Takes p R`: whenever `p` finds a value, the value and the text read for it satisfy `R`, and the
  text still ends where it did.
* `TakesFrom A p R`: the same from the places where `A` holds.
* `TakesFrom.bind`, `Takes.many`, …: one rule for each way to put scanners together.
* `found_manySpaced`: a repetition stops where nothing more is found.
-/

namespace Sift.Scan

variable {α β : Type} {p q : Scan α} {f : α → Scan β} {A B : Cursor → Prop}
  {R R' : α → List Char → Prop} {S : β → List Char → Prop}

/-- Whenever a scanner finds a value from a place where `A` holds, the value and the text read for
it satisfy `R`, and the offset has grown by that text. -/
def TakesFrom (A : Cursor → Prop) (p : Scan α) (R : α → List Char → Prop) : Prop :=
  ∀ here a there, A here → (p here).found = some (a, there) →
    ∃ cs, here.rest = cs ++ there.rest ∧ there.stop = here.stop ∧ R a cs

/-- Whenever a scanner finds a value, the value and the text read for it satisfy `R`. -/
def Takes (p : Scan α) (R : α → List Char → Prop) : Prop := TakesFrom (fun _ => True) p R

theorem Takes.from (h : Takes p R) : TakesFrom A p R :=
  fun here a there _ hfound => h here a there trivial hfound

theorem TakesFrom.mono (h : TakesFrom A p R) (hR : ∀ a cs, R a cs → R' a cs) :
    TakesFrom A p R' := by
  intro here a there hA hfound
  obtain ⟨cs, hcs, hstop, ha⟩ := h here a there hA hfound
  exact ⟨cs, hcs, hstop, hR a cs ha⟩

theorem takes_pure {a : α} (h : R a []) : TakesFrom A (Pure.pure a) R := by
  intro here b there _ hfound
  cases hfound
  exact ⟨[], rfl, rfl, h⟩

/-- The second scanner goes on with what the first has taken, from where the first has stopped. -/
theorem TakesFrom.bind_from (hp : TakesFrom A p R)
    (hB : ∀ here a there, A here → (p here).found = some (a, there) → B there)
    (hf : ∀ a cs, R a cs → TakesFrom B (f a) fun b cs' => S b (cs ++ cs')) :
    TakesFrom A (p >>= f) S := by
  intro here b last hA hfound
  obtain ⟨a, there, hfirst, hsecond⟩ := found_bind_eq_some.1 hfound
  obtain ⟨cs, hcs, hstop, ha⟩ := hp here a there hA hfirst
  obtain ⟨cs', hcs', hstop', hb⟩ := hf a cs ha there b last (hB here a there hA hfirst) hsecond
  exact ⟨cs ++ cs', by rw [hcs, hcs', List.append_assoc], hstop'.trans hstop, hb⟩

/-- The second scanner goes on with what the first has taken. -/
theorem TakesFrom.bind (hp : TakesFrom A p R)
    (hf : ∀ a cs, R a cs → Takes (f a) fun b cs' => S b (cs ++ cs')) : TakesFrom A (p >>= f) S :=
  hp.bind_from (fun _ _ _ _ _ => trivial) hf

theorem TakesFrom.map {g : α → β} (hp : TakesFrom A p R) (hg : ∀ a cs, R a cs → S (g a) cs) :
    TakesFrom A (g <$> p) S :=
  hp.bind fun a cs ha => takes_pure (by rw [List.append_nil]; exact hg a cs ha)

theorem TakesFrom.orElse (hp : TakesFrom A p R) (hq : TakesFrom A q R) :
    TakesFrom A (p <|> q) R := by
  intro here a there hA hfound
  rw [found_orElse, Option.or_eq_some_iff] at hfound
  rcases hfound with hfound | ⟨-, hfound⟩
  · exact hp here a there hA hfound
  · exact hq here a there hA hfound

theorem takes_fail : TakesFrom A (fail : Scan α) R := fun _ _ _ _ hfound => nomatch hfound

theorem TakesFrom.named (hp : TakesFrom A p R) : TakesFrom A (named p) R := by
  intro here a there hA hfound
  rw [found_named] at hfound
  exact hp here a there hA hfound

theorem TakesFrom.optional {S : Option α → List Char → Prop} (hp : TakesFrom A p R)
    (hsome : ∀ a cs, R a cs → S (some a) cs) (hnone : S none []) : TakesFrom A (optional p) S :=
  (hp.map hsome).orElse (takes_pure hnone)

theorem TakesFrom.withSpan (hp : TakesFrom A p R) :
    TakesFrom A (withSpan p) fun x cs => R x.1 cs := by
  intro here x there hA hfound
  change ((position >>= _) here).found = _ at hfound
  rw [found_bind] at hfound
  change ((p >>= _) here).found = _ at hfound
  obtain ⟨a, last, hp', hfound⟩ := found_bind_eq_some.1 hfound
  cases hfound
  exact hp here a there hA hp'

/-! ## Characters -/

theorem takes_char (accepts : Char → Bool) :
    Takes (char accepts) fun c cs => accepts c = true ∧ cs = [c] := by
  intro here c there _ hfound
  unfold char at hfound
  cases hrest : here.rest with
  | nil => simp [hrest] at hfound
  | cons d ds =>
    simp only [hrest] at hfound
    split at hfound
    · next hd => cases hfound; exact ⟨[c], rfl, Cursor.stop_step here c ds hrest, hd, rfl⟩
    · cases hfound

theorem takes_exactly (c : Char) : Takes (exactly c) fun _ cs => cs = [c] :=
  (takes_char (· == c)).bind fun a cs h => takes_pure (by
    rw [h.2, beq_iff_eq.1 h.1, List.append_nil])

theorem takes_notBefore (stops : Char → Bool) : Takes (notBefore stops) fun _ cs => cs = [] := by
  intro here a there _ hfound
  unfold notBefore at hfound
  split at hfound
  · cases hfound; exact ⟨[], rfl, rfl, rfl⟩
  · split at hfound
    · cases hfound
    · cases hfound; exact ⟨[], rfl, rfl, rfl⟩

/-- A word of letters is read up to case. -/
theorem takes_word : ∀ w : List Char,
    Takes (word w) fun _ cs => cs.map Char.toLower = w.map Char.toLower
  | [] => takes_pure rfl
  | x :: w => (takes_char _).bind fun c cs hc => (takes_word w).mono fun _ cs' hcs' => by
    rw [hc.2, List.singleton_append, List.map_cons, List.map_cons, hcs', beq_iff_eq.1 hc.1]

/-! ## Repetition -/

variable {T : List α → List Char → Prop}

theorem takes_manyWithin (hp : Takes p R) (hnil : T [] [])
    (hcons : ∀ a as cs cs', R a cs → T as cs' → T (a :: as) (cs ++ cs')) (room : List Char) :
    Takes (manyWithin room p) T := by
  induction room with
  | nil =>
    intro here as there _ hfound
    cases hfound
    exact ⟨[], rfl, rfl, hnil⟩
  | cons c room ih =>
    refine TakesFrom.orElse (hp.bind fun a cs ha => ih.bind fun as cs' has => takes_pure ?_)
      (takes_pure hnil)
    rw [List.append_nil]
    exact hcons a as cs cs' ha has

theorem Takes.many (hp : Takes p R) (hnil : T [] [])
    (hcons : ∀ a as cs cs', R a cs → T as cs' → T (a :: as) (cs ++ cs')) : Takes (many p) T :=
  fun here as there hA hfound => takes_manyWithin hp hnil hcons here.rest here as there hA hfound

/-- Texts of white space. -/
def AllBlank (cs : List Char) : Prop := ∀ c ∈ cs, isBlank c = true

theorem afterBlanks_eq_nil_iff {cs : List Char} : afterBlanks cs = [] ↔ AllBlank cs :=
  List.dropWhile_eq_nil_iff

theorem takes_blanks : Takes blanks fun _ cs => AllBlank cs := by
  refine TakesFrom.bind (R := fun _ cs => AllBlank cs) ((takes_char isBlank).many ?_ ?_) ?_
  · intro c hc; cases hc
  · rintro a as cs cs' ⟨ha, rfl⟩ hcs' c hc
    rcases List.mem_cons.1 hc with rfl | hc
    · exact ha
    · exact hcs' c hc
  · intro as cs hcs
    exact takes_pure (by rw [List.append_nil]; exact hcs)

/-- After the white space no more of it is ahead. -/
theorem found_blanks {here there : Cursor} {u : Unit} (h : (blanks here).found = some (u, there)) :
    there.rest = afterBlanks here.rest := by
  obtain ⟨_, _, hfound, hrest, -⟩ := Reads.blanks (P := fun _ => True) trivial here rfl
  rw [hfound] at h
  cases h
  exact hrest

/-- No white space is ahead. -/
def NoBlank (here : Cursor) : Prop := ∀ c ∈ here.rest.head?, isBlank c = false

theorem noBlank_of_blanks {here there : Cursor} {u : Unit}
    (h : (blanks here).found = some (u, there)) : NoBlank there := by
  unfold NoBlank
  rw [found_blanks h]
  exact isBlank_head_afterBlanks here.rest

/-- A value after white space is looked for where none is ahead. -/
theorem TakesFrom.spaced (hp : TakesFrom NoBlank p R)
    (hR : ∀ a bs cs, AllBlank bs → R a cs → R' a (bs ++ cs)) : TakesFrom A (spaced p) R' :=
  takes_blanks.from.bind_from (fun _ _ _ _ h => noBlank_of_blanks h) fun _ bs hbs =>
    hp.mono fun a cs ha => hR a bs cs hbs ha

theorem Takes.manySpaced (hp : Takes p R) (hnil : T [] [])
    (hblank : ∀ a bs cs, AllBlank bs → R a cs → R a (bs ++ cs))
    (hcons : ∀ a as cs cs', R a cs → T as cs' → T (a :: as) (cs ++ cs')) :
    Takes (manySpaced p) T := by
  have hmany : Takes (Scan.many (Scan.spaced p)) T :=
    Takes.many (TakesFrom.spaced hp.from hblank) hnil hcons
  refine TakesFrom.orElse (hp.bind fun a cs ha => hmany.bind fun as cs' has => takes_pure ?_)
    (takes_pure hnil)
  rw [List.append_nil]
  exact hcons a as cs cs' ha has

/-! ## Where repetitions stop -/

theorem exists_manyWithin (room : List Char) (p : Scan α) (here : Cursor) :
    ∃ x, (manyWithin room p here).found = some x := by
  cases room with
  | nil => exact ⟨_, rfl⟩
  | cons c room =>
    rw [manyWithin, found_orElse]
    cases ((p >>= fun a => manyWithin room p >>= fun rest => Pure.pure (a :: rest)) here).found with
    | none => exact ⟨_, rfl⟩
    | some x => exact ⟨x, rfl⟩

/-- A repetition stops where nothing more is found, or where it has run out of room. -/
theorem found_manyWithin {room : List Char} {here there : Cursor} {as : List α}
    (h : (manyWithin room p here).found = some (as, there)) :
    (p there).found = none ∨ room.length ≤ as.length := by
  induction room generalizing here as with
  | nil => exact Or.inr (Nat.zero_le _)
  | cons c room ih =>
    rw [manyWithin, found_orElse, Option.or_eq_some_iff] at h
    rcases h with h | ⟨hnone, h⟩
    · obtain ⟨a, next, -, h⟩ := found_bind_eq_some.1 h
      obtain ⟨as', last, hrest, h⟩ := found_bind_eq_some.1 h
      cases h
      refine (ih hrest).imp_right fun hlen => ?_
      simp only [List.length_cons]
      omega
    · cases h
      refine Or.inl ?_
      -- had a value been found, the repetition would have gone on behind it
      cases hfound : (p there).found with
      | none => rfl
      | some x =>
        obtain ⟨y, hy⟩ := exists_manyWithin room p x.2
        rw [found_bind, hfound, Option.bind_some, found_bind, hy] at hnone
        cases hnone

theorem found_spaced {here : Cursor} (hhead : NoBlank here) :
    (spaced p here).found = (p here).found := by
  obtain ⟨u, there, hfound, hrest, hstop, -⟩ := Reads.blanks (P := fun _ => True) trivial here rfl
  rw [afterBlanks_of_head hhead] at hrest
  have hthere : there = here := Cursor.eq_of_stop hrest hstop
  change ((blanks >>= fun _ => p) here).found = _
  rw [found_bind, hfound, Option.bind_some, hthere]

/-- What takes something finds nothing at the end. -/
theorem found_eq_none_of_nil {here : Cursor} (hp : Takes p fun _ cs => cs ≠ [])
    (hrest : here.rest = []) : (p here).found = none := by
  cases hfound : (p here).found with
  | none => rfl
  | some x =>
    obtain ⟨cs, hcs, -, hne⟩ := hp here x.1 x.2 trivial hfound
    rw [hrest] at hcs
    exact absurd (List.append_eq_nil_iff.1 hcs.symm).1 hne

/-- **A repetition with white space between stops where nothing more is found**, provided that it
begins with none and that every value takes something. -/
theorem found_manySpaced {here there : Cursor} {as : List α} (hp : Takes p fun _ cs => cs ≠ [])
    (hhead : NoBlank here) (h : (manySpaced p here).found = some (as, there)) :
    (spaced p there).found = none := by
  have hspaced : Takes (spaced p) fun _ cs => cs ≠ [] :=
    TakesFrom.spaced hp.from fun a bs cs _ hcs => by simp [hcs]
  unfold manySpaced at h
  rw [found_orElse, Option.or_eq_some_iff] at h
  rcases h with h | ⟨hnone, h⟩
  · obtain ⟨a, next, -, h⟩ := found_bind_eq_some.1 h
    obtain ⟨as', last, hmany, h⟩ := found_bind_eq_some.1 h
    cases h
    rcases found_manyWithin hmany with hstop | hroom
    · exact hstop
    -- the room is used up only at the end, for every value takes at least one character
    have htakes : Takes (many (spaced p)) fun as cs => as.length ≤ cs.length := by
      refine hspaced.many (Nat.le_refl 0) fun a as cs cs' hcs hcs' => ?_
      have hpos : 0 < cs.length := List.length_pos_iff.2 hcs
      simp only [List.length_cons, List.length_append]
      omega
    obtain ⟨cs, hcs, -, hle⟩ := htakes next as' there trivial hmany
    rw [hcs, List.length_append] at hroom
    have hzero : there.rest.length = 0 := by omega
    exact found_eq_none_of_nil hspaced (List.eq_nil_of_length_eq_zero hzero)
  · cases h
    rw [found_spaced hhead]
    -- no value at all: a first one would have been read
    cases hfound : (p here).found with
    | none => rfl
    | some x =>
      obtain ⟨y, hy⟩ := exists_manyWithin x.2.rest (spaced p) x.2
      have hmany : (many (spaced p) x.2).found = some y := hy
      rw [found_bind, hfound, Option.bind_some, found_bind, hmany] at hnone
      cases hnone

end Sift.Scan
