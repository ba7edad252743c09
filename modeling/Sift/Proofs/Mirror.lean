import Mathlib.Data.List.Forall2
import Sift.Proofs.Nesting

/-!
# Reading on in front of what ends a piece

A text that leaves no bracket and no quote open is read in front of a closing bracket, a comma or a
bar as it is read at the end of a text.

* `Closing d cs`: the text closes `d` brackets that are open before it, and leaves nothing open.
* `Stops`: the texts that end a piece in front of them.
* `Mirrors`: a scanner finds in a text what another one finds where more text follows.
* `Mirrors.bind`, `Mirrors.orElse`, `Mirrors.many`, …: one rule for each way to put scanners
  together.
* `mirrors_char`, `mirrors_quoted`: characters and quoted texts.
-/

namespace Sift

/-! ## Texts that leave nothing open -/

/-- **A text closes `d` brackets** that are open before it, and leaves no others open: behind it as
many are open as before those, however deep that is. -/
def Closing (d : Nat) (cs : List Char) : Prop :=
  ∃ m, ∀ limit depth rest, depth + m ≤ limit →
    (Shallow limit (depth + d) (cs ++ rest) ↔ Shallow limit depth rest)

variable {d n : Nat} {c : Char} {cs : List Char}

theorem Nests.closing (h : Nests n cs) : Closing 0 cs := by
  refine ⟨n, fun limit depth rest hlimit => ?_⟩
  rw [Nat.add_zero, h]
  exact and_iff_right hlimit

theorem Closing.flat (h : Closing d (c :: cs)) (hc : isFlat c = true) : Closing d cs := by
  obtain ⟨m, h⟩ := h
  refine ⟨m, fun limit depth rest hlimit => ?_⟩
  rw [← h limit depth rest hlimit, List.cons_append, shallow_flat hc]

theorem Closing.opening (h : Closing d (c :: cs)) (hc : c ∈ ['(', '[', '\x7b']) :
    Closing (d + 1) cs := by
  have hopen := depthAfter_opening hc
  obtain ⟨m, h⟩ := h
  refine ⟨m, fun limit depth rest hlimit => ?_⟩
  rw [← h limit depth rest hlimit, List.cons_append, shallow_cons hopen.1, hopen.2]
  -- one more open before it is one more to be within the limit
  refine (and_iff_right_of_imp fun hshallow => ?_).symm
  have hle : depth + (d + 1) ≤ limit := hshallow.1
  omega

theorem Closing.closing (h : Closing (d + 1) (c :: cs)) (hc : c ∈ [')', ']', '\x7d']) :
    Closing d cs := by
  have hclose := depthAfter_closing hc
  obtain ⟨m, h⟩ := h
  refine ⟨max m (d + 1), fun limit depth rest hlimit => ?_⟩
  have hm : depth + m ≤ limit := by omega
  have hd : depth + (d + 1) ≤ limit := by omega
  rw [← h limit depth rest hm, List.cons_append, shallow_cons hclose.1, ← Nat.add_assoc, hclose.2]
  exact (and_iff_right hd).symm

/-- Opening parentheses use up what the limit leaves. -/
theorem shallow_opening {limit depth : Nat} (j : Nat) :
    Shallow limit depth (List.replicate j '(') ↔ depth + j ≤ limit := by
  induction j generalizing depth with
  | zero => exact shallow_nil
  | succ j ih =>
    have hopen : depthAfter depth '(' = depth + 1 := by simp [depthAfter]
    rw [List.replicate_succ, shallow_cons (by decide), hopen, ih]
    omega

theorem not_closing_nil : ¬Closing (d + 1) [] := by
  rintro ⟨m, h⟩
  -- as many parentheses as there is room for would be too many behind it
  have hfull := h m 0 (List.replicate m '(') (Nat.le_of_eq (Nat.zero_add m))
  rw [List.nil_append, shallow_opening, shallow_opening] at hfull
  omega

/-- Between quotes no character changes the number of open brackets. -/
theorem overDeep?_inside {limit depth : Nat} {s : Surroundings} (hs : s ≠ .outside)
    (h : depth ≤ limit) (offset : Nat) (c : Char) (cs : List Char) :
    overDeep? limit depth s offset (c :: cs) =
      overDeep? limit depth (s.after c) (offset + c.utf8Size) cs := by
  have hlimit : ¬limit < depth := Nat.not_lt.2 h
  simp only [overDeep?, if_neg hs, if_neg hlimit]

theorem Surroundings.after_quoted (hquote : c ≠ '"') (hslash : c ≠ '\\') :
    Surroundings.quoted.after c = .quoted := by
  simp [after, hquote, hslash]

theorem overDeep?_quoted_opening {limit depth : Nat} (h : depth ≤ limit) (offset j : Nat) :
    overDeep? limit depth .quoted offset (List.replicate j '(') = none := by
  induction j generalizing offset with
  | zero => rfl
  | succ j ih =>
    rw [List.replicate_succ, overDeep?_inside (by decide) h]
    exact ih _

/-- A text behind an opening quote closes it somewhere, or whatever follows counts as quoted. -/
theorem quotedInner_or_open : ∀ cs : List Char,
    (∃ inner rest, cs = inner ++ '"' :: rest ∧ QuotedInner inner) ∨
      ∀ {limit depth : Nat}, depth ≤ limit → ∀ offset j,
        overDeep? limit depth .quoted offset (cs ++ List.replicate j '(') = none
  | [] => Or.inr fun h offset j => overDeep?_quoted_opening h offset j
  | [c] => by
    by_cases hquote : c = '"'
    · exact Or.inl ⟨[], [], by rw [hquote, List.nil_append], .nil⟩
    refine Or.inr fun {limit depth} h offset j => ?_
    rw [List.singleton_append, overDeep?_inside (by decide) h]
    by_cases hslash : c = '\\'
    · subst hslash
      cases j with
      | zero => rfl
      | succ j =>
        -- the backslash keeps the first parenthesis, and the others are quoted
        rw [List.replicate_succ, overDeep?_inside (by decide) h]
        exact overDeep?_quoted_opening h _ j
    · rw [Surroundings.after_quoted hquote hslash]
      exact overDeep?_quoted_opening h _ j
  | c :: e :: cs => by
    by_cases hquote : c = '"'
    · exact Or.inl ⟨[], e :: cs, by rw [hquote, List.nil_append], .nil⟩
    by_cases hslash : c = '\\'
    · subst hslash
      rcases quotedInner_or_open cs with ⟨inner, rest, rfl, hinner⟩ | hopen
      · exact Or.inl ⟨'\\' :: e :: inner, rest, rfl, .kept e hinner⟩
      · refine Or.inr fun {limit depth} h offset j => ?_
        rw [List.cons_append, List.cons_append, overDeep?_inside (by decide) h,
          overDeep?_inside (by decide) h]
        exact hopen h _ j
    · rcases quotedInner_or_open (e :: cs) with ⟨inner, rest, hcs, hinner⟩ | hopen
      · exact Or.inl ⟨c :: inner, rest, by rw [hcs]; rfl, .plain hquote hslash hinner⟩
      · refine Or.inr fun {limit depth} h offset j => ?_
        rw [List.cons_append, overDeep?_inside (by decide) h,
          Surroundings.after_quoted hquote hslash]
        exact hopen h _ j

/-- **A quote is closed** in a text that leaves nothing open. -/
theorem Closing.quoted (h : Closing d ('"' :: cs)) :
    ∃ inner rest, cs = inner ++ '"' :: rest ∧ QuotedInner inner ∧ Closing d rest := by
  obtain ⟨m, h⟩ := h
  rcases quotedInner_or_open cs with ⟨inner, rest, rfl, hinner⟩ | hopen
  · refine ⟨inner, rest, rfl, hinner, m, fun limit depth after hlimit => ?_⟩
    rw [← h limit depth after hlimit, List.cons_append, List.append_assoc, List.cons_append,
      shallow_quoted hinner]
  · -- otherwise no number of parentheses behind the text would be too many
    have hfull := h (m + d) 0 (List.replicate (m + d + 1) '(') (by omega)
    rw [shallow_opening] at hfull
    have hdepth : 0 + d ≤ m + d := by omega
    have hquoted := hopen hdepth '"'.utf8Size (m + d + 1)
    have hshallow : Shallow (m + d) (0 + d) (('"' :: cs) ++ List.replicate (m + d + 1) '(') := by
      refine ⟨hdepth, ?_⟩
      have hlimit : ¬m + d < d := by omega
      simp only [List.cons_append, overDeep?, if_true, depthAfter, Surroundings.after]
      simpa [hlimit] using hquoted
    have hle := hfull.1 hshallow
    omega

/-! ## Scanners and their mirrors -/

/-- A text ends the piece in front of it: it is empty, or begins with a bar, with a comma or with
the bracket that closes a group or a set. -/
def Stops (behind : List Char) : Prop := ∀ c ∈ behind.head?, c ∈ ['|', ',', ')', '\x7d']

theorem stops_nil : Stops [] := by simp [Stops]

theorem stops_cons (hc : c ∈ ['|', ',', ')', '\x7d']) : Stops (c :: cs) := by
  rintro d ⟨⟩
  exact hc

/-- A class without these characters leaves out what is behind the piece. -/
theorem Stops.eq_false {behind : List Char} {accepts : Char → Bool} (h : Stops behind)
    (hall : (['|', ',', ')', '\x7d'].all fun c => !accepts c) = true) :
    ∀ c ∈ behind.head?, accepts c = false := by
  intro c hc
  have hnot := List.all_eq_true.1 hall c (h c hc)
  rwa [Bool.not_eq_true'] at hnot

namespace Scan

variable {α β : Type} {p q p' q' : Scan α} {f g : α → Scan β} {R R' : α → α → Prop}
  {S : β → β → Prop} {behind : List Char} {used room d e e' : Nat}

/-- **A scanner and its mirror.** In a text that closes `d` brackets and is shorter than `room` the
one finds something exactly if the other does where `behind` follows. Then both leave the same part
of the text, which closes `e` brackets, at least `used` characters are taken, and what is found is
related. -/
def Mirrors (behind : List Char) (used room d : Nat) (p q : Scan α) (R : α → α → Prop)
    (e : Nat) : Prop :=
  ∀ here here' : Cursor, here'.rest = here.rest ++ behind → Closing d here.rest →
    here.rest.length < room →
      ((p here).found = none → (q here').found = none) ∧
        ∀ a there, (p here).found = some (a, there) → ∃ a' there',
          (q here').found = some (a', there') ∧ there'.rest = there.rest ++ behind ∧
            there'.stop = here'.stop ∧ Closing e there.rest ∧
              there.rest.length + used ≤ here.rest.length ∧ R a a'

theorem Mirrors.mono (h : Mirrors behind used room d p q R e) (hR : ∀ a a', R a a' → R' a a') :
    Mirrors behind used room d p q R' e := by
  intro here here' hrest hclosing hroom
  obtain ⟨hnone, hsome⟩ := h here here' hrest hclosing hroom
  refine ⟨hnone, fun a there hfound => ?_⟩
  obtain ⟨a', there', hfound', hrest', hstop, hclosing', hlength, ha⟩ := hsome a there hfound
  exact ⟨a', there', hfound', hrest', hstop, hclosing', hlength, hR a a' ha⟩

theorem Mirrors.shrink (h : Mirrors behind used room d p q R e) {room' : Nat} (hle : room' ≤ room) :
    Mirrors behind used room' d p q R e := by
  intro here here' hrest hclosing hroom
  exact h here here' hrest hclosing (Nat.lt_of_lt_of_le hroom hle)

theorem Mirrors.zero (h : Mirrors behind used room d p q R e) :
    Mirrors behind 0 room d p q R e := by
  intro here here' hrest hclosing hroom
  obtain ⟨hnone, hsome⟩ := h here here' hrest hclosing hroom
  refine ⟨hnone, fun a there hfound => ?_⟩
  obtain ⟨a', there', hfound', hrest', hstop, hclosing', hlength, ha⟩ := hsome a there hfound
  exact ⟨a', there', hfound', hrest', hstop, hclosing', by omega, ha⟩

theorem mirrors_pure {a a' : α} (h : R a a') :
    Mirrors behind 0 room d (Pure.pure a) (Pure.pure a') R d := by
  intro here here' hrest hclosing _
  refine ⟨(fun hfound => nomatch hfound), ?_⟩
  rintro _ _ ⟨⟩
  exact ⟨a', here', rfl, hrest, rfl, hclosing, Nat.le_refl _, h⟩

/-- What follows has the less room the more was taken before it. -/
theorem Mirrors.bind_add {more : Nat} (hp : Mirrors behind used room d p q R e)
    (hf : ∀ a a', R a a' → Mirrors behind more (room - used) e (f a) (g a') S e') :
    Mirrors behind (used + more) room d (p >>= f) (q >>= g) S e' := by
  intro here here' hrest hclosing hroom
  obtain ⟨hnone, hsome⟩ := hp here here' hrest hclosing hroom
  rw [found_bind, found_bind]
  cases hfound : (p here).found with
  | none =>
    rw [hnone hfound]
    exact ⟨fun _ => rfl, fun _ _ h => nomatch h⟩
  | some x =>
    obtain ⟨a', there', hfound', hrest', hstop, hclosing', hlength, ha⟩ := hsome x.1 x.2 hfound
    rw [hfound', Option.bind_some, Option.bind_some]
    obtain ⟨hnone', hsome'⟩ := hf x.1 a' ha x.2 there' hrest' hclosing' (by omega)
    refine ⟨hnone', fun b last hlast => ?_⟩
    obtain ⟨b', last', hlast', hrest'', hstop', hclosing'', hlength', hb⟩ := hsome' b last hlast
    exact ⟨b', last', hlast', hrest'', hstop'.trans hstop, hclosing'', by omega, hb⟩

/-- The first scanner tells how much is taken at least. -/
theorem Mirrors.bind (hp : Mirrors behind used room d p q R e)
    (hf : ∀ a a', R a a' → Mirrors behind 0 (room - used) e (f a) (g a') S e') :
    Mirrors behind used room d (p >>= f) (q >>= g) S e' :=
  hp.bind_add hf

/-- The second scanner tells how much is taken at least. -/
theorem Mirrors.bind_after (hp : Mirrors behind 0 room d p q R e)
    (hf : ∀ a a', R a a' → Mirrors behind used room e (f a) (g a') S e') :
    Mirrors behind used room d (p >>= f) (q >>= g) S e' := by
  have hadd := hp.bind_add hf
  rwa [Nat.zero_add] at hadd

theorem Mirrors.map {h : α → β} (hp : Mirrors behind used room d p q R e)
    (hS : ∀ a a', R a a' → S (h a) (h a')) : Mirrors behind used room d (h <$> p) (h <$> q) S e :=
  hp.bind fun a a' ha => mirrors_pure (hS a a' ha)

theorem Mirrors.orElse (hp : Mirrors behind used room d p q R e)
    (hp' : Mirrors behind used room d p' q' R e) :
    Mirrors behind used room d (p <|> p') (q <|> q') R e := by
  intro here here' hrest hclosing hroom
  obtain ⟨hnone, hsome⟩ := hp here here' hrest hclosing hroom
  rw [found_orElse, found_orElse]
  cases hfound : (p here).found with
  | none =>
    rw [hnone hfound, Option.none_or, Option.none_or]
    exact hp' here here' hrest hclosing hroom
  | some x =>
    obtain ⟨a', there', hfound', h⟩ := hsome x.1 x.2 hfound
    rw [hfound', Option.some_or, Option.some_or]
    refine ⟨(fun hnone => nomatch hnone), ?_⟩
    rintro _ _ ⟨⟩
    exact ⟨a', there', rfl, h⟩

theorem mirrors_fail : Mirrors behind used room d (fail : Scan α) fail R e :=
  fun _ _ _ _ _ => ⟨fun _ => rfl, fun _ _ h => nomatch h⟩

theorem Mirrors.named (h : Mirrors behind used room d p q R e) :
    Mirrors behind used room d (named p) (named q) R e := by
  intro here here' hrest hclosing hroom
  rw [found_named, found_named]
  exact h here here' hrest hclosing hroom

theorem Mirrors.optional (h : Mirrors behind used room d p q Eq d) :
    Mirrors behind 0 room d (optional p) (optional q) Eq d :=
  Mirrors.orElse (h.zero.map fun _ _ ha => congrArg some ha) (mirrors_pure rfl)

theorem Mirrors.withSpan (h : Mirrors behind used room d p q R e) :
    Mirrors behind 0 room d (withSpan p) (withSpan q) (fun x y => R x.1 y.1) e := by
  have hposition : ∀ {room d : Nat},
      Mirrors behind 0 room d position position (fun _ _ => True) d := by
    intro room d here here' hrest hclosing _
    refine ⟨(fun hfound => nomatch hfound), ?_⟩
    rintro _ _ ⟨⟩
    exact ⟨_, here', rfl, hrest, rfl, hclosing, Nat.le_refl _, trivial⟩
  refine hposition.bind fun first first' _ => ?_
  refine h.zero.bind fun a a' ha => ?_
  exact hposition.bind fun last last' _ => mirrors_pure ha

/-! ## Characters -/

/-- A character of a class is found at the same places, unless it is what is behind the text. -/
theorem mirrors_char {accepts : Char → Bool}
    (hstep : ∀ c cs, accepts c = true → Closing d (c :: cs) → Closing e cs)
    (hend : ∀ c ∈ behind.head?, accepts c = true → ¬Closing d []) :
    Mirrors behind 1 room d (char accepts) (char accepts) Eq e := by
  intro here here' hrest hclosing _
  cases hcs : here.rest with
  | nil =>
    rw [hcs] at hrest hclosing
    have hbehind : ∀ c ∈ here'.rest.head?, accepts c = false := by
      intro c hc
      rw [hrest] at hc
      exact eq_false_of_ne_true fun haccepts => hend c hc haccepts hclosing
    rw [fails_char (by simp) here hcs, fails_char hbehind here' rfl]
    exact ⟨fun _ => rfl, fun _ _ h => nomatch h⟩
  | cons c cs =>
    rw [hcs] at hrest hclosing
    unfold char
    simp only [hcs, hrest, List.cons_append]
    cases hc : accepts c with
    | false => simp
    | true =>
      refine ⟨fun hfound => (by simp at hfound), ?_⟩
      rintro _ _ ⟨⟩
      refine ⟨c, here'.step c _, rfl, rfl, ?_, hstep c cs hc hclosing, Nat.le_refl _, rfl⟩
      exact Cursor.stop_step here' c _ hrest

theorem mirrors_flat {accepts : Char → Bool} (h : ∀ c, accepts c = true → isFlat c = true)
    (hend : ∀ c ∈ behind.head?, accepts c = false) :
    Mirrors behind 1 room d (char accepts) (char accepts) Eq d := by
  refine mirrors_char (fun c cs hc hclosing => hclosing.flat (h c hc)) fun c hc haccepts => ?_
  rw [hend c hc] at haccepts
  cases haccepts

theorem mirrors_exactly_of {c : Char} (hstep : ∀ cs, Closing d (c :: cs) → Closing e cs)
    (hend : c ∈ behind.head? → ¬Closing d []) :
    Mirrors behind 1 room d (exactly c) (exactly c) Eq e := by
  refine Mirrors.bind (R := Eq) (mirrors_char ?_ ?_) fun _ _ _ => mirrors_pure rfl
  · intro b cs hb hclosing
    rw [beq_iff_eq.1 hb] at hclosing
    exact hstep cs hclosing
  · intro b hb heq
    rw [beq_iff_eq.1 heq] at hb
    exact hend hb

theorem mirrors_exactly {c : Char} (hbehind : Stops behind) (h : isFlat c = true)
    (hc : c ∉ ['|', ',', ')', '\x7d']) :
    Mirrors behind 1 room d (exactly c) (exactly c) Eq d :=
  mirrors_exactly_of (fun _ hclosing => hclosing.flat h) fun hmem => absurd (hbehind c hmem) hc

theorem mirrors_opening {c : Char} (hbehind : Stops behind) (h : c ∈ ['(', '[', '\x7b']) :
    Mirrors behind 1 room d (exactly c) (exactly c) Eq (d + 1) := by
  have hne : ∀ c ∈ ['(', '[', '\x7b'], c ∉ ['|', ',', ')', '\x7d'] := forall_mem_of_all (by decide)
  exact mirrors_exactly_of (fun _ hclosing => hclosing.opening h)
    fun hmem => absurd (hbehind c hmem) (hne c h)

/-- A closing bracket is found only where one is open: one behind the text is not taken for it. -/
theorem mirrors_closing {c : Char} (h : c ∈ [')', ']', '\x7d']) :
    Mirrors behind 1 room (d + 1) (exactly c) (exactly c) Eq d :=
  mirrors_exactly_of (fun _ hclosing => hclosing.closing h) fun _ => not_closing_nil

theorem found_notBefore (stops : Char → Bool) (here : Cursor) :
    (notBefore stops here).found =
      if here.rest.head?.any stops then none else some ((), here) := by
  unfold notBefore
  cases here.rest with
  | nil => rfl
  | cons c cs => cases hc : stops c <;> simp [hc]

theorem mirrors_notBefore {stops : Char → Bool} (h : ∀ c ∈ behind.head?, stops c = false) :
    Mirrors behind 0 room d (notBefore stops) (notBefore stops) Eq d := by
  intro here here' hrest hclosing _
  have hhead : here'.rest.head?.any stops = here.rest.head?.any stops := by
    rw [hrest]
    cases here.rest with
    | nil =>
      cases behind with
      | nil => rfl
      | cons c cs => simpa using h c rfl
    | cons c cs => rfl
  rw [found_notBefore, found_notBefore, hhead]
  by_cases hstops : here.rest.head?.any stops = true
  · rw [if_pos hstops, if_pos hstops]
    exact ⟨fun _ => rfl, fun _ _ hfound => nomatch hfound⟩
  · rw [if_neg hstops, if_neg hstops]
    refine ⟨(fun hfound => nomatch hfound), ?_⟩
    rintro _ _ ⟨⟩
    exact ⟨(), here', rfl, hrest, rfl, hclosing, Nat.le_refl _, rfl⟩

theorem mirrors_letter {c : Char}
    (h : ∀ b : Char, b.toLower = c.toLower → isFlat b = true ∧ b ∉ behind.head?) :
    Mirrors behind 1 room d (char (·.toLower == c.toLower)) (char (·.toLower == c.toLower)) Eq d :=
  mirrors_flat (fun b hb => (h b (beq_iff_eq.1 hb)).1) fun b hb =>
    beq_eq_false_iff_ne.2 fun heq => (h b heq).2 hb

/-- The letters of a word, in either case, are no brackets and do not stand behind the text. -/
theorem mirrors_word : ∀ {w : List Char}, (∀ c ∈ w, ∀ b : Char, b.toLower = c.toLower →
    isFlat b = true ∧ b ∉ behind.head?) → Mirrors behind 0 room d (word w) (word w) Eq d
  | [], _ => mirrors_pure rfl
  | c :: w, h => by
    rw [List.forall_mem_cons] at h
    refine Mirrors.bind (R := Eq) (Mirrors.zero (mirrors_letter h.1)) fun _ _ _ =>
      mirrors_word h.2

/-! ## Repetition -/

theorem found_manyWithin_of_none {here : Cursor} (h : (p here).found = none) (cs : List Char) :
    (manyWithin cs p here).found = some ([], here) := by
  cases cs with
  | nil => rfl
  | cons c cs =>
    rw [manyWithin, found_orElse, found_bind, h]
    rfl

/-- At the end of the text nothing is found by what has to take something. -/
theorem mirrors_manyWithin_end {cs cs' : List Char} (hp : Mirrors behind 1 room d p q R d)
    (hroom : room ≤ 1) :
    Mirrors behind 0 room d (manyWithin cs p) (manyWithin cs' q) (List.Forall₂ R) d := by
  intro here here' hrest hclosing hlength
  obtain ⟨hnone, hsome⟩ := hp here here' hrest hclosing hlength
  have hend : (p here).found = none := by
    cases hfound : (p here).found with
    | none => rfl
    | some x =>
      obtain ⟨_, _, _, _, _, _, htaken, _⟩ := hsome x.1 x.2 hfound
      omega
  rw [found_manyWithin_of_none hend, found_manyWithin_of_none (hnone hend)]
  refine ⟨(fun hfound => nomatch hfound), ?_⟩
  rintro _ _ ⟨⟩
  exact ⟨[], here', rfl, hrest, rfl, hclosing, Nat.le_refl _, .nil⟩

theorem mirrors_manyWithin {cs cs' : List Char} (hp : Mirrors behind 1 room d p q R d)
    (hcs : room ≤ cs.length + 1) (hcs' : room ≤ cs'.length + 1) :
    Mirrors behind 0 room d (manyWithin cs p) (manyWithin cs' q) (List.Forall₂ R) d := by
  induction cs generalizing cs' room with
  | nil => exact mirrors_manyWithin_end hp hcs
  | cons c cs ih =>
    cases cs' with
    | nil => exact mirrors_manyWithin_end hp hcs'
    | cons c' cs' =>
      refine Mirrors.orElse (Mirrors.zero (hp.bind fun a a' ha => ?_)) (mirrors_pure .nil)
      simp only [List.length_cons] at hcs hcs'
      refine (ih (hp.shrink (Nat.sub_le _ _)) (by omega) (by omega)).bind fun as as' has => ?_
      exact mirrors_pure (.cons ha has)

theorem Mirrors.many (hp : Mirrors behind 1 room d p q R d) :
    Mirrors behind 0 room d (many p) (many q) (List.Forall₂ R) d := by
  intro here here' hrest hclosing hroom
  have hlength : here.rest.length + 1 ≤ here'.rest.length + 1 := by
    rw [hrest, List.length_append]
    omega
  have hshort : Mirrors behind 1 (here.rest.length + 1) d p q R d := hp.shrink hroom
  exact mirrors_manyWithin hshort (Nat.le_refl _) hlength here here' hrest hclosing
    (Nat.lt_succ_self _)

/-! ## White space -/

theorem isFlat_of_isBlank {c : Char} (h : isBlank c = true) : isFlat c = true :=
  forall_mem_of_all (P := (isFlat · = true)) (by decide) c (mem_of_isBlank h)

theorem mirrors_blanks (hbehind : Stops behind) :
    Mirrors behind 0 room d blanks blanks Eq d := by
  have hchar : Mirrors behind 1 room d (char isBlank) (char isBlank) Eq d :=
    mirrors_flat (fun _ => isFlat_of_isBlank) (hbehind.eq_false (by decide))
  exact hchar.many.bind fun _ _ _ => mirrors_pure rfl

theorem Mirrors.spaced (hbehind : Stops behind) (h : Mirrors behind used room d p q R e) :
    Mirrors behind used room d (spaced p) (spaced q) R e :=
  (mirrors_blanks hbehind).bind_after fun _ _ _ => h

theorem Mirrors.manySpaced (hbehind : Stops behind) (h : Mirrors behind 1 room d p q R d) :
    Mirrors behind 0 room d (manySpaced p) (manySpaced q) (List.Forall₂ R) d := by
  refine Mirrors.orElse (h.zero.bind fun a a' ha => ?_) (mirrors_pure .nil)
  exact (h.spaced hbehind).many.bind fun as as' has => mirrors_pure (.cons ha has)

end Scan

end Sift
