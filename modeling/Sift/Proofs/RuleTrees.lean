import Sift.Filter.RuleTree
import Sift.Proofs.Taken

/-!
# Scanners that read the same

* `Mimics p q R`: the scanners `p` and `q` read the same from every place, fail at the same places
  on the way, and what they find is related.
* `Mimics.bind`, `Mimics.orElse`, `Mimics.many`, …: one rule for each way to put scanners together.
* `Mimics.of_quiet`: scanners without named rules inside, compared for each text ahead.
* `mimics_rule`: what a rule reads as a node.
* `mimics_leaves`, `mimics_bracketed`, `mimics_interleaved`: nodes one after another.
-/

namespace Sift

namespace Scan

variable {α α' β β' : Type} {p : Scan α} {q : Scan β} {f : α → Scan α'} {g : β → Scan β'}

theorem reach_bind (p : Scan α) (f : α → Scan α') (here : Cursor) :
    ((p >>= f) here).reach = (p here).found.elim (p here).reach fun x =>
      max (p here).reach (f x.1 x.2).reach := by
  show (bind p f here).reach = _
  unfold bind
  cases h : (p here).found with
  | none => simp only [h, Option.elim_none]
  | some x => simp only [h, Option.elim_some]

theorem reach_orElse (p p' : Scan α) (here : Cursor) :
    ((p <|> p') here).reach = (p here).found.elim (max (p here).reach (p' here).reach) fun _ =>
      (p here).reach := by
  show (orElse p (fun _ => p') here).reach = _
  unfold orElse
  cases h : (p here).found with
  | none => simp only [h, Option.elim_none]
  | some x => simp only [h, Option.elim_some]

theorem reach_named (p : Scan α) (here : Cursor) :
    (named p here).reach = (p here).found.elim (max (p here).reach here.offset) fun _ =>
      (p here).reach := by
  unfold named
  cases h : (p here).found with
  | none => simp only [h, Option.elim_none]
  | some x => simp only [h, Option.elim_some]

theorem reach_withSpan (p : Scan α) (here : Cursor) :
    (withSpan p here).reach = (p here).reach := by
  show ((position >>= _) here).reach = _
  rw [reach_bind]
  show max 0 ((p >>= _) here).reach = _
  rw [reach_bind, Nat.zero_max]
  cases (p here).found with
  | none => rfl
  | some x => exact Nat.max_zero _

theorem found_withSpan (p : Scan α) (here : Cursor) : (withSpan p here).found =
    (p here).found.map fun x => ((x.1, here.offset, x.2.offset - here.offset), x.2) := by
  show ((position >>= _) here).found = _
  rw [found_bind]
  show ((p >>= _) here).found = _
  rw [found_bind]
  cases (p here).found <;> rfl

/-- **Two scanners that read the same**: they find something from the same places, stop behind the
same text, and have failed at the same places on the way. What they find and the text read for it
are related. -/
structure Mimics (p : Scan α) (q : Scan β) (R : α → List Char → β → Prop) : Prop where
  reach : ∀ here, (q here).reach = (p here).reach
  none : ∀ here, (p here).found = none → (q here).found = none
  some : ∀ here a there, (p here).found = some (a, there) → ∃ cs b,
    (q here).found = some (b, there) ∧ here.rest = cs ++ there.rest ∧ there.stop = here.stop ∧
      R a cs b

namespace Mimics

variable {R R' : α → List Char → β → Prop} {S : α' → List Char → β' → Prop}

theorem mono (h : Mimics p q R) (hR : ∀ a cs b, R a cs b → R' a cs b) : Mimics p q R' := by
  refine ⟨h.reach, h.none, fun here a there hfound => ?_⟩
  obtain ⟨cs, b, hb, hcs, hstop, hab⟩ := h.some here a there hfound
  exact ⟨cs, b, hb, hcs, hstop, hR a cs b hab⟩

/-- A scanner reads the same as itself. -/
theorem refl {P : α → List Char → Prop} (h : Takes p P) :
    Mimics p p fun a cs b => b = a ∧ P a cs := by
  refine ⟨fun _ => rfl, fun _ hnone => hnone, fun here a there hfound => ?_⟩
  obtain ⟨cs, hcs, hstop, ha⟩ := h here a there trivial hfound
  exact ⟨cs, a, hfound, hcs, hstop, rfl, ha⟩

/-- What one of the scanners is known to take. -/
theorem and_takes {P : α → List Char → Prop} (h : Mimics p q R) (hp : Takes p P) :
    Mimics p q fun a cs b => R a cs b ∧ P a cs := by
  refine ⟨h.reach, h.none, fun here a there hfound => ?_⟩
  obtain ⟨cs, b, hb, hcs, hstop, hab⟩ := h.some here a there hfound
  obtain ⟨cs', hcs', -, ha⟩ := hp here a there trivial hfound
  have hsame : cs = cs' := List.append_cancel_right (hcs.symm.trans hcs')
  subst hsame
  exact ⟨cs, b, hb, hcs, hstop, hab, ha⟩

theorem pure {a : α} {b : β} (h : R a [] b) : Mimics (Pure.pure a) (Pure.pure b) R := by
  refine ⟨fun _ => rfl, (fun _ hnone => nomatch hnone), ?_⟩
  rintro here _ there ⟨⟩
  exact ⟨[], b, rfl, rfl, rfl, h⟩

theorem fail : Mimics (Scan.fail : Scan α) (Scan.fail : Scan β) R :=
  ⟨fun _ => rfl, fun _ _ => rfl, fun _ _ _ hfound => nomatch hfound⟩

theorem bind (hp : Mimics p q R)
    (hf : ∀ a cs b, R a cs b → Mimics (f a) (g b) fun a' cs' b' => S a' (cs ++ cs') b') :
    Mimics (p >>= f) (q >>= g) S := by
  constructor
  · intro here
    rw [reach_bind, reach_bind, hp.reach]
    cases hfound : (p here).found with
    | none => rw [hp.none here hfound]; rfl
    | some x =>
      obtain ⟨cs, b, hb, -, -, hab⟩ := hp.some here x.1 x.2 hfound
      rw [hb, Option.elim_some, Option.elim_some, (hf x.1 cs b hab).reach]
  · intro here hnone
    rw [found_bind] at hnone ⊢
    cases hfound : (p here).found with
    | none => rw [hp.none here hfound]; rfl
    | some x =>
      obtain ⟨cs, b, hb, -, -, hab⟩ := hp.some here x.1 x.2 hfound
      rw [hfound, Option.bind_some] at hnone
      rw [hb, Option.bind_some]
      exact (hf x.1 cs b hab).none x.2 hnone
  · intro here a' last hfound
    obtain ⟨a, there, hfirst, hsecond⟩ := found_bind_eq_some.1 hfound
    obtain ⟨cs, b, hb, hcs, hstop, hab⟩ := hp.some here a there hfirst
    obtain ⟨cs', b', hb', hcs', hstop', hab'⟩ := (hf a cs b hab).some there a' last hsecond
    refine ⟨cs ++ cs', b', found_bind_eq_some.2 ⟨b, there, hb, hb'⟩, ?_, hstop'.trans hstop, hab'⟩
    rw [hcs, hcs', List.append_assoc]

/-- What one scanner finds is turned into something else. -/
theorem map_left (h : Mimics p q R) (k : α → α') :
    Mimics (k <$> p) q fun a' cs b => ∃ a, a' = k a ∧ R a cs b := by
  have hfound (here : Cursor) : ((k <$> p) here).found =
      (p here).found.map fun x => (k x.1, x.2) := by
    show ((p >>= fun a => Pure.pure (k a)) here).found = _
    rw [found_bind, Option.map_eq_bind]
    rfl
  have hreach (here : Cursor) : ((k <$> p) here).reach = (p here).reach := by
    show ((p >>= fun a => Pure.pure (k a)) here).reach = _
    rw [reach_bind]
    cases (p here).found with
    | none => rfl
    | some x => exact Nat.max_zero _
  constructor
  · intro here
    rw [hreach, h.reach]
  · intro here hnone
    rw [hfound, Option.map_eq_none_iff] at hnone
    exact h.none here hnone
  · intro here a' there hsome
    rw [hfound, Option.map_eq_some_iff] at hsome
    obtain ⟨⟨a, _⟩, ha, rfl, rfl⟩ := by simpa only [Prod.mk.injEq] using hsome
    obtain ⟨cs, b, hb, hcs, hstop, hab⟩ := h.some here a _ ha
    exact ⟨cs, b, hb, hcs, hstop, a, rfl, hab⟩

theorem symm (h : Mimics p q R) : Mimics q p fun b cs a => R a cs b := by
  constructor
  · exact fun here => (h.reach here).symm
  · intro here hnone
    cases hfound : (p here).found with
    | none => rfl
    | some x =>
      obtain ⟨_, b, hb, -⟩ := h.some here x.1 x.2 hfound
      rw [hnone] at hb
      cases hb
  · intro here b there hfound
    cases hp : (p here).found with
    | none =>
      rw [h.none here hp] at hfound
      cases hfound
    | some x =>
      obtain ⟨cs, b', hb', hcs, hstop, hab⟩ := h.some here x.1 x.2 hp
      rw [hfound] at hb'
      cases hb'
      exact ⟨cs, x.1, rfl, hcs, hstop, hab⟩

/-- What the other scanner finds is turned into something else. -/
theorem map_right (h : Mimics p q R) (k : β → β') :
    Mimics p (k <$> q) fun a cs b' => ∃ b, b' = k b ∧ R a cs b := (h.symm.map_left k).symm

theorem orElse {p' : Scan α} {q' : Scan β} (hp : Mimics p q R) (hp' : Mimics p' q' R) :
    Mimics (p <|> p') (q <|> q') R := by
  constructor
  · intro here
    rw [reach_orElse, reach_orElse, hp.reach, hp'.reach]
    cases hfound : (p here).found with
    | none => rw [hp.none here hfound]; rfl
    | some x =>
      obtain ⟨_, b, hb, -⟩ := hp.some here x.1 x.2 hfound
      rw [hb]
      rfl
  · intro here hnone
    rw [found_orElse, Option.or_eq_none_iff] at hnone ⊢
    exact ⟨hp.none here hnone.1, hp'.none here hnone.2⟩
  · intro here a there hfound
    rw [found_orElse, Option.or_eq_some_iff] at hfound
    rw [found_orElse]
    rcases hfound with hfound | ⟨hnone, hfound⟩
    · obtain ⟨cs, b, hb, h⟩ := hp.some here a there hfound
      exact ⟨cs, b, by rw [hb, Option.some_or], h⟩
    · obtain ⟨cs, b, hb, h⟩ := hp'.some here a there hfound
      exact ⟨cs, b, by rw [hp.none here hnone, Option.none_or, hb], h⟩

/-! ### Repetition -/

variable {T : List α → List Char → List β → Prop}

theorem manyWithin (h : Mimics p q R) (hnil : T [] [] [])
    (hcons : ∀ a cs b as cs' bs, R a cs b → T as cs' bs → T (a :: as) (cs ++ cs') (b :: bs))
    (room : List Char) : Mimics (Scan.manyWithin room p) (Scan.manyWithin room q) T := by
  induction room with
  | nil =>
    refine ⟨h.reach, (fun _ hnone => nomatch hnone), ?_⟩
    rintro here _ there ⟨⟩
    exact ⟨[], [], rfl, rfl, rfl, hnil⟩
  | cons c room ih =>
    refine Mimics.orElse (h.bind fun a cs b hab => ih.bind fun as cs' bs hbs =>
      Mimics.pure ?_) (Mimics.pure hnil)
    rw [List.append_nil]
    exact hcons a cs b as cs' bs hab hbs

theorem many (h : Mimics p q R) (hnil : T [] [] [])
    (hcons : ∀ a cs b as cs' bs, R a cs b → T as cs' bs → T (a :: as) (cs ++ cs') (b :: bs)) :
    Mimics (Scan.many p) (Scan.many q) T := by
  have hwithin := h.manyWithin hnil hcons
  exact ⟨fun here => (hwithin here.rest).reach here, fun here => (hwithin here.rest).none here,
    fun here => (hwithin here.rest).some here⟩

/-- White space is read alike. -/
theorem spaced (h : Mimics p q R) (hR : ∀ a bs cs b, R a cs b → R' a (bs ++ cs) b) :
    Mimics (Scan.spaced p) (Scan.spaced q) R' :=
  (refl takes_blanks).bind fun _ bs _ _ => h.mono fun a cs b hab => hR a bs cs b hab

theorem manySpaced (h : Mimics p q R) (hR : ∀ a bs cs b, R a cs b → R a (bs ++ cs) b)
    (hnil : T [] [] [])
    (hcons : ∀ a cs b as cs' bs, R a cs b → T as cs' bs → T (a :: as) (cs ++ cs') (b :: bs)) :
    Mimics (Scan.manySpaced p) (Scan.manySpaced q) T := by
  refine Mimics.orElse (h.bind fun a cs b hab =>
    ((h.spaced hR).many hnil hcons).bind fun as cs' bs hbs => Mimics.pure ?_) (Mimics.pure hnil)
  rw [List.append_nil]
  exact hcons a cs b as cs' bs hab hbs

end Mimics

/-! ### Scanners that record no failure -/

/-- A scanner without named rules inside. -/
def Quiet (p : Scan α) : Prop := ∀ here, (p here).reach = 0

theorem quiet_pure (a : α) : Quiet (Pure.pure a) := fun _ => rfl

theorem Quiet.bind (hp : Quiet p) (hf : ∀ a, Quiet (f a)) : Quiet (p >>= f) := by
  intro here
  rw [reach_bind, hp here]
  cases (p here).found with
  | none => rfl
  | some x => rw [Option.elim_some, hf x.1 x.2, Nat.max_self]

theorem Quiet.orElse {p' : Scan α} (hp : Quiet p) (hp' : Quiet p') : Quiet (p <|> p') := by
  intro here
  rw [reach_orElse, hp here, hp' here]
  cases (p here).found <;> rfl

theorem quiet_char (accepts : Char → Bool) : Quiet (char accepts) := by
  intro here
  unfold char
  split
  · rfl
  · split <;> rfl

theorem quiet_notBefore (stops : Char → Bool) : Quiet (notBefore stops) := by
  intro here
  unfold notBefore
  split
  · rfl
  · split <;> rfl

theorem quiet_word : ∀ w : List Char, Quiet (word w)
  | [] => quiet_pure ()
  | _ :: w => (quiet_char _).bind fun _ => quiet_word w

theorem quiet_choose : ∀ {ps : List (Scan α)}, (∀ p ∈ ps, Quiet p) → Quiet (choose ps)
  | [], _ => fun _ => rfl
  | _ :: _, h => (h _ List.mem_cons_self).orElse
      (quiet_choose fun p hp => h p (List.mem_cons_of_mem _ hp))

/-- Such scanners read the same if they do so for each text ahead. -/
theorem Mimics.of_quiet {R : α → List Char → β → Prop} (hp : Quiet p) (hq : Quiet q)
    (h : ∀ before, Fails p before ∧ Fails q before ∨ ∃ a cs after, before = cs ++ after ∧
      Reads p (· = a) before after ∧ Reads q (R a cs) before after) : Mimics p q R := by
  refine ⟨fun here => by rw [hp, hq], fun here hnone => ?_, fun here a there hfound => ?_⟩
  · rcases h here.rest with ⟨-, hfails⟩ | ⟨_, _, _, -, hreads, -⟩
    · exact hfails here rfl
    · obtain ⟨_, _, hfound, -⟩ := hreads here rfl
      rw [hnone] at hfound
      cases hfound
  · rcases h here.rest with ⟨hfails, -⟩ | ⟨_, cs, after, hcs, hp, hq⟩
    · rw [hfails here rfl] at hfound
      cases hfound
    · obtain ⟨_, _, hfound', hafter, hstop, rfl⟩ := hp here rfl
      rw [hfound] at hfound'
      cases hfound'
      obtain ⟨b, last, hb, hlast, hstop', hR⟩ := hq here rfl
      have hsame : last = there :=
        Cursor.eq_of_stop (hlast.trans hafter.symm) (hstop'.trans hstop.symm)
      exact ⟨cs, b, hsame ▸ hb, hafter ▸ hcs, hstop, hR⟩

end Scan

/-! ## Rules -/

namespace RuleGrammar

open Scan

variable {α β : Type} {p : Scan α} {q : Scan (List Pair)} {R : α → List Char → List Pair → Prop}

/-- What makes no node is read alike. -/
theorem mimics_silent_of {q : Scan β} {R : α → List Char → β → Prop} (h : Mimics p q R) :
    Mimics p (silent q) fun a cs ps => ps = [] ∧ ∃ b, R a cs b := by
  refine (h.map_right fun _ => []).mono ?_
  rintro a cs ps ⟨b, rfl, hab⟩
  exact ⟨rfl, b, hab⟩

theorem mimics_silent {P : α → List Char → Prop} (h : Takes p P) :
    Mimics p (silent p) fun a cs ps => ps = [] ∧ P a cs :=
  (mimics_silent_of (Mimics.refl h)).mono fun _ _ _ hR => ⟨hR.1, hR.2.elim fun _ hb => hb.2⟩

theorem found_noded (r : Rule) (q : Scan (List Pair)) (here : Cursor) : (noded r q here).found =
    (q here).found.map fun x => ([.node r ⟨here.offset, x.2.offset - here.offset⟩
      (here.rest.take (here.rest.length - x.2.rest.length)) x.1], x.2) := rfl

/-- **What a rule reads as a node**: the text and what is inside it. -/
theorem mimics_rule_withSpan (h : Mimics p q R) (r : Rule) :
    Mimics (withSpan (named p)) (rule r q) fun x cs ps =>
      ∃ inner, ps = [.node r ⟨x.2.1, x.2.2⟩ cs inner] ∧ R x.1 cs inner := by
  have hnone : ∀ here, (p here).found = none → (noded r q here).found = none := by
    intro here hp
    rw [found_noded, h.none here hp]
    rfl
  constructor
  · intro here
    rw [reach_withSpan, reach_named, rule, reach_named]
    have hnoded : (noded r q here).reach = (p here).reach := h.reach here
    rw [hnoded]
    cases hp : (p here).found with
    | none => rw [hnone here hp]; rfl
    | some x =>
      obtain ⟨_, b, hb, -⟩ := h.some here x.1 x.2 hp
      rw [found_noded, hb]
      rfl
  · intro here hwith
    rw [found_withSpan, found_named, Option.map_eq_none_iff] at hwith
    rw [rule, found_named, hnone here hwith]
  · intro here x there hwith
    rw [found_withSpan, found_named, Option.map_eq_some_iff] at hwith
    obtain ⟨⟨a, last⟩, hp, heq⟩ := hwith
    obtain ⟨rfl, rfl⟩ := Prod.mk.inj heq
    obtain ⟨cs, inner, hq, hcs, hstop, hR⟩ := h.some here a last hp
    have htext : here.rest.take (here.rest.length - last.rest.length) = cs := by
      rw [hcs, List.length_append, Nat.add_sub_cancel, List.take_left]
    refine ⟨cs, _, ?_, hcs, hstop, inner, rfl, hR⟩
    rw [rule, found_named, found_noded, hq, Option.map_some, htext]

/-- What a rule reads as a node, wherever it stands. -/
theorem mimics_rule (h : Mimics p q R) (r : Rule) : Mimics (named p) (rule r q) fun a cs ps =>
    ∃ span inner, ps = [.node r span cs inner] ∧ R a cs inner := by
  have hspan := mimics_rule_withSpan h r
  refine ⟨fun here => ?_, fun here hnone => ?_, fun here a there hfound => ?_⟩
  · rw [hspan.reach, reach_withSpan]
  · apply hspan.none
    rw [found_withSpan, hnone, Option.map_none]
  · have hfound' : (withSpan (named p) here).found =
        some ((a, here.offset, there.offset - here.offset), there) := by
      rw [found_withSpan, hfound, Option.map_some]
    obtain ⟨cs, ps, hps, hcs, hstop, inner, rfl, hR⟩ := hspan.some here _ there hfound'
    exact ⟨cs, _, hps, hcs, hstop, _, inner, rfl, hR⟩

/-! ### Nodes one after another -/

/-- A single node in some relation to what is found. -/
def IsOne {α : Type} (I : α → Pair → Prop) (a : α) (ps : List Pair) : Prop := ∃ p, ps = [p] ∧ I a p

/-- A node alone of some rule, with nothing inside. -/
def IsLeaf (r : Rule) (cs : List Char) (ps : List Pair) : Prop := ∃ span, ps = [.node r span cs []]

theorem mimics_leaf {α : Type} {p : Scan α} {P : α → List Char → Prop} (h : Takes p P) (r : Rule) :
    Mimics (named p) (rule r (silent p)) fun a cs ps => IsLeaf r cs ps ∧ P a cs := by
  refine (mimics_rule (mimics_silent h) r).mono ?_
  rintro a cs ps ⟨span, inner, rfl, rfl, ha⟩
  exact ⟨⟨span, rfl⟩, ha⟩

/-- White space in front changes nothing where the text does not matter. -/
theorem mimics_spaced {α : Type} {p : Scan α} {q : Scan (List Pair)} {R : α → List Pair → Prop}
    (h : Mimics p q fun a _ ps => R a ps) :
    Mimics (spaced p) (spaced q) fun a _ ps => R a ps :=
  h.spaced fun _ _ _ _ hR => hR

/-- A character after white space. -/
theorem mimics_mark (c : Char) : Mimics (spaced (exactly c)) (mark c) fun _ _ ps => ps = [] :=
  mimics_spaced ((mimics_silent (takes_exactly c)).mono fun _ _ _ h => h.1)

/-- What is read if it is there. -/
theorem mimics_perhaps {α : Type} {p : Scan α} {q : Scan (List Pair)}
    {R : α → List Char → List Pair → Prop} {S : Option α → List Pair → Prop} (h : Mimics p q R)
    (hsome : ∀ a cs ps, R a cs ps → S (some a) ps) (hnone : S none []) :
    Mimics (Scan.optional p) (perhaps q) fun o _ ps => S o ps := by
  refine Mimics.orElse ((h.map_left some).mono ?_) (Mimics.pure hnone)
  rintro _ cs ps ⟨a, rfl, ha⟩
  exact hsome a cs ps ha

/-- What is read again and again, with white space between. -/
theorem mimics_repeatedSpaced {α : Type} {p : Scan α} {q : Scan (List Pair)}
    {R : α → List Pair → Prop} {T : List α → List Pair → Prop} (h : Mimics p q fun a _ ps => R a ps)
    (hnil : T [] []) (hcons : ∀ a ps as qs, R a ps → T as qs → T (a :: as) (ps ++ qs)) :
    Mimics (manySpaced p) (repeatedSpaced q) fun as _ ps => T as ps := by
  have hmany : Mimics (manySpaced p) (manySpaced q) fun as _ pss => T as pss.flatten := by
    refine h.manySpaced (fun _ _ _ _ hR => hR) hnil ?_
    intro a _ ps as _ pss ha has
    rw [List.flatten_cons]
    exact hcons a ps as _ ha has
  refine (hmany.map_right List.flatten).mono ?_
  rintro as _ _ ⟨pss, rfl, h⟩
  exact h

/-- Nodes of one rule, as many as are found. -/
theorem mimics_leaves {p : Scan Unit} {q : Scan (List Pair)} {r : Rule}
    (h : Mimics p q fun _ cs ps => IsLeaf r cs ps) :
    Mimics (manySpaced p) (repeatedSpaced q) fun us _ ps =>
      us.length = ps.length ∧ ∀ p ∈ ps, p.rule = r := by
  have hone : Mimics p q fun _ _ ps => ∃ b, ps = [b] ∧ b.rule = r :=
    h.mono fun _ _ _ ⟨_, hps⟩ => ⟨_, hps, rfl⟩
  refine mimics_repeatedSpaced hone (T := fun us ps =>
    us.length = ps.length ∧ ∀ p ∈ ps, p.rule = r) (by simp) ?_
  rintro _ _ us ps ⟨b, rfl, hb⟩ ⟨hlength, hps⟩
  exact ⟨congrArg Nat.succ hlength, List.forall_mem_cons.2 ⟨hb, hps⟩⟩

/-- What stands between an opening and a closing character. -/
theorem mimics_bracketed {R : α → List Pair → Prop} (opening closing : Char)
    (h : Mimics p q fun a _ ps => R a ps) :
    Mimics (do
        exactly opening
        let a ← spaced p
        spaced (exactly closing)
        return a)
      (do
        let a ← silent (exactly opening)
        let b ← spaced q
        let c ← mark closing
        return a ++ b ++ c) fun a _ ps => R a ps := by
  refine (mimics_silent (takes_exactly opening)).bind fun _ _ a ha => ?_
  refine (mimics_spaced h).bind fun x _ b hb => ?_
  refine (((mimics_mark closing).map_left fun _ => x).map_right (a ++ b ++ ·)).mono ?_
  rintro _ _ _ ⟨c, rfl, _, rfl, rfl⟩
  rw [ha.1, List.nil_append, List.append_nil]
  exact hb

/-- Members with something else between them. -/
theorem mimics_interleaved {γ δ : Type} {k : Scan γ} {kq : Scan (List Pair)} {I : α → Pair → Prop}
    {K : List Pair → Prop} {T : List α → List Pair → Prop} (make : α → List α → δ)
    (h : Mimics p q fun a _ ps => IsOne I a ps) (hk : Mimics k kq fun _ _ ps => K ps)
    (hnil : T [] [])
    (hcons : ∀ a b as ks ps, I a b → K ks → T as ps → T (a :: as) (ks ++ b :: ps)) :
    Mimics (do
        let first ← p
        blanks
        let rest ← manySpaced do
          let _ ← k
          spaced p
        return make first rest)
      (do
        let a ← q
        blanks
        let b ← repeatedSpaced do
          let c ← kq
          let d ← spaced q
          return c ++ d
        return a ++ b) fun x _ ps =>
      ∃ first rest b bs, x = make first rest ∧ ps = b :: bs ∧ I first b ∧ T rest bs := by
  have hitem : Mimics (do let _ ← k; spaced p) (do let c ← kq; let d ← spaced q; return c ++ d)
      fun a _ ps => ∃ ks b, ps = ks ++ [b] ∧ K ks ∧ I a b := by
    refine hk.bind fun _ _ ks hks => ?_
    refine ((mimics_spaced h).map_right (ks ++ ·)).mono ?_
    rintro a _ _ ⟨_, rfl, b, rfl, hb⟩
    exact ⟨ks, b, rfl, hks, hb⟩
  refine h.bind fun a _ ps ha => (Mimics.refl takes_blanks).bind fun _ _ _ _ => ?_
  have hrest := mimics_repeatedSpaced hitem hnil (by
    rintro a _ as ps ⟨ks, b, rfl, hks, hb⟩ has
    rw [List.append_assoc]
    exact hcons a b as ks ps hb hks has)
  refine ((hrest.map_left (make a)).map_right (ps ++ ·)).mono ?_
  rintro _ _ _ ⟨bs, rfl, as, rfl, has⟩
  obtain ⟨b, rfl, hb⟩ := ha
  exact ⟨a, as, b, bs, rfl, rfl, hb, has⟩

end RuleGrammar

end Sift
