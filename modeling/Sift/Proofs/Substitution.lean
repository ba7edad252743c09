import Mathlib.Data.List.Infix
import Mathlib.Data.List.TakeWhile
import Sift.Settings.Expansion

/-!
# Variables are replaced one after the other

* `Environment.pieces`: a text as characters and references to variables.
* `Environment.substitute`: all references to variables that are set, replaced at once.
* `Text.places`: how often a piece occurs in a text.
* `Environment.replaceAll_iff`: a name is replaced only where it is referred to if and only if its
  reference occurs nowhere else.
* `Environment.Undisturbed`: no replacement brings up a reference to a name whose turn is to come.
* `Environment.expand_eq_substitute`: **then the replacements add up to one substitution.**
* `Environment.exists_expanded_twice`: they do not always.
-/

namespace Sift

/-! ## Places of a piece in a text -/

namespace Text

/-- How often a piece occurs in a text. -/
def places (piece : List Char) : List Char → Nat
  | [] => 0
  | c :: rest => (if piece.isPrefixOf (c :: rest) then 1 else 0) + places piece rest

/-- **Pieces that cannot overlap themselves**: nothing but all of the piece both ends and begins
it. -/
structure Unbordered (piece : List Char) : Prop where
  ne_nil : piece ≠ []
  eq_of_border : ∀ w, w <:+ piece → w <+: piece → w = [] ∨ w = piece

variable {piece value u w rest text : List Char} {c : Char}

theorem places_cons_of_not (h : ¬piece <+: c :: rest) :
    places piece (c :: rest) = places piece rest := by
  rw [places, if_neg (by rwa [List.isPrefixOf_iff_prefix]), Nat.zero_add]

theorem places_cons_of_begins (h : piece <+: c :: rest) :
    places piece (c :: rest) = places piece rest + 1 := by
  rw [places, if_pos (List.isPrefixOf_iff_prefix.2 h), Nat.add_comm]

theorem replaceAll_cons_of_not (h : ¬piece <+: c :: rest) :
    replaceAll piece value (c :: rest) = c :: replaceAll piece value rest := by
  rw [replaceAll, replaceFrom, if_neg (by rwa [List.isPrefixOf_iff_prefix])]
  rfl

theorem replaceFrom_append (piece value rest : List Char) : ∀ u : List Char,
    replaceFrom piece value u.length (u ++ rest) = replaceAll piece value rest
  | [] => rfl
  | _ :: u => replaceFrom_append piece value rest u

/-- A piece at the front gives way to the value. -/
theorem replaceAll_piece (h : piece ≠ []) (value rest : List Char) :
    replaceAll piece value (piece ++ rest) = value ++ replaceAll piece value rest := by
  obtain ⟨c, u, rfl⟩ := List.exists_cons_of_ne_nil h
  have hfront : (c :: u).isPrefixOf (c :: (u ++ rest)) :=
    List.isPrefixOf_iff_prefix.2 (List.prefix_append (c :: u) rest)
  rw [List.cons_append, replaceAll, replaceFrom, if_pos hfront]
  exact congrArg (value ++ ·) (replaceFrom_append (c :: u) value rest u)

/-- What holds of texts along the places of a piece in them holds of all. -/
theorem piece_induction {motive : List Char → Prop} (hpiece : piece ≠ []) (nil : motive [])
    (found : ∀ rest, motive rest → motive (piece ++ rest))
    (other : ∀ c rest, ¬piece <+: c :: rest → motive rest → motive (c :: rest))
    (text : List Char) : motive text := by
  induction h : text.length using Nat.strong_induction_on generalizing text with
  | _ n ih =>
    subst h
    cases text with
    | nil => exact nil
    | cons c rest =>
      by_cases hfront : piece <+: c :: rest
      · obtain ⟨after, hafter⟩ := hfront
        have hlt : after.length < (c :: rest).length := by
          rw [← hafter, List.length_append]
          exact Nat.lt_add_of_pos_left (List.length_pos_of_ne_nil hpiece)
        rw [← hafter]
        exact found after (ih _ hlt after rfl)
      · exact other c rest hfront (ih _ (Nat.lt_succ_self _) rest rfl)

theorem replaceAll_self (h : piece ≠ []) (text : List Char) :
    replaceAll piece piece text = text := by
  induction text using piece_induction h with
  | nil => rfl
  | found rest ih => rw [replaceAll_piece h, ih]
  | other c rest hfront ih => rw [replaceAll_cons_of_not hfront, ih]

theorem places_le_append (piece rest : List Char) : ∀ u : List Char,
    places piece rest ≤ places piece (u ++ rest)
  | [] => Nat.le_refl _
  | _ :: u => Nat.le_trans (places_le_append piece rest u) (Nat.le_add_left _ _)

/-- A piece that does not begin within a text in front is replaced behind that text. -/
theorem replaceAll_append (value : List Char)
    (h : places piece (u ++ rest) = places piece rest) :
    replaceAll piece value (u ++ rest) = u ++ replaceAll piece value rest := by
  induction u with
  | nil => rfl
  | cons c u ih =>
    have hle := places_le_append piece rest u
    rw [List.cons_append] at h ⊢
    by_cases hfront : piece <+: c :: (u ++ rest)
    · rw [places_cons_of_begins hfront] at h
      omega
    · rw [places_cons_of_not hfront] at h
      rw [replaceAll_cons_of_not hfront, ih h, List.cons_append]

theorem places_append_of_not (h : ∀ w, w <:+ u → w ≠ [] → ¬piece <+: w ++ rest) :
    places piece (u ++ rest) = places piece rest := by
  induction u with
  | nil => rfl
  | cons c u ih =>
    have hfront : ¬piece <+: c :: (u ++ rest) :=
      h (c :: u) (List.suffix_refl _) (List.cons_ne_nil c u)
    rw [List.cons_append, places_cons_of_not hfront]
    exact ih fun w hw => h w (hw.trans (List.suffix_cons c u))

/-- The first place of a piece that begins within a text in front. -/
theorem exists_place (h : places piece (u ++ rest) ≠ places piece rest) :
    ∃ v w, u = v ++ w ∧ w ≠ [] ∧ piece <+: w ++ rest ∧
      places piece (v ++ (w ++ rest)) = places piece (w ++ rest) := by
  induction u with
  | nil => exact absurd rfl h
  | cons c u ih =>
    by_cases hfront : piece <+: c :: (u ++ rest)
    · exact ⟨[], c :: u, rfl, List.cons_ne_nil c u, hfront, rfl⟩
    · rw [List.cons_append, places_cons_of_not hfront] at h
      obtain ⟨v, w, rfl, hw, hplace, hv⟩ := ih h
      refine ⟨c :: v, w, rfl, hw, hplace, ?_⟩
      rw [List.append_assoc] at hfront
      rw [List.cons_append, places_cons_of_not hfront, hv]

section Unbordered

variable (h : Unbordered piece)

include h

theorem Unbordered.not_prefix (hw : w <:+ piece) (hne : w ≠ piece) (hnil : w ≠ []) :
    ¬piece <+: w ++ rest := by
  intro hfront
  have hborder : w <+: piece := List.prefix_of_prefix_length_le (List.prefix_append w rest) hfront
    hw.length_le
  exact (h.eq_of_border w hw hborder).elim hnil hne

theorem Unbordered.places_piece (rest : List Char) :
    places piece (piece ++ rest) = places piece rest + 1 := by
  obtain ⟨c, u, rfl⟩ := List.exists_cons_of_ne_nil h.ne_nil
  have hfront : c :: u <+: c :: (u ++ rest) := List.prefix_append (c :: u) rest
  rw [List.cons_append, places_cons_of_begins hfront]
  refine congrArg (· + 1) (places_append_of_not fun w hw hnil => ?_)
  refine h.not_prefix (hw.trans (List.suffix_cons c u)) (fun heq => ?_) hnil
  have hlen := hw.length_le
  rw [heq, List.length_cons] at hlen
  omega

theorem Unbordered.length_replaceAll (value text : List Char) :
    (replaceAll piece value text).length + places piece text * piece.length =
      text.length + places piece text * value.length := by
  induction text using piece_induction h.ne_nil with
  | nil => simp [replaceAll, replaceFrom, places]
  | found rest ih =>
    rw [replaceAll_piece h.ne_nil, h.places_piece, List.length_append, List.length_append,
      Nat.succ_mul, Nat.succ_mul]
    omega
  | other c rest hfront ih =>
    rw [replaceAll_cons_of_not hfront, places_cons_of_not hfront, List.length_cons,
      List.length_cons]
    omega

end Unbordered

end Text

namespace Environment

/-! ## References -/

/-- The names that references can have. -/
def IsName (name : List Char) : Prop := name ≠ [] ∧ '\x7d' ∉ name

section References

variable {name text : List Char}

theorem takeWhile_brace {rest : List Char} (h : '\x7d' ∉ name) :
    (name ++ '\x7d' :: rest).takeWhile (· != '\x7d') = name := by
  rw [List.takeWhile_append_of_pos, List.takeWhile_cons_of_neg (by decide), List.append_nil]
  intro c hc
  rw [bne_iff_ne]
  rintro rfl
  exact h hc

theorem reference_append (name rest : List Char) :
    reference name ++ rest = '$' :: '\x7b' :: (name ++ '\x7d' :: rest) := by
  simp [reference]

theorem reference_inj {m n x y : List Char} (hm : '\x7d' ∉ m) (hn : '\x7d' ∉ n)
    (h : reference m ++ x = reference n ++ y) : m = n := by
  have htail : m ++ '\x7d' :: x = n ++ '\x7d' :: y := by
    simpa [reference_append] using h
  rw [← takeWhile_brace hm, htail, takeWhile_brace hn]

theorem reference_ne_nil (name : List Char) : reference name ≠ [] := List.cons_ne_nil _ _

/-- Only at its end is there the brace that ends a reference. -/
theorem unbordered_reference (h : IsName name) : Text.Unbordered (reference name) := by
  refine ⟨reference_ne_nil name, fun w hsuffix hbegins => ?_⟩
  have hinner : '\x7d' ∉ '$' :: '\x7b' :: name := by simp [h.2]
  rcases List.suffix_concat_iff.1 hsuffix with rfl | ⟨t, rfl, -⟩
  · exact Or.inl rfl
  · rcases List.prefix_concat_iff.1 hbegins with hall | hpart
    · exact Or.inr hall
    · exact absurd (hpart.subset (List.mem_append_right t (List.mem_singleton_self _))) hinner

theorem referenceAt?_eq_some : referenceAt? text = some name ↔
    IsName name ∧ reference name <+: text := by
  constructor
  · intro h
    unfold referenceAt? at h
    split at h
    · rename_i rest
      by_cases hbrace : '\x7d' ∈ rest
      · obtain ⟨before, after, rfl, hbefore⟩ := List.eq_append_cons_of_mem hbrace
        simp only [takeWhile_brace hbefore] at h
        split at h
        · cases h
        · rename_i hname
          cases h
          exact ⟨⟨(not_or.1 hname).1, hbefore⟩, after, reference_append _ after⟩
      · have htake : rest.takeWhile (· != '\x7d') = rest := by
          rw [List.takeWhile_eq_self_iff]
          intro c hc
          rw [bne_iff_ne]
          rintro rfl
          exact hbrace hc
        simp only [htake, or_true, if_true] at h
        cases h
    · cases h
  · rintro ⟨⟨hne, hbrace⟩, rest, rfl⟩
    have htake : (name ++ '\x7d' :: rest).takeWhile (· != '\x7d') = name := takeWhile_brace hbrace
    have hlen : name.length ≠ (name ++ '\x7d' :: rest).length := by simp
    rw [reference_append]
    simp only [referenceAt?, htake]
    rw [if_neg (not_or.2 ⟨hne, hlen⟩)]

end References

/-! ## Pieces of a text -/

/-- The pieces of a text: characters, references to variables, and values in the place of such. -/
inductive Piece where
  | plain (c : Char)
  | reference (name : List Char)
  | value (text : List Char)
  deriving DecidableEq

namespace Piece

/-- The text of a piece. -/
def text : Piece → List Char
  | plain c => [c]
  | reference name => Environment.reference name
  | value text => text

/-- The name that a piece refers to. -/
def name? : Piece → Option (List Char)
  | reference name => some name
  | _ => none

/-- A value in the place of the references to a name. -/
def fill (name value : List Char) (p : Piece) : Piece :=
  if p = .reference name then .value value else p

/-- A piece with the value of the variable that it refers to, if that is set. -/
def filled (env : Environment) : Piece → Piece
  | reference name =>
    match env.lookup (String.ofList name) with
    | some v => .value v.toList
    | none => .reference name
  | p => p

/-- A piece with the value of the variable that it refers to, if the name is among some. -/
def filledAmong (env : Environment) (names : List (List Char)) : Piece → Piece
  | reference name =>
    if name ∈ names then (Piece.reference name).filled env else .reference name
  | p => p

end Piece

/-- The text of several pieces. -/
def textOf (ps : List Piece) : List Char := ps.flatMap Piece.text

/-- The pieces of a text, from left to right. The first `skip` characters belong to the last
reference. -/
def piecesFrom (skip : Nat) : List Char → List Piece
  | [] => []
  | c :: rest =>
    match skip with
    | skip + 1 => piecesFrom skip rest
    | 0 =>
      match referenceAt? (c :: rest) with
      | some name => .reference name :: piecesFrom (name.length + 2) rest
      | none => .plain c :: piecesFrom 0 rest

/-- The pieces of a text. -/
def pieces (text : List Char) : List Piece := piecesFrom 0 text

/-- **A text with all references at once replaced** by the values of the variables that are set.
Everything else is left as it is. -/
def substitute (env : Environment) (text : String) : String :=
  String.ofList (textOf ((pieces text.toList).map (Piece.filled env)))

/-- **The pieces of a text that refers to variables**: its references, each as far to the left as
possible, and the characters between them. -/
inductive IsCut : List Piece → Prop
  | nil : IsCut []
  | plain {c : Char} {ps : List Piece} (hps : IsCut ps)
    (h : ∀ name, IsName name → ¬reference name <+: c :: textOf ps) : IsCut (.plain c :: ps)
  | reference {name : List Char} {ps : List Piece} (hps : IsCut ps) (h : IsName name) :
    IsCut (.reference name :: ps)

section Pieces

variable {name : List Char} {ps : List Piece}

theorem textOf_cons (p : Piece) (ps : List Piece) : textOf (p :: ps) = p.text ++ textOf ps :=
  List.flatMap_cons

theorem piecesFrom_append (rest : List Char) : ∀ u : List Char,
    piecesFrom u.length (u ++ rest) = pieces rest
  | [] => rfl
  | _ :: u => piecesFrom_append rest u

theorem pieces_reference (h : IsName name) (rest : List Char) :
    pieces (reference name ++ rest) = .reference name :: pieces rest := by
  have hfront : referenceAt? ('$' :: (('\x7b' :: name ++ ['\x7d']) ++ rest)) = some name :=
    referenceAt?_eq_some.2 ⟨h, List.prefix_append (reference name) rest⟩
  have hskip : piecesFrom (name.length + 2) (('\x7b' :: name ++ ['\x7d']) ++ rest) =
      pieces rest := by
    have hlen : name.length + 2 = ('\x7b' :: name ++ ['\x7d']).length := by simp
    rw [hlen, piecesFrom_append]
  rw [← hskip]
  show piecesFrom 0 ('$' :: (('\x7b' :: name ++ ['\x7d']) ++ rest)) = _
  rw [piecesFrom]
  simp only [hfront]

/-- **The pieces make up the text**, and are what it has to be cut into. -/
theorem pieces_spec (text : List Char) : textOf (pieces text) = text ∧ IsCut (pieces text) := by
  induction h : text.length using Nat.strong_induction_on generalizing text with
  | _ n ih =>
    subst h
    cases text with
    | nil => exact ⟨rfl, .nil⟩
    | cons c rest =>
      cases hfront : referenceAt? (c :: rest) with
      | none =>
        obtain ⟨htext, hcut⟩ := ih _ (Nat.lt_succ_self _) rest rfl
        have hpieces : pieces (c :: rest) = .plain c :: pieces rest := by
          rw [pieces, piecesFrom]
          simp only [hfront]
          rfl
        rw [hpieces]
        refine ⟨congrArg (c :: ·) htext, .plain hcut fun name hname hbegins => ?_⟩
        rw [htext] at hbegins
        rw [referenceAt?_eq_some.2 ⟨hname, hbegins⟩] at hfront
        cases hfront
      | some name =>
        obtain ⟨hname, after, hafter⟩ := referenceAt?_eq_some.1 hfront
        have hlt : after.length < (c :: rest).length := by
          rw [← hafter, List.length_append]
          exact Nat.lt_add_of_pos_left (Nat.succ_pos _)
        obtain ⟨htext, hcut⟩ := ih _ hlt after rfl
        rw [← hafter, pieces_reference hname]
        exact ⟨congrArg (reference name ++ ·) htext, .reference hcut hname⟩

theorem referencesFrom_eq : ∀ (text : List Char) (skip : Nat),
    referencesFrom skip text = (piecesFrom skip text).filterMap Piece.name?
  | [], _ => rfl
  | _ :: rest, skip + 1 => referencesFrom_eq rest skip
  | c :: rest, 0 => by
    rw [referencesFrom, piecesFrom]
    cases referenceAt? (c :: rest) with
    | none => exact referencesFrom_eq rest 0
    | some name => exact congrArg (name :: ·) (referencesFrom_eq rest (name.length + 2))

theorem mem_references : name ∈ references text ↔ .reference name ∈ pieces text := by
  rw [references, referencesFrom_eq, List.mem_filterMap]
  constructor
  · rintro ⟨p, hp, hname⟩
    cases p <;> cases hname
    exact hp
  · exact fun h => ⟨_, h, rfl⟩

theorem isName_of_isCut (h : IsCut ps) (hname : .reference name ∈ ps) : IsName name := by
  induction h with
  | nil => cases hname
  | plain hps _ ih =>
    rcases List.mem_cons.1 hname with heq | hname
    · cases heq
    · exact ih hname
  | reference hps hn ih =>
    rcases List.mem_cons.1 hname with heq | hname
    · cases heq
      exact hn
    · exact ih hname

end Pieces

/-! ## One replacement -/

section Filling

variable {name value : List Char} {ps : List Piece}

theorem Piece.fill_reference : Piece.fill name value (.reference name) = .value value := if_pos rfl

theorem Piece.fill_of_ne {p : Piece} (h : p ≠ .reference name) : Piece.fill name value p = p :=
  if_neg h

/-- Each reference to a name is a place of what refers to it. -/
theorem count_le_places (h : IsName name) (ps : List Piece) :
    ps.count (.reference name) ≤ Text.places (reference name) (textOf ps) := by
  induction ps with
  | nil => exact Nat.zero_le _
  | cons p ps ih =>
    rw [textOf_cons]
    by_cases hp : p = .reference name
    · subst hp
      rw [List.count_cons_self, Piece.text, (unbordered_reference h).places_piece]
      omega
    · rw [List.count_cons_of_ne hp]
      exact Nat.le_trans ih (Text.places_le_append _ _ _)

/-- **A name that occurs only in references to it is replaced only there.** -/
theorem replaceAll_textOf (h : IsName name)
    (hplaces : Text.places (reference name) (textOf ps) = ps.count (.reference name)) :
    Text.replaceAll (reference name) value (textOf ps) =
      textOf (ps.map (Piece.fill name value)) := by
  induction ps with
  | nil => rfl
  | cons p ps ih =>
    rw [textOf_cons] at hplaces
    rw [textOf_cons, List.map_cons, textOf_cons]
    by_cases hp : p = .reference name
    · subst hp
      rw [List.count_cons_self, Piece.text, (unbordered_reference h).places_piece] at hplaces
      rw [Piece.fill_reference, Piece.text, Text.replaceAll_piece (reference_ne_nil name),
        ih (by omega)]
      rfl
    · rw [List.count_cons_of_ne hp] at hplaces
      have hle := Text.places_le_append (reference name) (textOf ps) p.text
      have hcount := count_le_places h ps
      rw [Piece.fill_of_ne hp, Text.replaceAll_append value (by omega), ih (by omega)]

theorem length_textOf_fill (name value : List Char) (ps : List Piece) :
    (textOf (ps.map (Piece.fill name value))).length +
        ps.count (.reference name) * (reference name).length =
      (textOf ps).length + ps.count (.reference name) * value.length := by
  induction ps with
  | nil => simp [textOf]
  | cons p ps ih =>
    rw [List.map_cons, textOf_cons, textOf_cons, List.length_append, List.length_append]
    by_cases hp : p = .reference name
    · subst hp
      rw [Piece.fill_reference, List.count_cons_self, Nat.succ_mul, Nat.succ_mul, Piece.text,
        Piece.text]
      omega
    · rw [Piece.fill_of_ne hp, List.count_cons_of_ne hp]
      omega

/-- The end of a reference that begins before some pieces is none of those that are filled. -/
theorem prefix_textOf_fill (h : IsName name) {x : List Char} (hx : x <:+ reference name)
    (hne : x ≠ reference name) (hbegins : x <+: textOf ps) :
    x <+: textOf (ps.map (Piece.fill name value)) := by
  induction ps generalizing x with
  | nil => exact hbegins
  | cons p ps ih =>
    rw [textOf_cons] at hbegins
    rw [List.map_cons, textOf_cons]
    by_cases hp : p = .reference name
    · subst hp
      have hborder : x <+: reference name :=
        List.prefix_of_prefix_length_le hbegins (List.prefix_append _ _) hx.length_le
      rcases (unbordered_reference h).eq_of_border x hx hborder with rfl | heq
      · exact List.nil_prefix
      · exact absurd heq hne
    · rw [Piece.fill_of_ne hp]
      obtain ⟨rest, hrest⟩ := hbegins
      rcases List.append_eq_append_iff.1 hrest with ⟨y, hy, -⟩ | ⟨y, rfl, hy⟩
      · rw [hy, List.append_assoc]
        exact List.prefix_append _ _
      · rw [List.prefix_append_right_inj]
        have hsuffix : y <:+ reference name := (List.suffix_append _ _).trans hx
        refine ih hsuffix (fun heq => hne ?_) ⟨rest, hy.symm⟩
        refine hx.eq_of_length (Nat.le_antisymm hx.length_le ?_)
        rw [← heq]
        exact (List.suffix_append _ _).length_le

theorem textOf_fill_self (name : List Char) (ps : List Piece) :
    textOf (ps.map (Piece.fill name (reference name))) = textOf ps := by
  induction ps with
  | nil => rfl
  | cons p ps ih =>
    rw [List.map_cons, textOf_cons, textOf_cons, ih]
    by_cases hp : p = .reference name
    · subst hp
      rw [Piece.fill_reference]
      rfl
    · rw [Piece.fill_of_ne hp]

theorem prefix_append_textOf_fill (h : IsName name) {w : List Char} (hw : w ≠ [])
    (hbegins : reference name <+: w ++ textOf ps) :
    reference name <+: w ++ textOf (ps.map (Piece.fill name value)) := by
  obtain ⟨rest, hrest⟩ := hbegins
  rcases List.append_eq_append_iff.1 hrest with ⟨y, rfl, -⟩ | ⟨x, hx, htext⟩
  · rw [List.append_assoc]
    exact List.prefix_append _ _
  · rw [hx, List.prefix_append_right_inj]
    have hsuffix : x <:+ reference name := hx ▸ List.suffix_append w x
    refine prefix_textOf_fill h hsuffix (fun heq => hw ?_) ⟨rest, htext.symm⟩
    rw [heq] at hx
    exact List.self_eq_append_left.1 hx

/-- Where a reference is none of the pieces, the text has the value, but they still have the
reference. -/
theorem places_of_length_eq (h : IsName name) (hvalue : value ≠ reference name)
    (hlength : value.length = (reference name).length)
    (heq : Text.replaceAll (reference name) value (textOf ps) =
      textOf (ps.map (Piece.fill name value))) :
    Text.places (reference name) (textOf ps) = ps.count (.reference name) := by
  induction ps with
  | nil => rfl
  | cons p ps ih =>
    rw [textOf_cons, List.map_cons, textOf_cons] at heq
    rw [textOf_cons]
    by_cases hp : p = .reference name
    · subst hp
      rw [Piece.fill_reference, Piece.text, Piece.text,
        Text.replaceAll_piece (reference_ne_nil name), List.append_cancel_left_eq] at heq
      rw [List.count_cons_self, Piece.text, (unbordered_reference h).places_piece, ih heq]
    · rw [Piece.fill_of_ne hp] at heq
      by_cases hplaces : Text.places (reference name) (p.text ++ textOf ps) =
          Text.places (reference name) (textOf ps)
      · rw [Text.replaceAll_append value hplaces, List.append_cancel_left_eq] at heq
        rw [List.count_cons_of_ne hp, hplaces, ih heq]
      · -- behind the first place the value would have to be the reference
        obtain ⟨v, w, hp', hw, ⟨rest, hrest⟩, hv⟩ := Text.exists_place hplaces
        rw [hp', List.append_assoc, List.append_assoc, Text.replaceAll_append value hv, ← hrest,
          Text.replaceAll_piece (reference_ne_nil name), List.append_cancel_left_eq] at heq
        have hfront : reference name <+: w ++ textOf (ps.map (Piece.fill name value)) :=
          prefix_append_textOf_fill h hw ⟨rest, hrest⟩
        rw [← heq] at hfront
        have hsame : reference name <+: value := List.prefix_of_prefix_length_le hfront
          (List.prefix_append _ _) (Nat.le_of_eq hlength.symm)
        exact absurd (hsame.eq_of_length hlength.symm).symm hvalue

/-- **A name is replaced only where it is referred to if and only if its reference occurs nowhere
else**, unless its value is the reference itself. -/
theorem replaceAll_iff (h : IsName name) (hvalue : value ≠ reference name) :
    Text.replaceAll (reference name) value (textOf ps) = textOf (ps.map (Piece.fill name value)) ↔
      Text.places (reference name) (textOf ps) = ps.count (.reference name) := by
  refine ⟨fun heq => ?_, replaceAll_textOf h⟩
  by_cases hlength : value.length = (reference name).length
  · exact places_of_length_eq h hvalue hlength heq
  · obtain ⟨k, hk⟩ := Nat.exists_eq_add_of_le (count_le_places h ps)
    have hall := (unbordered_reference h).length_replaceAll value (textOf ps)
    have hsome := length_textOf_fill name value ps
    rw [heq, hk, Nat.add_mul, Nat.add_mul] at hall
    have hstray : k * (reference name).length = k * value.length := by omega
    rcases Nat.eq_zero_or_pos k with hzero | hpos
    · rw [hk, hzero, Nat.add_zero]
    · exact absurd (Nat.eq_of_mul_eq_mul_left hpos hstray).symm hlength

end Filling

/-! ## One replacement after the other -/

/-- The pieces of a text when some names have had their turn: no other piece is touched. -/
def stage (env : Environment) (text : List Char) (done : List (List Char)) : List Piece :=
  (pieces text).map (Piece.filledAmong env done)

/-- **No replacement disturbs another**: when it is a variable's turn, its reference occurs in the
text only where the text referred to the variable from the start. -/
def Undisturbed (env : Environment) (text : List Char) : Prop :=
  ∀ done name rest, references text = done ++ name :: rest →
    ∀ value ∈ env.lookup (String.ofList name), value.toList ≠ reference name →
      Text.places (reference name) (textOf (stage env text done)) =
        (stage env text done).count (.reference name)

section Stages

variable {env : Environment} {text name : List Char} {done rest : List (List Char)}
  {ps : List Piece}

theorem isName_of_mem (h : name ∈ references text) : IsName name :=
  isName_of_isCut (pieces_spec text).2 (mem_references.1 h)

theorem filledAmong_append (p : Piece) :
    p.filledAmong env (done ++ rest) = (p.filledAmong env done).filledAmong env rest := by
  cases p with
  | plain c => rfl
  | value text => rfl
  | reference name =>
    simp only [Piece.filledAmong, List.mem_append]
    by_cases hdone : name ∈ done
    · rw [if_pos (Or.inl hdone), if_pos hdone, Piece.filled]
      cases hvalue : env.lookup (String.ofList name) with
      | some value => rfl
      | none => simp [Piece.filled, hvalue]
    · simp [hdone]

theorem stage_append :
    stage env text (done ++ [name]) = (stage env text done).map (Piece.filledAmong env [name]) := by
  rw [stage, stage, List.map_map]
  exact List.map_congr_left fun p _ => filledAmong_append p

theorem filledAmong_of_some {value : String} (h : env.lookup (String.ofList name) = some value) :
    Piece.filledAmong env [name] = Piece.fill name value.toList := by
  funext p
  cases p with
  | plain c => rfl
  | value text => rfl
  | reference other =>
    by_cases hother : other = name
    · subst hother
      simp [Piece.filledAmong, Piece.filled, Piece.fill, h]
    · simp [Piece.filledAmong, Piece.fill, hother]

theorem filledAmong_of_unset (h : ∀ name ∈ done, env.lookup (String.ofList name) = none) :
    Piece.filledAmong env done = id := by
  funext p
  cases p with
  | plain c => rfl
  | value text => rfl
  | reference name =>
    by_cases hname : name ∈ done
    · simp [Piece.filledAmong, Piece.filled, hname, h name hname]
    · exact if_neg hname

/-- **One replacement** does to the text what it does to the pieces if and only if the reference
occurs nowhere but in them. -/
theorem expandName_iff (h : IsName name) :
    expandName env (textOf ps) name = textOf (ps.map (Piece.filledAmong env [name])) ↔
      ∀ value ∈ env.lookup (String.ofList name), value.toList ≠ reference name →
        Text.places (reference name) (textOf ps) = ps.count (.reference name) := by
  unfold expandName
  cases hlookup : env.lookup (String.ofList name) with
  | none => simp [filledAmong_of_unset (List.forall_mem_singleton.2 hlookup)]
  | some value =>
    simp only [filledAmong_of_some hlookup, Option.mem_some_iff, forall_eq']
    by_cases hvalue : value.toList = reference name
    · -- both leave the text as it is
      rw [hvalue, Text.replaceAll_self (reference_ne_nil name), textOf_fill_self]
      exact ⟨fun _ hne => absurd rfl hne, fun _ => rfl⟩
    · rw [replaceAll_iff h hvalue]
      exact ⟨fun hplaces _ => hplaces, fun hplaces => hplaces hvalue⟩

theorem stage_nil : stage env text [] = pieces text := by
  rw [stage, filledAmong_of_unset (List.forall_mem_nil _), List.map_id]

theorem stage_references :
    stage env text (references text) = (pieces text).map (Piece.filled env) := by
  refine List.map_congr_left fun p hp => ?_
  cases p with
  | plain c => rfl
  | value text => rfl
  | reference name => exact if_pos (mem_references.2 hp)

/-- **The replacements, stage by stage**, do to the text what they do to its pieces if and only if
none disturbs another. -/
theorem stages_iff :
    (∀ done, done <+: references text →
      done.foldl (expandName env) text = textOf (stage env text done)) ↔ Undisturbed env text := by
  constructor
  · intro hstages done name rest hreferences
    have hmem : name ∈ references text := by simp [hreferences]
    have hbefore := hstages done ⟨name :: rest, hreferences.symm⟩
    have hafter := hstages (done ++ [name]) ⟨rest, by rw [hreferences, List.append_assoc]; rfl⟩
    rw [List.foldl_concat, hbefore, stage_append] at hafter
    exact (expandName_iff (isName_of_mem hmem)).1 hafter
  · intro hundisturbed done hbegins
    induction done using List.reverseRecOn with
    | nil => rw [List.foldl_nil, stage_nil, (pieces_spec text).1]
    | append_singleton done name ih =>
      obtain ⟨rest, hreferences⟩ := hbegins
      have hmem : name ∈ references text := by simp [← hreferences]
      have hsplit : references text = done ++ name :: rest := by
        rw [← hreferences, List.append_assoc]
        rfl
      rw [List.foldl_concat, ih ⟨name :: rest, hsplit.symm⟩, stage_append]
      exact (expandName_iff (isName_of_mem hmem)).2 (hundisturbed done name rest hsplit)

end Stages

/-! ## Values and names that do no harm -/

/-- **Values and names that do no harm**: in none of them is there a `$` with an opening brace
behind it, no value ends in a `$`, and directly behind a `$` there is no reference to a variable
whose value is empty or begins with an opening brace. -/
structure Harmless (env : Environment) (text : List Char) : Prop where
  names : ∀ name ∈ references text, ¬['$', '\x7b'] <:+: name
  values : ∀ name ∈ references text, ∀ value ∈ env.lookup (String.ofList name),
    ¬['$', '\x7b'] <:+: value.toList ++ ['\x7b']
  fronts : ∀ name ∈ references text, '$' :: reference name <:+: text →
    ∀ value ∈ env.lookup (String.ofList name), value.toList.head? ∉ [none, some '\x7b']

section Harmless

variable {env : Environment} {text name other w after : List Char} {done : List (List Char)}
  {ps : List Piece} {c : Char}

/-- A reference begins within a text in front only at a `$` that an opening brace or nothing
follows there. -/
theorem dollar_of_reference (hw : w ≠ []) (h : reference name <+: w ++ after) :
    w = ['$'] ∨ ∃ v, w = '$' :: '\x7b' :: v := by
  obtain ⟨rest, hrest⟩ := h
  match w, hw with
  | [c], _ =>
    obtain ⟨rfl, -⟩ := List.cons.inj hrest
    exact Or.inl rfl
  | c :: d :: v, _ =>
    obtain ⟨rfl, htail⟩ := List.cons.inj hrest
    obtain ⟨rfl, -⟩ := List.cons.inj htail
    exact Or.inr ⟨v, rfl⟩

/-- No other reference begins within one. -/
theorem places_reference_append (hname : '\x7d' ∉ name) (hother : '\x7d' ∉ other)
    (hne : other ≠ name) (hquiet : ¬['$', '\x7b'] <:+: other) :
    Text.places (reference name) (reference other ++ after) =
      Text.places (reference name) after := by
  refine Text.places_append_of_not fun w hsuffix hw hfront => ?_
  rcases List.suffix_cons_iff.1 hsuffix with rfl | hinner
  · obtain ⟨rest, hrest⟩ := hfront
    exact hne (reference_inj hname hother hrest).symm
  · -- the `$` and the brace stand in front of the brace that ends the reference, so in its name
    rcases List.suffix_concat_iff.1 hinner with rfl | ⟨t, rfl, ht⟩
    · exact hw rfl
    · have hpair : ['$', '\x7b'] <+: t := by
        rcases dollar_of_reference hw hfront with hw | ⟨v, hw⟩
        · rcases t with - | ⟨d, - | ⟨e, t⟩⟩ <;> simp at hw
        · rcases t with - | ⟨d, - | ⟨e, t⟩⟩ <;> simp at hw
          obtain ⟨rfl, rfl, -⟩ := hw
          exact List.prefix_append ['$', '\x7b'] t
      rcases List.suffix_cons_iff.1 ht with rfl | ht
      · obtain ⟨rest, hrest⟩ := hpair
        cases hrest
      · exact hquiet (hpair.isInfix.trans ht.isInfix)

/-- No reference begins within a value. -/
theorem places_value_append {value : List Char} (h : ¬['$', '\x7b'] <:+: value ++ ['\x7b']) :
    Text.places (reference name) (value ++ after) = Text.places (reference name) after := by
  refine Text.places_append_of_not fun w hsuffix hw hfront => h ?_
  obtain ⟨u, rfl⟩ := hsuffix
  rcases dollar_of_reference hw hfront with rfl | ⟨v, rfl⟩
  · exact ⟨u, [], by simp⟩
  · exact ⟨u, v ++ ['\x7b'], by simp⟩

theorem filledAmong_reference (env : Environment) (done : List (List Char)) (name : List Char) :
    (Piece.reference name).filledAmong env done = .reference name ∨
      ∃ value, env.lookup (String.ofList name) = some value ∧
        (Piece.reference name).filledAmong env done = .value value.toList := by
  by_cases hdone : name ∈ done
  · cases hvalue : env.lookup (String.ofList name) with
    | none => simp [Piece.filledAmong, Piece.filled, hvalue]
    | some value => simp [Piece.filledAmong, Piece.filled, hvalue, hdone]
  · exact Or.inl (if_neg hdone)

theorem map_filledAmong_of_not_mem (h : '\x7d' ∉ textOf ps) :
    ps.map (Piece.filledAmong env done) = ps := by
  refine (List.map_congr_left fun p hp => ?_).trans (List.map_id ps)
  cases p with
  | reference name =>
    refine absurd (List.mem_flatMap.2 ⟨_, hp, ?_⟩) h
    exact List.mem_append_right _ (List.mem_singleton_self _)
  | _ => rfl

/-- Braces with nothing between them stay so. -/
theorem ne_textOf_of_brace {rest : List Char} (hname : IsName name) (hcut : IsCut ps)
    (htext : textOf ps = '\x7d' :: after) :
    name ++ '\x7d' :: rest ≠ textOf (ps.map (Piece.filledAmong env done)) := by
  intro heq
  cases hcut with
  | nil => cases htext
  | reference hps hother => cases htext
  | plain hps h =>
    obtain ⟨rfl, -⟩ := List.cons.inj htext
    cases name with
    | nil => exact hname.1 rfl
    | cons d name =>
      obtain ⟨rfl, -⟩ := List.cons.inj heq
      exact hname.2 List.mem_cons_self

/-- **No reference begins at a character between the references of a text**, whatever values these
have been given. -/
theorem not_prefix_of_plain (hharmless : Harmless env text) (hcut : IsCut (.plain c :: ps))
    (hsuffix : textOf (.plain c :: ps) <:+ text)
    (hmem : ∀ other, .reference other ∈ ps → other ∈ references text) (hname : IsName name) :
    ¬reference name <+: c :: textOf (ps.map (Piece.filledAmong env done)) := by
  obtain ⟨hps, hplain⟩ : IsCut ps ∧
      ∀ name, IsName name → ¬reference name <+: c :: textOf ps := by
    cases hcut with
    | plain hps h => exact ⟨hps, h⟩
  rintro ⟨rest, hrest⟩
  rw [reference_append] at hrest
  obtain ⟨rfl, htail⟩ := List.cons.inj hrest
  cases hps with
  | nil => cases htail
  | reference hps hother =>
    rename_i other ps
    rw [List.map_cons, textOf_cons] at htail
    rcases filledAmong_reference env done other with heq | ⟨value, hvalue, heq⟩
    · rw [heq] at htail
      cases htail
    · have hinfix : '$' :: reference other <:+: text := by
        rw [textOf_cons, textOf_cons] at hsuffix
        exact (List.prefix_append ('$' :: reference other) (textOf ps)).isInfix.trans
          hsuffix.isInfix
      have hhead := hharmless.fronts other (hmem other List.mem_cons_self) hinfix value hvalue
      rw [heq, Piece.text] at htail
      cases hlist : value.toList with
      | nil => simp [hlist] at hhead
      | cons d v =>
        rw [hlist] at htail
        obtain ⟨rfl, -⟩ := List.cons.inj htail
        simp [hlist] at hhead
  | plain hps h =>
    rename_i d ps
    obtain ⟨rfl, hinner⟩ : '\x7b' = d ∧
        name ++ '\x7d' :: rest = textOf (ps.map (Piece.filledAmong env done)) :=
      List.cons.inj htail
    by_cases hbrace : '\x7d' ∈ textOf ps
    · obtain ⟨before, after, htext, hbefore⟩ := List.eq_append_cons_of_mem hbrace
      cases before with
      | nil => exact absurd hinner (ne_textOf_of_brace hname hps htext)
      | cons e before =>
        refine hplain (e :: before) ⟨List.cons_ne_nil e before, hbefore⟩ ⟨after, ?_⟩
        rw [textOf_cons, htext, reference_append]
        rfl
    · -- nothing is referred to behind the braces, so nothing there is replaced
      refine hplain name hname ⟨rest, ?_⟩
      rw [map_filledAmong_of_not_mem hbrace] at hinner
      rw [reference_append, hinner]
      rfl

/-- **Every stage of harmless replacements is undisturbed.** -/
theorem places_of_harmless (hharmless : Harmless env text) (hname : IsName name) (hcut : IsCut ps)
    (hsuffix : textOf ps <:+ text)
    (hmem : ∀ other, .reference other ∈ ps → other ∈ references text) :
    Text.places (reference name) (textOf (ps.map (Piece.filledAmong env done))) =
      (ps.map (Piece.filledAmong env done)).count (.reference name) := by
  induction ps with
  | nil => rfl
  | cons p ps ih =>
    have hsuffix' : textOf ps <:+ text := by
      rw [textOf_cons] at hsuffix
      exact (List.suffix_append _ _).trans hsuffix
    have hmem' : ∀ other, .reference other ∈ ps → other ∈ references text := fun other h =>
      hmem other (List.mem_cons_of_mem p h)
    rw [List.map_cons, textOf_cons]
    cases hcut with
    | plain hps h =>
      rename_i c
      have hne : (Piece.plain c).filledAmong env done ≠ .reference name := nofun
      rw [List.count_cons_of_ne hne, ← ih hps hsuffix' hmem']
      exact Text.places_cons_of_not
        (not_prefix_of_plain hharmless (.plain hps h) hsuffix hmem' hname)
    | reference hps hother =>
      rename_i other
      have hin : other ∈ references text := hmem other List.mem_cons_self
      rcases filledAmong_reference env done other with heq | ⟨value, hvalue, heq⟩
      · by_cases hsame : other = name
        · subst hsame
          rw [heq, List.count_cons_self, ← ih hps hsuffix' hmem']
          exact (unbordered_reference hname).places_piece _
        · have hne : Piece.reference other ≠ .reference name := fun h =>
            hsame (Piece.reference.inj h)
          rw [heq, List.count_cons_of_ne hne, ← ih hps hsuffix' hmem']
          exact places_reference_append hname.2 hother.2 hsame (hharmless.names other hin)
      · have hne : Piece.value value.toList ≠ .reference name := nofun
        rw [heq, List.count_cons_of_ne hne, ← ih hps hsuffix' hmem']
        exact places_value_append (hharmless.values other hin value hvalue)

theorem Harmless.undisturbed (h : Harmless env text) : Undisturbed env text := by
  intro done name rest hreferences value _ _
  have hmem : name ∈ references text := by simp [hreferences]
  obtain ⟨htext, hcut⟩ := pieces_spec text
  have hsuffix : textOf (pieces text) <:+ text := ⟨[], htext⟩
  exact places_of_harmless h (isName_of_mem hmem) hcut hsuffix fun other hother =>
    mem_references.2 hother

end Harmless

/-! ## The substitution -/

/-- **The replacements add up to one substitution if none disturbs another.** Stage by stage they
do so only then; and values and names that do no harm disturb none. -/
theorem expand_eq_substitute (env : Environment) (text : String) :
    ((∀ done, done <+: references text.toList →
        done.foldl (expandName env) text.toList = textOf (stage env text.toList done)) ↔
      Undisturbed env text.toList) ∧
    (Undisturbed env text.toList → expand env text = substitute env text) ∧
    (Harmless env text.toList → Undisturbed env text.toList) := by
  refine ⟨stages_iff, fun hundisturbed => ?_, Harmless.undisturbed⟩
  have hlast := stages_iff.2 hundisturbed (references text.toList) (List.prefix_refl _)
  rw [expand, hlast, stage_references]
  rfl

/-- Values with a `$`, and a variable that is not set. -/
theorem expand_eq_substitute_prices :
    Harmless [("A", "$5"), ("B", "x")] "$\x7bB\x7d $\x7bA\x7d $\x7bC\x7d$\x7bB\x7d".toList ∧
    expand [("A", "$5"), ("B", "x")] "$\x7bB\x7d $\x7bA\x7d $\x7bC\x7d$\x7bB\x7d" =
      "x $5 $\x7bC\x7dx" := by
  have hharmless :
      Harmless [("A", "$5"), ("B", "x")]
        "$\x7bB\x7d $\x7bA\x7d $\x7bC\x7d$\x7bB\x7d".toList :=
    ⟨by decide +kernel, by decide +kernel, by decide +kernel⟩
  refine ⟨hharmless, ?_⟩
  obtain ⟨-, hsubstitute, hundisturbed⟩ :=
    expand_eq_substitute [("A", "$5"), ("B", "x")] "$\x7bB\x7d $\x7bA\x7d $\x7bC\x7d$\x7bB\x7d"
  rw [hsubstitute (hundisturbed hharmless)]
  decide +kernel

/-- **A value may be expanded once more**, if it refers to a variable whose turn is to come. -/
theorem exists_expanded_twice :
    ¬∀ (env : Environment) (text : String), expand env text = substitute env text := by
  intro h
  have hsame := h [("A", "$\x7bB\x7d"), ("B", "x")] "$\x7bA\x7d $\x7bB\x7d"
  revert hsame
  decide +kernel

end Environment

end Sift
