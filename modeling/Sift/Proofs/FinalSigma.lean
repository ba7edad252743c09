import Mathlib.Data.List.Infix
import Mathlib.Data.List.TakeWhile
import Sift.Query.Test

/-!
# Final sigmas and pieces of text

A capital sigma has two lower-case forms, and the letters around it decide which. A piece that is
looked for is lowered by itself, where fewer letters stand around it than in the text that holds it.

* `lowerWithin`: the lower-case form of a piece where it stands in a text; `lowerAfter_append`.
* `leansBack`, `leansForward`: the pieces in which a letter before or behind them changes a sigma.
* `lowerWithin_of_not_leansBack`, `lowerWithin_of_not_leansForward`: no other piece changes.
* `Placement.holds_lower`: where nothing changes, a lowered piece is found in the lowered text.
* `Placement.exists_lost`: otherwise it is missed in some text that holds the piece.
-/

namespace Sift

namespace Text

/-! ## The letters around a piece -/

/-- Whether the nearest character that is not ignorable has case, where `beyond` tells it of what
follows the text. -/
def meetsCasedOr (beyond : Bool) (cs : List Char) : Bool :=
  match cs.dropWhile isCaseIgnorable with
  | [] => beyond
  | c :: _ => inRanges cased c.toNat

variable {before after beyond : Bool} {c : Char} {cs xs ys : List Char}

theorem meetsCasedOr_false (cs : List Char) : meetsCasedOr false cs = meetsCased cs := rfl

theorem meetsCasedOr_of_ignorable (h : isCaseIgnorable c = true) (ys : List Char) :
    meetsCasedOr beyond (c :: ys) = meetsCasedOr beyond ys := by
  rw [meetsCasedOr, meetsCasedOr, List.dropWhile_cons_of_pos h]

theorem meetsCasedOr_of_not_ignorable (h : isCaseIgnorable c = false) (ys : List Char) :
    meetsCasedOr beyond (c :: ys) = inRanges cased c.toNat := by
  rw [meetsCasedOr, List.dropWhile_cons_of_neg (by simp [h])]

theorem meetsCasedOr_append (xs ys : List Char) :
    meetsCasedOr beyond (xs ++ ys) = meetsCasedOr (meetsCasedOr beyond ys) xs := by
  induction xs with
  | nil => rfl
  | cons c xs ih =>
    rw [List.cons_append]
    cases hc : isCaseIgnorable c with
    | true => rw [meetsCasedOr_of_ignorable hc, meetsCasedOr_of_ignorable hc, ih]
    | false => rw [meetsCasedOr_of_not_ignorable hc, meetsCasedOr_of_not_ignorable hc]

theorem meetsCased_append (xs ys : List Char) :
    meetsCased (xs ++ ys) = meetsCasedOr (meetsCased ys) xs :=
  meetsCasedOr_append xs ys

theorem meetsCasedOr_ignorable (h : ∀ c ∈ xs, isCaseIgnorable c = true) :
    meetsCasedOr beyond xs = beyond := by
  induction xs with
  | nil => rfl
  | cons c xs ih =>
    rw [List.forall_mem_cons] at h
    rw [meetsCasedOr_of_ignorable h.1, ih h.2]

/-- What is met within a text is met whatever follows it. -/
theorem meetsCasedOr_of_meetsCased (h : meetsCased cs = true) : meetsCasedOr beyond cs = true := by
  rw [← meetsCasedOr_false] at h
  unfold meetsCasedOr at h ⊢
  split
  · next hnil =>
    rw [hnil] at h
    cases h
  · next c rest hcons =>
    rw [hcons] at h
    exact h

/-! ## Lower-case forms of pieces -/

/-- The lower-case form of a character, where letters stand before and behind it or not. -/
def lowerAt (before after : Bool) (c : Char) : List Char :=
  if c.toNat = 0x3A3 then [if before && !after then Char.ofNat 0x3C2 else Char.ofNat 0x3C3]
  else lowerChar c

/-- **The lower-case form of a piece of a text**, where letters stand before and behind the piece or
not. -/
def lowerWithin (before after : Bool) : List Char → List Char
  | [] => []
  | c :: rest =>
    lowerAt before (meetsCasedOr after rest) c ++ lowerWithin (meetsCasedOr before [c]) after rest

/-- **A text is lowered piece by piece.** -/
theorem lowerAfter_append (back piece rest : List Char) :
    lowerAfter back (piece ++ rest) =
      lowerWithin (meetsCased back) (meetsCased rest) piece ++
        lowerAfter (piece.reverse ++ back) rest := by
  induction piece generalizing back with
  | nil => rfl
  | cons c piece ih =>
    have hback : meetsCased (c :: back) = meetsCasedOr (meetsCased back) [c] :=
      meetsCased_append [c] back
    rw [List.cons_append, lowerAfter, ih, hback, meetsCased_append piece rest, lowerWithin,
      List.reverse_cons, List.append_assoc, List.append_assoc]
    rfl

theorem lower_eq_lowerWithin (cs : List Char) : lower cs = lowerWithin false false cs := by
  have hwhole := lowerAfter_append [] cs []
  rw [List.append_nil] at hwhole
  rw [lower, hwhole, lowerAfter, List.append_nil]
  rfl

theorem lowerWithin_append (before after : Bool) (xs ys : List Char) :
    lowerWithin before after (xs ++ ys) =
      lowerWithin before (meetsCasedOr after ys) xs ++
        lowerWithin (meetsCasedOr before xs.reverse) after ys := by
  induction xs generalizing before with
  | nil => rfl
  | cons c xs ih =>
    rw [List.cons_append, lowerWithin, ih, lowerWithin, meetsCasedOr_append, List.reverse_cons,
      meetsCasedOr_append, List.append_assoc]

theorem lowerAt_sigma (h : c.toNat = 0x3A3) :
    lowerAt before after c = [if before && !after then 'ς' else 'σ'] := by
  rw [lowerAt, if_pos h]

/-- A capital sigma is not ignorable. -/
theorem lowerAt_of_ignorable (h : isCaseIgnorable c = true) :
    lowerAt before after c = lowerChar c := by
  have hsigma : c.toNat ≠ 0x3A3 := by
    intro hc
    have hnot : (inRanges marks 0x3A3 || inRanges formats 0x3A3 || inRanges modifiers 0x3A3) =
        false := by decide +kernel
    rw [isCaseIgnorable, hc, hnot] at h
    cases h
  rw [lowerAt, if_neg hsigma]

theorem lowerWithin_ignorable (h : ∀ c ∈ xs, isCaseIgnorable c = true) :
    lowerWithin before after xs = xs.flatMap lowerChar := by
  induction xs generalizing before with
  | nil => rfl
  | cons c xs ih =>
    rw [List.forall_mem_cons] at h
    rw [lowerWithin, lowerAt_of_ignorable h.1, ih h.2, List.flatMap_cons]

/-- From the front, the letters before a piece count up to its first character that is not
ignorable. -/
theorem lowerWithin_front (hxs : ∀ d ∈ xs, isCaseIgnorable d = true)
    (hc : isCaseIgnorable c = false) :
    lowerWithin before after (xs ++ c :: ys) =
      xs.flatMap lowerChar ++ (lowerAt before (meetsCasedOr after ys) c ++
        lowerWithin (inRanges cased c.toNat) after ys) := by
  have hreverse : meetsCasedOr before xs.reverse = before :=
    meetsCasedOr_ignorable fun d hd => hxs d (List.mem_reverse.1 hd)
  rw [lowerWithin_append, lowerWithin_ignorable hxs, hreverse, lowerWithin,
    meetsCasedOr_of_not_ignorable hc]

/-- From the end, the letters behind a piece count up to its last character that is not
ignorable. -/
theorem lowerWithin_back (hys : ∀ d ∈ ys, isCaseIgnorable d = true)
    (hc : isCaseIgnorable c = false) :
    lowerWithin before after (xs ++ c :: ys) =
      lowerWithin before (inRanges cased c.toNat) xs ++
        (lowerAt (meetsCasedOr before xs.reverse) after c ++ ys.flatMap lowerChar) := by
  rw [lowerWithin_append, meetsCasedOr_of_not_ignorable hc, lowerWithin,
    meetsCasedOr_ignorable hys, lowerWithin_ignorable hys]

/-! ## Pieces that change -/

/-- Whether the first character of a piece that is not ignorable is a capital sigma with no letter
of the piece behind it. With a letter before the piece it is a final one. -/
def leansBack (piece : List Char) : Bool :=
  match piece.dropWhile isCaseIgnorable with
  | [] => false
  | c :: rest => c.toNat == 0x3A3 && !meetsCased rest

/-- Whether the last character of a piece that is not ignorable is a capital sigma with a letter of
the piece before it. With a letter behind the piece it is not a final one. -/
def leansForward (piece : List Char) : Bool :=
  match piece.reverse.dropWhile isCaseIgnorable with
  | [] => false
  | c :: back => c.toNat == 0x3A3 && meetsCased back

/-- A text is ignorable, or has a first character that is not. -/
theorem ignorable_or_front (cs : List Char) : (∀ c ∈ cs, isCaseIgnorable c = true) ∨
    ∃ xs c ys, cs = xs ++ c :: ys ∧ (∀ d ∈ xs, isCaseIgnorable d = true) ∧
      isCaseIgnorable c = false := by
  induction cs with
  | nil => simp
  | cons c cs ih =>
    cases hc : isCaseIgnorable c with
    | false => exact Or.inr ⟨[], c, cs, rfl, by simp, hc⟩
    | true =>
      rcases ih with hall | ⟨xs, d, ys, rfl, hxs, hd⟩
      · exact Or.inl (List.forall_mem_cons.2 ⟨hc, hall⟩)
      · exact Or.inr ⟨c :: xs, d, ys, rfl, List.forall_mem_cons.2 ⟨hc, hxs⟩, hd⟩

theorem ignorable_or_back (cs : List Char) : (∀ c ∈ cs, isCaseIgnorable c = true) ∨
    ∃ xs c ys, cs = xs ++ c :: ys ∧ (∀ d ∈ ys, isCaseIgnorable d = true) ∧
      isCaseIgnorable c = false := by
  rcases ignorable_or_front cs.reverse with hall | ⟨ys, c, xs, hcs, hys, hc⟩
  · exact Or.inl fun c hc => hall c (List.mem_reverse.2 hc)
  · refine Or.inr ⟨xs.reverse, c, ys.reverse, ?_, fun d hd => hys d (List.mem_reverse.1 hd), hc⟩
    rw [← List.reverse_reverse cs, hcs, List.reverse_append, List.reverse_cons, List.append_assoc]
    rfl

theorem leansBack_front (hxs : ∀ d ∈ xs, isCaseIgnorable d = true)
    (hc : isCaseIgnorable c = false) :
    leansBack (xs ++ c :: ys) = (c.toNat == 0x3A3 && !meetsCased ys) := by
  rw [leansBack, List.dropWhile_append_of_pos hxs, List.dropWhile_cons_of_neg (by simp [hc])]

theorem leansForward_back (hys : ∀ d ∈ ys, isCaseIgnorable d = true)
    (hc : isCaseIgnorable c = false) :
    leansForward (xs ++ c :: ys) = (c.toNat == 0x3A3 && meetsCased xs.reverse) := by
  have hreverse : (xs ++ c :: ys).reverse = ys.reverse ++ c :: xs.reverse := by simp
  rw [leansForward, hreverse,
    List.dropWhile_append_of_pos fun d hd => hys d (List.mem_reverse.1 hd),
    List.dropWhile_cons_of_neg (by simp [hc])]

/-- **A piece that does not lean back** has one lower-case form, whatever stands before it. -/
theorem lowerWithin_of_not_leansBack (h : leansBack cs = false) :
    lowerWithin before after cs = lowerWithin false after cs := by
  rcases ignorable_or_front cs with hall | ⟨xs, c, ys, rfl, hxs, hc⟩
  · rw [lowerWithin_ignorable hall, lowerWithin_ignorable hall]
  · rw [lowerWithin_front hxs hc, lowerWithin_front hxs hc]
    have hat : lowerAt before (meetsCasedOr after ys) c =
        lowerAt false (meetsCasedOr after ys) c := by
      by_cases hsigma : c.toNat = 0x3A3
      -- a letter of the piece follows the sigma, so it is no final one
      · have hys : meetsCased ys = true := by
          rw [leansBack_front hxs hc, hsigma, beq_self_eq_true, Bool.true_and,
            Bool.not_eq_false'] at h
          exact h
        rw [lowerAt_sigma hsigma, lowerAt_sigma hsigma, meetsCasedOr_of_meetsCased hys,
          Bool.not_true, Bool.and_false, Bool.and_false]
      · rw [lowerAt, lowerAt, if_neg hsigma, if_neg hsigma]
    rw [hat]

/-- **A piece that does not lean forward** has one lower-case form with no letter before it,
whatever stands behind it. -/
theorem lowerWithin_of_not_leansForward (h : leansForward cs = false) :
    lowerWithin false after cs = lowerWithin false false cs := by
  rcases ignorable_or_back cs with hall | ⟨xs, c, ys, rfl, hys, hc⟩
  · rw [lowerWithin_ignorable hall, lowerWithin_ignorable hall]
  · rw [lowerWithin_back hys hc, lowerWithin_back hys hc]
    have hat : lowerAt (meetsCasedOr false xs.reverse) after c =
        lowerAt (meetsCasedOr false xs.reverse) false c := by
      by_cases hsigma : c.toNat = 0x3A3
      -- no letter of the piece stands before the sigma, so it is no final one
      · have hxs : meetsCasedOr false xs.reverse = false := by
          rw [leansForward_back hys hc, hsigma, beq_self_eq_true, Bool.true_and] at h
          exact h
        rw [lowerAt_sigma hsigma, lowerAt_sigma hsigma, hxs, Bool.false_and, Bool.false_and]
      · rw [lowerAt, lowerAt, if_neg hsigma, if_neg hsigma]
    rw [hat]

/-- With a letter before it, a piece that leans back has one sigma less that is not final. -/
theorem count_of_leansBack (h : leansBack cs = true) :
    (lowerWithin false false cs).count 'σ' = (lowerWithin true false cs).count 'σ' + 1 := by
  rcases ignorable_or_front cs with hall | ⟨xs, c, ys, rfl, hxs, hc⟩
  · rw [leansBack, List.dropWhile_eq_nil_iff.2 hall] at h
    cases h
  · rw [leansBack_front hxs hc, Bool.and_eq_true, beq_iff_eq, Bool.not_eq_true'] at h
    have hafter : meetsCasedOr false ys = false := h.2
    have hplain : (lowerAt false false c).count 'σ' = 1 := by rw [lowerAt_sigma h.1]; rfl
    have hfinal : (lowerAt true false c).count 'σ' = 0 := by rw [lowerAt_sigma h.1]; rfl
    rw [lowerWithin_front hxs hc, lowerWithin_front hxs hc, hafter]
    simp only [List.count_append, hplain, hfinal]
    omega

/-- With a letter behind it, a piece that leans forward has one final sigma less. -/
theorem count_of_leansForward (h : leansForward cs = true) :
    (lowerWithin false false cs).count 'ς' = (lowerWithin false true cs).count 'ς' + 1 := by
  rcases ignorable_or_back cs with hall | ⟨xs, c, ys, rfl, hys, hc⟩
  · have hreverse : ∀ c ∈ cs.reverse, isCaseIgnorable c = true :=
      fun c hc => hall c (List.mem_reverse.1 hc)
    rw [leansForward, List.dropWhile_eq_nil_iff.2 hreverse] at h
    cases h
  · rw [leansForward_back hys hc, Bool.and_eq_true, beq_iff_eq] at h
    have hbefore : meetsCasedOr false xs.reverse = true := h.2
    have hfinal : (lowerAt true false c).count 'ς' = 1 := by rw [lowerAt_sigma h.1]; rfl
    have hplain : (lowerAt true true c).count 'ς' = 0 := by rw [lowerAt_sigma h.1]; rfl
    rw [lowerWithin_back hys hc, lowerWithin_back hys hc, hbefore]
    simp only [List.count_append, hfinal, hplain]
    omega

end Text

/-! ## Pieces in their places -/

theorem occursIn_iff {piece whole : List Char} :
    occursIn piece whole = true ↔ piece <:+: whole := by
  induction whole with
  | nil => rw [occursIn, List.isEmpty_iff, List.infix_nil]
  | cons c whole ih =>
    rw [occursIn, Bool.or_eq_true, List.isPrefixOf_iff_prefix, ih, List.infix_cons_iff]

namespace Placement

open Text

/-- Whether text may stand before a piece at the place. -/
def allowsBefore : Placement → Bool
  | atStart => false
  | anywhere | atEnd => true

/-- Whether text may stand behind a piece at the place. -/
def allowsAfter : Placement → Bool
  | atEnd => false
  | anywhere | atStart => true

variable {place : Placement} {piece whole : List Char}

theorem holds_iff : place.holds piece whole = true ↔
    ∃ front back, whole = front ++ piece ++ back ∧ (place.allowsBefore = false → front = []) ∧
      (place.allowsAfter = false → back = []) := by
  cases place with
  | anywhere =>
    rw [holds, occursIn_iff]
    constructor
    · rintro ⟨front, back, rfl⟩
      exact ⟨front, back, rfl, nofun, nofun⟩
    · rintro ⟨front, back, rfl, -, -⟩
      exact ⟨front, back, rfl⟩
  | atStart =>
    rw [holds, List.isPrefixOf_iff_prefix]
    constructor
    · rintro ⟨back, rfl⟩
      exact ⟨[], back, rfl, fun _ => rfl, nofun⟩
    · rintro ⟨front, back, rfl, hfront, -⟩
      rw [hfront rfl]
      exact ⟨back, rfl⟩
  | atEnd =>
    rw [holds, List.isSuffixOf_iff_suffix]
    constructor
    · rintro ⟨front, rfl⟩
      exact ⟨front, [], by rw [List.append_nil], nofun, fun _ => rfl⟩
    · rintro ⟨front, back, rfl, -, hback⟩
      rw [hback rfl, List.append_nil]
      exact ⟨front, rfl⟩

/-- **The pieces that are missed** at a place when case is ignored: those that change with a letter
that may stand before or behind them there. -/
def loses (place : Placement) (piece : List Char) : Bool :=
  (place.allowsBefore && leansBack piece) || (place.allowsAfter && leansForward piece)

/-- **A piece that is not lost is found without regard to case** wherever it is found. -/
theorem holds_lower (hkeeps : place.loses piece = false) (h : place.holds piece whole = true) :
    place.holds (lower piece) (lower whole) = true := by
  rw [loses, Bool.or_eq_false_iff] at hkeeps
  obtain ⟨hbefore, hafter⟩ := hkeeps
  obtain ⟨front, back, rfl, hfront, hback⟩ := holds_iff.1 h
  -- the letters around the piece do not change its lower-case form
  have hback' : lowerWithin false (meetsCased back) piece = lowerWithin false false piece := by
    cases hallowed : place.allowsAfter with
    | false => rw [hback hallowed]; rfl
    | true =>
      rw [hallowed, Bool.true_and] at hafter
      exact lowerWithin_of_not_leansForward hafter
  have hfront' : lowerWithin (meetsCased front.reverse) (meetsCased back) piece =
      lowerWithin false (meetsCased back) piece := by
    cases hallowed : place.allowsBefore with
    | false => rw [hfront hallowed]; rfl
    | true =>
      rw [hallowed, Bool.true_and] at hbefore
      exact lowerWithin_of_not_leansBack hbefore
  have hpiece : lowerWithin (meetsCased front.reverse) (meetsCased back) piece = lower piece := by
    rw [hfront', hback', lower_eq_lowerWithin]
  have hwhole : lower (front ++ piece ++ back) =
      lowerWithin false (meetsCased (piece ++ back)) front ++ lower piece ++
        lowerAfter (piece.reverse ++ front.reverse) back := by
    rw [lower, List.append_assoc, lowerAfter_append, lowerAfter_append, List.append_nil, hpiece,
      List.append_assoc]
    rfl
  refine holds_iff.2 ⟨_, _, hwhole, fun hallowed => ?_, fun hallowed => ?_⟩
  · rw [hfront hallowed]
    rfl
  · rw [hback hallowed]
    rfl

theorem sublist_of_holds (h : place.holds piece whole = true) : piece.Sublist whole := by
  obtain ⟨front, back, rfl, -, -⟩ := holds_iff.1 h
  exact (List.infix_append front piece back).sublist

/-- **A piece that is lost is missed without regard to case** in some text where it is found. -/
theorem exists_lost (hloses : place.loses piece = true) :
    ∃ whole, place.holds piece whole = true ∧ place.holds (lower piece) (lower whole) = false := by
  rw [loses, Bool.or_eq_true, Bool.and_eq_true, Bool.and_eq_true] at hloses
  rcases hloses with ⟨hallowed, hleans⟩ | ⟨hallowed, hleans⟩
  -- a letter before the piece
  · have hfound : place.holds piece ('α' :: piece) = true := by
      refine holds_iff.2 ⟨['α'], [], (List.append_nil _).symm, fun h => ?_, fun _ => rfl⟩
      rw [hallowed] at h
      cases h
    have hlower : lower ('α' :: piece) = 'α' :: lowerWithin true false piece := by
      have hletter : lowerAt false (meetsCasedOr false piece) 'α' = ['α'] := by
        unfold lowerAt
        rw [if_neg (by decide)]
        decide +kernel
      have hcased : meetsCasedOr false ['α'] = true := by decide +kernel
      rw [lower_eq_lowerWithin, lowerWithin, hletter, hcased]
      rfl
    refine ⟨_, hfound, Bool.eq_false_iff.2 fun hmissed => ?_⟩
    have hcount := (sublist_of_holds hmissed).count_le 'σ'
    rw [lower_eq_lowerWithin, count_of_leansBack hleans, hlower,
      List.count_cons_of_ne (by decide)] at hcount
    omega
  -- a letter behind the piece
  · have hfound : place.holds piece (piece ++ ['α']) = true := by
      refine holds_iff.2 ⟨[], ['α'], rfl, fun _ => rfl, fun h => ?_⟩
      rw [hallowed] at h
      cases h
    have hlower : lower (piece ++ ['α']) = lowerWithin false true piece ++ ['α'] := by
      have hcased : meetsCased ['α'] = true := by decide +kernel
      have hletter : lowerAfter (piece.reverse ++ []) ['α'] = ['α'] := by
        have hform : lowerChar 'α' = ['α'] := by decide +kernel
        rw [lowerAfter, if_neg (by decide), hform]
        rfl
      rw [lower, lowerAfter_append, hcased, hletter]
      rfl
    refine ⟨_, hfound, Bool.eq_false_iff.2 fun hmissed => ?_⟩
    have hcount := (sublist_of_holds hmissed).count_le 'ς'
    have hletter : List.count 'ς' ['α'] = 0 := rfl
    rw [lower_eq_lowerWithin, count_of_leansForward hleans, hlower, List.count_append,
      hletter] at hcount
    omega

end Placement

end Sift
