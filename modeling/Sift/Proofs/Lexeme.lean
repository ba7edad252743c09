import Sift.Filter.Grammar
import Sift.Proofs.Scanning

/-!
# Keywords and operators read back

* `reads_lexeme`, `fails_lexeme`: a word of letters is read where it stands, up to case, and no
  letter follows; anywhere else it is not.
* `reads_keyword`, `reads_operator`, `fails_operator`.
-/

namespace Sift

open Scan

theorem Text.isWord_toLower (c : Char) : Text.isWord c.toLower = Text.isWord c := by
  -- only capitals have another lower case
  have hupper : ∀ n < 91, 65 ≤ n →
      Text.isWord (Char.ofNat n).toLower = Text.isWord (Char.ofNat n) := by decide
  by_cases h : 65 ≤ c.toNat ∧ c.toNat ≤ 90
  · rw [← Char.ofNat_toNat c]
    exact hupper c.toNat (by omega) h.1
  · have hlower : c.toLower = c := by
      unfold Char.toLower
      exact dif_neg h
    rw [hlower]

namespace Scan

variable {α β γ : Type} {before rest : List Char}

theorem fails_assoc {p : Scan α} {f : α → Scan β} {g : β → Scan γ} :
    Fails (p >>= f >>= g) before ↔ Fails (p >>= fun a => f a >>= g) before := by
  have hfound : ∀ here, ((p >>= f >>= g) here).found = ((p >>= fun a => f a >>= g) here).found := by
    intro here
    rw [found_bind, found_bind, found_bind, Option.bind_assoc]
    simp only [found_bind]
  unfold Fails
  simp only [hfound]

theorem reads_word {P : Unit → Prop} (hP : P ()) : ∀ {w t : List Char},
    t.map Char.toLower = w.map Char.toLower → Reads (word w) P (t ++ rest) rest
  | [], [], _ => Reads.pure hP
  | x :: w, c :: t, h => by
    simp only [List.map_cons, List.cons.injEq] at h
    exact Reads.bind (P := fun _ => True) (Reads.char (beq_iff_eq.2 h.1) trivial)
      fun _ _ => reads_word hP h.2

end Scan

/-- What follows a word of letters. -/
def EndsName (rest : List Char) : Prop := ∀ c ∈ rest.head?, Text.isWord c = false

/-- Words of letters, digits and underscores. -/
def IsName (cs : List Char) : Prop := ∀ c ∈ cs, Text.isWord c = true

theorem IsName.tail {c : Char} {cs : List Char} (h : IsName (c :: cs)) : IsName cs :=
  fun d hd => h d (List.mem_cons_of_mem c hd)

/-- What is a name up to case is a name. -/
theorem IsName.of_lower {w cs : List Char} (hw : IsName w)
    (h : cs.map Char.toLower = w.map Char.toLower) : IsName cs := by
  intro c hc
  have hmem : c.toLower ∈ w.map Char.toLower := h ▸ List.mem_map_of_mem hc
  obtain ⟨d, hd, hlower⟩ := List.mem_map.1 hmem
  rw [← Text.isWord_toLower, ← hlower, Text.isWord_toLower, hw d hd]

/-- A name in a text is the beginning of the whole name that stands there. -/
theorem IsName.prefix_of_append {name cs rest rest' : List Char} (hcs : IsName cs)
    (hrest : EndsName rest) (h : name ++ rest = cs ++ rest') : cs <+: name := by
  rcases List.append_eq_append_iff.1 h with ⟨more, rfl, hmore⟩ | ⟨more, rfl, -⟩
  · -- nothing of a name is where the name has ended
    cases more with
    | nil => simp
    | cons c more =>
      have hword := hcs c (by simp)
      rw [hrest c (by simp [hmore])] at hword
      cases hword
  · exact List.prefix_append cs more

namespace Grammar

variable {rest : List Char}

theorem reads_lexeme {P : Unit → Prop} (hP : P ()) {w t : List Char}
    (h : t.map Char.toLower = w.map Char.toLower) (hrest : EndsName rest) :
    Reads (do word w; notBefore Text.isWord) P (t ++ rest) rest :=
  Reads.bind (P := fun _ => True) (reads_word trivial h) fun _ _ => Reads.notBefore hrest hP

/-- The first characters differ, or one of the words goes on where the other ends. -/
theorem fails_lexeme {w t : List Char} (hw : IsName w) (ht : IsName t)
    (hne : t.map Char.toLower ≠ w.map Char.toLower) (hrest : EndsName rest) :
    Fails (do word w; notBefore Text.isWord) (t ++ rest) := by
  induction w generalizing t with
  | nil =>
    cases t with
    | nil => exact absurd rfl hne
    | cons c t =>
      -- the word is read, but a letter follows
      exact Reads.bind_fails (P := fun _ => True) (Reads.pure trivial) fun _ _ =>
        fails_notBefore (ht c List.mem_cons_self)
  | cons x w ih =>
    rw [word, fails_assoc]
    cases t with
    | nil =>
      -- the text ends where the word has a letter
      refine (fails_char fun c hc => ?_).bind
      have hx : Text.isWord x = true := hw x List.mem_cons_self
      rw [beq_eq_false_iff_ne]
      intro heq
      rw [← Text.isWord_toLower, ← heq, Text.isWord_toLower, hrest c hc] at hx
      cases hx
    | cons c t =>
      by_cases heq : c.toLower = x.toLower
      · refine Reads.bind_fails (P := fun _ => True)
          (Reads.char (beq_iff_eq.2 heq) trivial) fun _ _ => ?_
        refine ih hw.tail ht.tail fun h => hne ?_
        rw [List.map_cons, List.map_cons, heq, h]
      · exact (fails_char (by simpa using heq)).bind

theorem reads_keyword {P : Unit → Prop} (hP : P ()) {w : String} {t : List Char}
    (h : t.map Char.toLower = w.toList.map Char.toLower) (hrest : EndsName rest) :
    Reads (keyword w) P (t ++ rest) rest :=
  (reads_lexeme hP h hrest).named

theorem fails_keyword {w : String} {t : List Char} (hw : IsName w.toList) (ht : IsName t)
    (hne : t.map Char.toLower ≠ w.toList.map Char.toLower) (hrest : EndsName rest) :
    Fails (keyword w) (t ++ rest) :=
  (fails_lexeme hw ht hne hrest).named

/-- No keyword is ahead where nothing of a name is. -/
theorem fails_keyword_nil {w : String} (hw : IsName w.toList) (hne : w.toList ≠ [])
    (hrest : EndsName rest) : Fails (keyword w) rest :=
  fails_keyword (t := []) hw (by simp [IsName]) (by simpa using hne.symm) hrest

/-! ## Operators -/

theorem isName_token (op : Operator) : IsName op.token.toList := by
  cases op <;> exact forall_mem_of_all (by decide)

theorem token_injective {a b : Operator}
    (h : a.token.toList.map Char.toLower = b.token.toList.map Char.toLower) : a = b := by
  revert h
  cases a <;> cases b <;> decide

/-- An operator among some. -/
def operatorOf (ops : List Operator) : Scan Operator :=
  choose (ops.map fun op => do
    word op.token.toList
    notBefore Text.isWord
    return op)

/-- No operator is ahead where another name is. -/
theorem fails_operatorOf {ops : List Operator} {t : List Char} (ht : IsName t)
    (h : ∀ op ∈ ops, t.map Char.toLower ≠ op.token.toList.map Char.toLower)
    (hrest : EndsName rest) : Fails (operatorOf ops) (t ++ rest) := by
  induction ops with
  | nil => exact fails_fail
  | cons o ops ih =>
    have hlexeme := fails_lexeme (isName_token o) ht (h o List.mem_cons_self) hrest
    exact Fails.orElse (fails_assoc.1 hlexeme.bind)
      (ih fun op hop => h op (List.mem_cons_of_mem o hop))

theorem reads_operatorOf {ops : List Operator} {op : Operator} {t : List Char} (h : op ∈ ops)
    (ht : t.map Char.toLower = op.token.toList.map Char.toLower) (hrest : EndsName rest) :
    Reads (operatorOf ops) (· = op) (t ++ rest) rest := by
  induction ops with
  | nil => cases h
  | cons o ops ih =>
    by_cases ho : o = op
    · subst ho
      exact Reads.orElse_left (Reads.bind (P := fun _ => True) (reads_word trivial ht) fun _ _ =>
        Reads.bind (P := fun _ => True) (Reads.notBefore hrest trivial) fun _ _ => Reads.pure rfl)
    · have hlexeme := fails_lexeme (isName_token o) ((isName_token op).of_lower ht)
        (fun heq => ho (token_injective (heq.symm.trans ht))) hrest
      exact Reads.orElse_right (fails_assoc.1 hlexeme.bind)
        (ih ((List.mem_cons.1 h).resolve_left fun heq => ho heq.symm))

/-- No operator is ahead where nothing of a name is. -/
theorem fails_operator_nil (accepts : Operator → Bool) (hrest : EndsName rest) :
    Fails (operator accepts) rest := by
  have hnil : IsName [] := by simp [IsName]
  have hfails : Fails (operatorOf (Operator.all.filter accepts)) rest :=
    fails_operatorOf hnil (fun op _ => by cases op <;> decide) hrest
  exact hfails.named

theorem mem_all (op : Operator) : op ∈ Operator.all := by cases op <;> decide

/-- An operator of a class is read by its word. -/
theorem reads_operator {accepts : Operator → Bool} {op : Operator} (h : accepts op = true)
    (hrest : EndsName rest) :
    Reads (operator accepts) (· = op) (op.token.toList ++ rest) rest :=
  (reads_operatorOf (List.mem_filter.2 ⟨mem_all op, h⟩) rfl hrest).named

theorem fails_operator {accepts : Operator → Bool} {op : Operator} (h : accepts op = false)
    (hrest : EndsName rest) : Fails (operator accepts) (op.token.toList ++ rest) := by
  refine (fails_operatorOf (isName_token op) (fun o ho heq => ?_) hrest).named
  rw [← token_injective heq, List.mem_filter, h] at ho
  cases ho.2

end Grammar

end Sift
