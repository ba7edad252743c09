import Sift.Proofs.Complement
import Sift.Proofs.Parenthesized

/-!
# Filters put together from filters

* `Node.exists_phrase`: what is found in a text that is read as a tree.
* `Grammar.reads_parenthesized`: in parentheses it is found again, whatever follows them.
* `Node.ofText_parenthesized`, `Node.ofText_negated`, `Node.ofText_joined`: what a text in
  parentheses, its negation, and two texts in parentheses are read as.
* `Schema.accepts_composed`: what these accept.
-/

namespace Sift

open Scan

/-! ## What is found in a text -/

theorem checkDepth_of_nests {limit n : Nat} {text : String} (h : Nests n text.toList) :
    checkDepth limit text = .ok () ↔ n ≤ limit := by
  have hshallow := h limit 0 []
  rw [List.append_nil, shallow_nil, Nat.zero_add, and_iff_left (Nat.zero_le limit)] at hshallow
  rw [checkDepth_eq_ok, hshallow]

namespace Grammar

/-- A text ends where nothing but white space is left. -/
theorem found_ending {here there : Cursor} {u : Unit}
    (h : (spaced (named ending) here).found = some (u, there)) :
    afterBlanks here.rest = [] ∧ there.rest = [] := by
  have hnil : afterBlanks here.rest = [] := by
    cases hrest : afterBlanks here.rest with
    | nil => rfl
    | cons c cs =>
      have hfails : Fails (spaced (named ending)) here.rest :=
        Fails.spaced (hrest ▸ (fails_notBefore rfl).named)
      rw [hfails here rfl] at h
      cases h
  have hreads : Reads (named ending) (fun _ => True) (afterBlanks here.rest)
      (afterBlanks here.rest) := Reads.named (Reads.notBefore (by simp [hnil]) trivial)
  obtain ⟨_, _, hfound, hrest, -⟩ := hreads.spaced here rfl
  rw [hfound] at h
  cases h
  exact ⟨hnil, hrest.trans hnil⟩

end Grammar

/-- The depth to which a whole text is followed is beyond its length. -/
theorem length_toList_lt (text : String) : text.toList.length < text.length + 1 := by
  rw [String.length_toList]
  exact Nat.lt_succ_self _

theorem Scan.found_optional {α : Type} {p : Scan α} {here there : Cursor} {found : Option α}
    (h : (optional p here).found = some (found, there)) :
    (∃ a, found = some a ∧ (p here).found = some (a, there)) ∨ found = none ∧ there = here := by
  unfold optional at h
  rw [found_orElse, Option.or_eq_some_iff] at h
  rcases h with h | ⟨-, h⟩
  · change ((p >>= fun a => Pure.pure (some a)) here).found = _ at h
    obtain ⟨a, last, hfound, h⟩ := found_bind_eq_some.1 h
    cases h
    exact Or.inl ⟨a, rfl, hfound⟩
  · cases h
    exact Or.inr ⟨rfl, rfl⟩

/-- **What is found in a text** that is read as a tree and is not blank: a phrase that stands for
the tree, with nothing behind it but white space. -/
theorem Node.exists_phrase {limit : Nat} {text : String} {node : Node}
    (h : Node.ofText limit text = .ok node) (hblank : ¬AllBlank text.toList) :
    ∃ n p there, n ≤ limit ∧ Nests n text.toList ∧ p.Valid n ∧ p.node text = .ok node ∧
      (spaced (Grammar.disjunction (Grammar.member (text.length + 1)))
        (Cursor.start text.toList)).found = some (p, there) ∧ AllBlank there.rest := by
  unfold Node.ofText at h
  obtain ⟨_, hdepth, h⟩ := bind_eq_ok.1 h
  obtain ⟨⟨found, consumed⟩, hscanned, h⟩ := bind_eq_ok.1 h
  obtain ⟨last, hfound, -⟩ := scanned_eq_ok.1 hscanned
  obtain ⟨cs, hcs, -, htaken⟩ := Grammar.takes_whole _ _ _ _ trivial hfound
  unfold Grammar.input at hfound
  rw [found_named] at hfound
  obtain ⟨found', there, hopen, hfound⟩ := found_bind_eq_some.1 hfound
  obtain ⟨_, _, hending, hfound⟩ := found_bind_eq_some.1 hfound
  cases hfound
  obtain ⟨hrest, hlast⟩ := Grammar.found_ending hending
  change ((blanks >>= fun _ => optional _) _).found = _ at hopen
  obtain ⟨_, here, hblanks, hopen⟩ := found_bind_eq_some.1 hopen
  rcases found_optional hopen with ⟨p, rfl, hp⟩ | ⟨rfl, rfl⟩
  · obtain ⟨first, rest, rfl, htaken⟩ := htaken
    rw [hlast, List.append_nil] at hcs
    have htext : Nests (Phrase.listNesting (first :: rest)) text.toList := by
      rw [show text.toList = cs from hcs]
      exact htaken.nests
    refine ⟨_, .any first rest, there, (checkDepth_of_nests htext).1 hdepth, htext, htaken.valid, h,
      ?_, ?_⟩
    · change ((blanks >>= fun _ => Grammar.disjunction _) _).found = _
      rw [found_bind, hblanks, Option.bind_some, hp]
    · exact afterBlanks_eq_nil_iff.1 hrest
  · -- no phrase at all: then there is nothing but white space
    rw [found_blanks hblanks, afterBlanks_afterBlanks] at hrest
    exact absurd (afterBlanks_eq_nil_iff.1 hrest) hblank

/-! ## Texts in parentheses -/

/-- A phrase stands for a tree, in whatever text it is found. -/
def Phrase.Means (p : Phrase) (node : Node) : Prop := ∀ source, p.node source = .ok node

namespace Phrase

variable {p q : Phrase} {a b : Node}

theorem Means.negated (h : p.Means a) : (Phrase.negated p).Means a.negate := by
  intro source
  rw [Phrase.node, h source]
  rfl

theorem Means.combined_nil (logic : Logic) (p : Phrase) (h : p.Means a) :
    (combined logic p []).Means a := by
  intro source
  rw [node_combined, h source]
  rfl

theorem Means.combined_cons (h : p.Means a) (hq : q.Means b) (logic : Logic) :
    (combined logic p [q]).Means (.group .multi logic [a, b]) := by
  intro source
  rw [node_combined, h source, Phrase.nodes, hq source]
  rfl

end Phrase

namespace Grammar

variable {limit depth : Nat} {text : String} {node : Node}

/-- **In parentheses a text is read as by itself**, whatever follows them. -/
theorem reads_parenthesized (h : Node.ofText limit text = .ok node)
    (hblank : ¬AllBlank text.toList) (hdepth : text.length < depth) (tail : List Char) :
    Reads (memberBody depth) (·.Means node) ('(' :: (text.toList ++ ')' :: tail)) tail := by
  obtain ⟨n, p, there, -, hnests, -, hp, hfound, hrest⟩ := Node.exists_phrase h hblank
  have hmirrors : Mirrors (')' :: tail) 0 (text.length + 1) 0
      (spaced (disjunction (member (text.length + 1)))) (spaced (disjunction (member depth)))
      Phrase.Alike 0 := (mirrors_disjunction (mirrors_member hdepth)).spaced stops_parenthesis
  have hinner : Reads (spaced (disjunction (member depth))) (·.Means node)
      (text.toList ++ ')' :: tail) (there.rest ++ ')' :: tail) := by
    intro here hhere
    obtain ⟨-, hsome⟩ := hmirrors (Cursor.start text.toList) here hhere hnests.closing
      (length_toList_lt text)
    obtain ⟨p', there', hfound', hthere, hstop, -, -, halike⟩ := hsome p there hfound
    exact ⟨p', there', hfound', hthere, hstop, fun source => (halike text source node).1 hp⟩
  have hclose : afterBlanks (there.rest ++ ')' :: tail) = ')' :: tail := by
    have hskip : afterBlanks (there.rest ++ ')' :: tail) = afterBlanks (')' :: tail) :=
      List.dropWhile_append_of_pos hrest
    rw [hskip]
    rfl
  refine Reads.orElse_left (Reads.exactly_bind (hinner.bind fun p hp => ?_))
  exact (Reads.spaced_to (P := fun _ => True) hclose (Reads.exactly trivial)).bind
    fun _ _ => Reads.pure hp

/-- A member that stands in parentheses. -/
theorem reads_member_of_body {rest : List Char} {cs : List Char}
    (h : Reads (memberBody depth) (·.Means node) ('(' :: cs) rest) :
    Reads (member (depth + 1)) (·.Means node) ('(' :: cs) rest := by
  have hnot : Fails (keyword "not") ('(' :: cs) :=
    fails_keyword_nil (forall_mem_of_all (by decide)) (by decide) (endsName_cons (by decide))
  rw [member_succ]
  refine Reads.named ((Reads.manySpaced_nil (R := (· = [])) hnot rfl).bind_eq ?_)
  exact (Reads.spaced_to (afterBlanks_of_head (by simp [Scan.isBlank])) h).bind
    fun p hp => Reads.pure hp

/-- A member in parentheses under a negation. -/
theorem reads_member_negated {rest : List Char} {cs : List Char}
    (h : Reads (memberBody depth) (·.Means node) ('(' :: cs) rest) :
    Reads (member (depth + 1)) (·.Means node.negate) ('n' :: 'o' :: 't' :: ' ' :: '(' :: cs)
      rest := by
  have hnot : Fails (keyword "not") ('(' :: cs) :=
    fails_keyword_nil (forall_mem_of_all (by decide)) (by decide) (endsName_cons (by decide))
  have hfirst : Reads (keyword "not") (fun _ => True) ("not".toList ++ ' ' :: '(' :: cs)
      (' ' :: '(' :: cs) := reads_keyword trivial rfl (endsName_cons (by decide))
  have hblank : afterBlanks (' ' :: '(' :: cs) = '(' :: cs := rfl
  have hnots : Reads (manySpaced (keyword "not")) (fun nots => nots.length = 1)
      ("not".toList ++ ' ' :: '(' :: cs) (' ' :: '(' :: cs) := by
    refine Reads.manySpaced_cons hfirst (ReadsMany.nil (R := (· = [])) ?_ rfl) ?_
    · exact Fails.spaced (hblank ▸ hnot)
    · rintro _ _ - rfl
      rfl
  rw [member_succ]
  refine Reads.named (hnots.bind fun nots hlength => ?_)
  rw [hlength]
  exact (Reads.spaced_to hblank h).bind fun p hp => Reads.pure hp.negated

section Joined

variable {member : Scan Phrase} {a b : Node} {P : Phrase → Prop} {before between rest : List Char}

/-- A member that no other follows is combined with nothing. -/
theorem reads_combined_single (logic : Logic) (hP : ∀ p, P p → P (Phrase.combined logic p []))
    (h : Reads member P before rest) (hstop : Fails (keyword logic.token) (afterBlanks rest)) :
    Reads (do
      let (first, rest) ← joinedBy logic.token member
      return Phrase.combined logic first rest) P before (afterBlanks rest) := by
  have hjoined : Reads (joinedBy logic.token member) (fun ps => P ps.1 ∧ ps.2 = []) before
      (afterBlanks rest) := by
    refine h.bind fun p hp => Reads.blanks_bind ?_
    refine (Reads.manySpaced_nil (R := (· = [])) hstop.bind rfl).bind_eq ?_
    exact Reads.pure ⟨hp, rfl⟩
  refine hjoined.bind fun ps hps => Reads.pure ?_
  rw [hps.2]
  exact hP ps.1 hps.1

/-- Two members with the word for a logic between them. -/
theorem reads_combined_pair (logic : Logic) (ha : Reads member (·.Means a) before between)
    (hb : Reads (do keyword logic.token; spaced member) (·.Means b) (afterBlanks between) []) :
    Reads (do
      let (first, rest) ← joinedBy logic.token member
      return Phrase.combined logic first rest)
      (·.Means (.group .multi logic [a, b])) before [] := by
  have hstop : Fails (keyword logic.token) [] :=
    fails_keyword_nil (isName_logic logic) (by cases logic <;> decide) (by simp [EndsName])
  have hjoined : Reads (joinedBy logic.token member)
      (fun ps => ps.1.Means a ∧ ∃ q : Phrase, ps.2 = [q] ∧ q.Means b) before [] := by
    refine ha.bind fun p hp => Reads.blanks_bind ?_
    have hmany : Reads (manySpaced (do keyword logic.token; spaced member))
        (fun ps => ∃ q : Phrase, ps = [q] ∧ q.Means b) (afterBlanks between) [] := by
      refine hb.manySpaced_cons (ReadsMany.nil (R := (· = [])) (Fails.spaced hstop.bind) rfl) ?_
      rintro q _ hq rfl
      exact ⟨q, rfl, hq⟩
    exact hmany.bind fun ps hps => Reads.pure ⟨hp, hps⟩
  refine hjoined.bind ?_
  rintro ⟨p, _⟩ ⟨hp, q, rfl, hq⟩
  exact Reads.pure (hp.combined_cons hq logic)

theorem reads_after_token {P : Phrase → Prop} {cs : List Char} (logic : Logic)
    (h : Reads member P ('(' :: cs) rest) :
    Reads (do keyword logic.token; spaced member) P
      (afterBlanks (Node.separator logic ++ '(' :: cs)) rest := by
  have hblank : afterBlanks (Node.separator logic ++ '(' :: cs) =
      logic.token.toList ++ ' ' :: '(' :: cs := by
    unfold Node.separator
    simp only [List.cons_append, List.append_assoc, afterBlanks_space, afterBlanks_token,
      List.nil_append]
  rw [hblank]
  refine Reads.bind (P := fun _ => True) (reads_keyword trivial rfl (endsName_cons (by decide)))
    fun _ _ => Reads.spaced_to ?_ h
  rfl

theorem reads_disjunction_of_conjunction (hP : ∀ p, P p → P (Phrase.combined .or p []))
    (h : Reads (conjunction member) P before []) : Reads (disjunction member) P before [] :=
  Reads.named (reads_combined_single .or hP h endsFilter_nil.2)

/-- A member up to the end is the whole filter. -/
theorem reads_disjunction_of_member (hP : ∀ logic p, P p → P (Phrase.combined logic p []))
    (h : Reads member P before []) : Reads (disjunction member) P before [] :=
  reads_disjunction_of_conjunction (hP .or)
    (Reads.named (reads_combined_single .and (hP .and) h endsFilter_nil.1.2))

/-- Two members with the word for a logic between them are read as a group of two. -/
theorem reads_disjunction_pair {cs : List Char} (logic : Logic)
    (ha : Reads member (·.Means a) before (Node.separator logic ++ '(' :: cs))
    (hb : Reads member (·.Means b) ('(' :: cs) []) :
    Reads (disjunction member) (·.Means (.group .multi logic [a, b])) before [] := by
  cases logic with
  | and =>
    exact reads_disjunction_of_conjunction (Phrase.Means.combined_nil .or)
      (Reads.named (reads_combined_pair .and ha (reads_after_token .and hb)))
  | or =>
    -- both are conjunctions of one member
    have hfirst : Reads (conjunction member) (·.Means a) before
        (afterBlanks (Node.separator .or ++ '(' :: cs)) :=
      Reads.named (reads_combined_single .and (Phrase.Means.combined_nil .and) ha
        (endsConjunction_or ('(' :: cs)).2)
    have hsecond : Reads (conjunction member) (·.Means b) ('(' :: cs) [] :=
      Reads.named (reads_combined_single .and (Phrase.Means.combined_nil .and) hb
        endsFilter_nil.1.2)
    have hafter := reads_after_token .or hsecond
    rw [← afterBlanks_afterBlanks] at hafter
    exact Reads.named (reads_combined_pair .or hfirst hafter)

end Joined

end Grammar

/-! ## Whole texts -/

/-- A text that is found as a phrase up to its end is a whole filter text. -/
theorem Grammar.reads_input_of_disjunction {P : Phrase → Prop} {depth : Nat} {cs : List Char}
    (hhead : ∀ c ∈ cs.head?, isBlank c = false)
    (h : Reads (disjunction (member depth)) P cs []) :
    Reads (input depth) (fun found => ∃ p, found = some p ∧ P p) cs [] := by
  have hsome : Reads (optional (disjunction (member depth)))
      (fun found => ∃ p, found = some p ∧ P p) cs [] :=
    Reads.optional_some (h.mono fun p hp => ⟨p, rfl, hp⟩)
  refine Reads.named ((Reads.spaced_to (afterBlanks_of_head hhead) hsome).bind fun found hp => ?_)
  refine Reads.bind (P := fun _ => True) (Reads.spaced_to rfl ?_) fun _ _ => Reads.pure hp
  exact (Reads.notBefore (by simp) trivial).named

/-- It is read as the tree that the phrase stands for. -/
theorem Node.ofText_of_reads {limit : Nat} {text : String} {node : Node}
    (hdepth : checkDepth limit text = .ok ()) (hhead : ∀ c ∈ text.toList.head?, isBlank c = false)
    (h : Reads (Grammar.disjunction (Grammar.member (text.length + 1))) (·.Means node)
      text.toList []) : Node.ofText limit text = .ok node := by
  obtain ⟨_, there, hfound, -, -, p, rfl, hp⟩ :=
    Grammar.reads_input_of_disjunction hhead h (Cursor.start text.toList) rfl
  unfold Node.ofText
  rw [hdepth]
  show (scanned _ _ >>= _) = _
  rw [scanned_eq_ok.2 ⟨there, hfound, rfl⟩]
  exact hp text

/-- What is read from it is what the phrase stands for. -/
theorem Node.node_of_reads {limit : Nat} {text : String} {node : Node} {P : Phrase → Prop}
    (hhead : ∀ c ∈ text.toList.head?, isBlank c = false)
    (h : Reads (Grammar.disjunction (Grammar.member (text.length + 1))) P text.toList [])
    (hnode : Node.ofText limit text = .ok node) : ∃ p, P p ∧ p.node text = .ok node := by
  obtain ⟨_, there, hfound, -, -, p, rfl, hp⟩ :=
    Grammar.reads_input_of_disjunction hhead h (Cursor.start text.toList) rfl
  unfold Node.ofText at hnode
  obtain ⟨_, -, hnode⟩ := bind_eq_ok.1 hnode
  rw [scanned_eq_ok.2 ⟨there, hfound, rfl⟩] at hnode
  exact ⟨p, hp, hnode⟩

variable {limit : Nat} {t u : String} {a b : Node}

theorem length_lt_of_toList {s t : String} (before after : List Char)
    (h : s.toList = before ++ (t.toList ++ after)) (hne : before ≠ []) : t.length < s.length := by
  have hpos : 0 < before.length := List.length_pos_iff.2 hne
  rw [← String.length_toList, ← String.length_toList, h]
  simp only [List.length_append]
  omega

/-- A text in parentheses is read as what it is read as by itself. -/
theorem Node.ofText_parenthesized (ht : Node.ofText limit t = .ok a)
    (hblank : ¬AllBlank t.toList) : Node.ofText (limit + 1) ("(" ++ t ++ ")") = .ok a := by
  obtain ⟨n, -, -, hn, hnests, -⟩ := Node.exists_phrase ht hblank
  have htext : ("(" ++ t ++ ")").toList = '(' :: (t.toList ++ [')']) := by simp
  have hlength := length_lt_of_toList ['('] _ htext (by simp)
  refine Node.ofText_of_reads ((checkDepth_of_nests (n := n + 1) ?_).2 (by omega)) ?_ ?_
  · rw [htext]
    exact hnests.brackets (by simp) (by simp)
  · rw [htext]
    simp [Scan.isBlank]
  · rw [htext]
    exact Grammar.reads_disjunction_of_member Phrase.Means.combined_nil
      (Grammar.reads_member_of_body (Grammar.reads_parenthesized ht hblank hlength []))

/-- Under a negation it is read as the negated tree. -/
theorem Node.ofText_negated (ht : Node.ofText limit t = .ok a) (hblank : ¬AllBlank t.toList) :
    Node.ofText (limit + 1) ("not (" ++ t ++ ")") = .ok a.negate := by
  obtain ⟨n, -, -, hn, hnests, -⟩ := Node.exists_phrase ht hblank
  have htext : ("not (" ++ t ++ ")").toList =
      ['n', 'o', 't', ' '] ++ '(' :: (t.toList ++ [')']) := by simp
  have hlength := length_lt_of_toList ['n', 'o', 't', ' ', '('] _ htext (by simp)
  refine Node.ofText_of_reads ((checkDepth_of_nests (n := n + 1) ?_).2 (by omega)) ?_ ?_
  · have hnot : Nests 0 ['n', 'o', 't', ' '] := nests_flat (forall_mem_of_all (by decide))
    have hbrackets := hnot.append (hnests.brackets (a := '(') (b := ')') (by simp) (by simp))
    rwa [← htext, Nat.zero_max] at hbrackets
  · rw [htext]
    simp [Scan.isBlank]
  · rw [htext]
    exact Grammar.reads_disjunction_of_member Phrase.Means.combined_nil
      (Grammar.reads_member_negated (Grammar.reads_parenthesized ht hblank hlength []))

/-- Two texts in parentheses, with the word for a logic between them, are read as a group. -/
theorem Node.ofText_joined (logic : Logic) (ht : Node.ofText limit t = .ok a)
    (hu : Node.ofText limit u = .ok b) (htblank : ¬AllBlank t.toList)
    (hublank : ¬AllBlank u.toList) :
    Node.ofText (limit + 1) ("(" ++ t ++ ") " ++ logic.token ++ " (" ++ u ++ ")") =
      .ok (.group .multi logic [a, b]) := by
  obtain ⟨n, -, -, hn, htnests, -⟩ := Node.exists_phrase ht htblank
  obtain ⟨m, -, -, hm, hunests, -⟩ := Node.exists_phrase hu hublank
  have htext : ("(" ++ t ++ ") " ++ logic.token ++ " (" ++ u ++ ")").toList =
      '(' :: (t.toList ++ ')' :: (Node.separator logic ++ '(' :: (u.toList ++ [')']))) := by
    simp [Node.separator]
  have htlength := length_lt_of_toList ['('] _ htext (by simp)
  have hulength : u.length < ("(" ++ t ++ ") " ++ logic.token ++ " (" ++ u ++ ")").length :=
    length_lt_of_toList ('(' :: (t.toList ++ ')' :: (Node.separator logic ++ ['(']))) [')']
      (by rw [htext]; simp) (by simp)
  refine Node.ofText_of_reads ((checkDepth_of_nests (n := max n m + 1) ?_).2 (by omega)) ?_ ?_
  · have hseparator : Nests 0 (Node.separator logic) :=
      nests_flat (by cases logic <;> exact forall_mem_of_all (by decide))
    have hleft := htnests.brackets (a := '(') (b := ')') (by simp) (by simp)
    have hright := hunests.brackets (a := '(') (b := ')') (by simp) (by simp)
    have hall := hleft.append (hseparator.append hright)
    have hmax : max (n + 1) (max 0 (m + 1)) = max n m + 1 := by omega
    rw [hmax] at hall
    rw [htext]
    simpa using hall
  · rw [htext]
    simp [Scan.isBlank]
  · rw [htext]
    refine Grammar.reads_disjunction_pair logic ?_ (Grammar.reads_member_of_body
      (Grammar.reads_parenthesized hu hublank hulength []))
    exact Grammar.reads_member_of_body (Grammar.reads_parenthesized ht htblank htlength _)

/-! ## What they accept -/

mutual

/-- The comparisons of a legible tree are legible. -/
theorem Node.Legible.filters : ∀ {node : Node}, node.Legible limit →
    ∀ f ∈ node.filters, f.Legible limit
  | .leaf f, h, g, hg => by
    rw [Node.filters, List.mem_singleton] at hg
    rw [Node.Legible] at h
    exact hg ▸ h
  | .group _ _ members, h, g, hg => by
    rw [Node.filters] at hg
    rw [Node.Legible] at h
    exact h.2.filters g hg

theorem Node.AllLegible.filters : ∀ {nodes : List Node}, Node.AllLegible limit nodes →
    ∀ f ∈ Node.filtersOf nodes, f.Legible limit
  | [], _, g, hg => absurd hg List.not_mem_nil
  | node :: rest, h, g, hg => by
    rw [Node.filtersOf, List.mem_append] at hg
    rcases hg with hg | hg
    · exact h.1.filters g hg
    · exact h.2.filters g hg

end

theorem Node.Legible.path?_isSome {node : Node} (h : node.Legible limit) :
    ∀ f ∈ node.filters, f.path?.isSome := by
  intro f hf
  obtain ⟨path, hpath, hfield⟩ := (h.filters f hf).field
  rw [hpath.path? hfield]
  rfl

namespace Schema

variable {n : Nat} {s : Schema n} {p q : Predicate}

theorem compileText_of_ofText {text : String} {node : Node}
    (h : Node.ofText defaultDepth text = .ok node) : s.compileText text = s.compile node := by
  rw [compileText, h]
  rfl

theorem compileAll_pair (hp : s.compile a = .ok p) (hq : s.compile b = .ok q) :
    s.compileAll [a, b] = .ok [p, q] := by
  rw [compileAll, compileAll, compileAll, hp, hq]
  rfl

/-- **The filter language is compositional.** Two filter texts that are not blank and leave room
for a pair of parentheses may be put in parentheses, negated and combined.

The texts that come about compile wherever their parts do, and accept of every record what the part
accepts, its complement, and the conjunction and disjunction of the two. -/
theorem accepts_composed (ht : Node.ofText 31 t = .ok a) (hu : Node.ofText 31 u = .ok b)
    (htblank : ¬AllBlank t.toList) (hublank : ¬AllBlank u.toList) (hp : s.compile a = .ok p)
    (hq : s.compile b = .ok q) :
    (∃ p', s.compileText ("(" ++ t ++ ")") = .ok p' ∧
      ∀ ignoreCase r, p'.accepts ignoreCase r = p.accepts ignoreCase r) ∧
    (∃ p', s.compileText ("not (" ++ t ++ ")") = .ok p' ∧
      ∀ ignoreCase r, p'.accepts ignoreCase r = !p.accepts ignoreCase r) ∧
    (∃ p', s.compileText ("(" ++ t ++ ") and (" ++ u ++ ")") = .ok p' ∧
      ∀ ignoreCase r, p'.accepts ignoreCase r =
        (p.accepts ignoreCase r && q.accepts ignoreCase r)) ∧
    ∃ p', s.compileText ("(" ++ t ++ ") or (" ++ u ++ ")") = .ok p' ∧
      ∀ ignoreCase r, p'.accepts ignoreCase r =
        (p.accepts ignoreCase r || q.accepts ignoreCase r) := by
  have hjoined : ∀ logic : Logic, ("(" ++ t ++ ") " ++ logic.token ++ " (" ++ u ++ ")") =
      "(" ++ t ++ (") " ++ logic.token ++ " (") ++ u ++ ")" := by
    intro logic
    simp only [String.append_assoc]
  refine ⟨⟨p, ?_, fun _ _ => rfl⟩, ⟨p.complement, ?_, fun ignoreCase r => ?_⟩,
    ⟨.all [p, q], ?_, fun ignoreCase r => ?_⟩, ⟨.any [p, q], ?_, fun ignoreCase r => ?_⟩⟩
  · rw [compileText_of_ofText (Node.ofText_parenthesized ht htblank), hp]
  · obtain ⟨k, phrase, -, -, -, hvalid, hnode, -⟩ := Node.exists_phrase ht htblank
    have hpaths := (Phrase.legible_node hvalid hnode).path?_isSome
    rw [compileText_of_ofText (Node.ofText_negated ht htblank), s.compile_negate a hpaths, hp]
    rfl
  · exact p.accepts_complement ignoreCase r
  · have hand := Node.ofText_joined .and ht hu htblank hublank
    rw [hjoined] at hand
    have hcompile := compileText_of_ofText (s := s) hand
    rw [compile, compileAll_pair hp hq] at hcompile
    exact hcompile
  · rw [Predicate.accepts, Predicate.allAccept, Predicate.allAccept, Predicate.allAccept,
      Bool.and_true]
  · have hor := Node.ofText_joined .or ht hu htblank hublank
    rw [hjoined] at hor
    have hcompile := compileText_of_ofText (s := s) hor
    rw [compile, compileAll_pair hp hq] at hcompile
    exact hcompile
  · rw [Predicate.accepts, Predicate.anyAccepts, Predicate.anyAccepts, Predicate.anyAccepts,
      Bool.or_false]

/-- A disjunction with a quoted parenthesis and white space around it, and a negated set. -/
theorem accepts_composed_sets : ∃ (s : Schema 2) (t u : String) (a b : Node) (p q p' : Predicate),
    Node.ofText 31 t = .ok a ∧ Node.ofText 31 u = .ok b ∧ s.compile a = .ok p ∧
      s.compile b = .ok q ∧ s.compileText ("(" ++ t ++ ") and (" ++ u ++ ")") = .ok p' ∧
        ∀ ignoreCase r, p'.accepts ignoreCase r =
          (p.accepts ignoreCase r && q.accepts ignoreCase r) := by
  let s : Schema 2 := ⟨fun
    | 0 => ⟨"Hero",
        [("Name", .scalar .string), ("Friends", .list (.object 0)), ("Team", .object 1)]⟩
    | 1 => ⟨"Team", [("Size", .scalar .integer)]⟩, 0⟩
  let t := " Friends.Name eq \") or (\" or Team[\"Size\"] gt 3 "
  let u := "not Name startswith {(Bat*|*man),!x}"
  have htcompiles : ((Node.ofText 31 t).toOption.bind fun a => (s.compile a).toOption).isSome =
      true := by decide +kernel
  have hucompiles : ((Node.ofText 31 u).toOption.bind fun b => (s.compile b).toOption).isSome =
      true := by decide +kernel
  obtain ⟨p, hp⟩ := Option.isSome_iff_exists.1 htcompiles
  obtain ⟨a, ha, hp⟩ := Option.bind_eq_some_iff.1 hp
  obtain ⟨q, hq⟩ := Option.isSome_iff_exists.1 hucompiles
  obtain ⟨b, hb, hq⟩ := Option.bind_eq_some_iff.1 hq
  rw [toOption_eq_some] at ha hb hp hq
  have htblank : ¬AllBlank t.toList := by
    intro h
    have hblank := h 'F' (by decide +kernel)
    exact absurd hblank (by decide)
  have hublank : ¬AllBlank u.toList := by
    intro h
    have hblank := h 'N' (by decide +kernel)
    exact absurd hblank (by decide)
  obtain ⟨-, -, ⟨p', hp', haccepts⟩, -⟩ := accepts_composed ha hb htblank hublank hp hq
  exact ⟨s, t, u, a, b, p, q, p', ha, hb, hp, hq, hp', haccepts⟩

end Schema

end Sift
