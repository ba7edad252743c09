import Sift.Calendar.Reader
import Sift.Calendar.Text

/-!
# Digits read back

* `digitsValue_padded`: a number in digits, with or without zeros in front, has its value.
* `digitsUpTo?_append`: the digits at the front of a text, where nothing after them is one.
-/

namespace Sift.Number

theorem digitsValue_eq_ofDigitChars (ds : List Char) : digitsValue ds = Nat.ofDigitChars 10 ds 0 :=
  rfl

theorem isDigit_of_mem_padded {width n : Nat} {c : Char} (h : c ∈ padded width n) :
    c.isDigit = true := by
  unfold padded at h
  rcases List.mem_append.1 h with h | h
  · rw [List.eq_of_mem_replicate h]; rfl
  · exact Nat.isDigit_of_mem_toDigits (by decide) (by decide) h

theorem digitsValue_padded (width n : Nat) : digitsValue (padded width n) = n := by
  rw [digitsValue_eq_ofDigitChars, padded, Nat.ofDigitChars_append, Nat.ofDigitChars_replicate_zero,
    Nat.mul_zero, natText, Nat.ofDigitChars_ten_toDigits]

theorem padded_ne_nil (width n : Nat) : padded width n ≠ [] := by
  unfold padded natText
  simp

theorem length_padded {width n : Nat} (hw : 0 < width) (hn : n < Nat.pow 10 width) :
    (padded width n).length = width := by
  have hle : (natText n).length ≤ width := (Nat.length_toDigits_le_iff (by decide) hw).2 hn
  unfold padded
  rw [List.length_append, List.length_replicate]
  omega

theorem digitValue_le_nine {c : Char} (h : c.isDigit = true) : digitValue c ≤ 9 := by
  unfold Char.isDigit at h
  simp only [Bool.and_eq_true, decide_eq_true_eq] at h
  have h57 : c.toNat ≤ 57 := h.2
  unfold digitValue
  have h48 : '0'.toNat = 48 := rfl
  omega

/-- So many digits make a number below that power of ten. -/
theorem digitsValue_lt {ds : List Char} (h : ∀ c ∈ ds, c.isDigit = true) :
    digitsValue ds < Nat.pow 10 ds.length := by
  induction ds with
  | nil => decide
  | cons c ds ih =>
    have hc := digitValue_le_nine (h c List.mem_cons_self)
    have hds := ih fun d hd => h d (List.mem_cons_of_mem c hd)
    rw [digitsValue_eq_ofDigitChars] at hds ⊢
    rw [Nat.ofDigitChars_cons, Nat.ofDigitChars_eq_ofDigitChars_zero, Nat.mul_zero, Nat.zero_add]
    have hmul : Nat.pow 10 ds.length * digitValue c ≤ Nat.pow 10 ds.length * 9 :=
      Nat.mul_le_mul_left _ hc
    show Nat.pow 10 ds.length * digitValue c + _ < Nat.pow 10 ds.length * 10
    omega

end Sift.Number

namespace Sift

theorem isBlank_of_isDigit {c : Char} (h : c.isDigit = true) : Text.isBlank c = false := by
  unfold Char.isDigit at h
  simp only [Bool.and_eq_true, decide_eq_true_eq] at h
  have h48 : 48 ≤ c.toNat := h.1
  have h57 : c.toNat ≤ 57 := h.2
  simp only [Text.isBlank, Bool.or_eq_false_iff, Bool.and_eq_false_iff, decide_eq_false_iff_not,
    beq_eq_false_iff_ne]
  omega

/-- Nothing is trimmed where a text does not begin with white space. -/
theorem trimStart_of_head {cs : List Char} (h : ∀ c ∈ cs.head?, Text.isBlank c = false) :
    Text.trimStart cs = cs := by
  unfold Text.trimStart
  cases cs with
  | nil => rfl
  | cons c cs => rw [List.dropWhile_cons_of_neg (by simp [h c rfl])]

namespace Calendar

open Number

theorem trimStart_digits {ds : List Char} (hds : ∀ c ∈ ds, c.isDigit = true) (hne : ds ≠ [])
    (rest : List Char) : Text.trimStart (ds ++ rest) = ds ++ rest := by
  cases ds with
  | nil => exact absurd rfl hne
  | cons d ds =>
    apply trimStart_of_head
    intro c hc
    cases hc
    exact isBlank_of_isDigit (hds d List.mem_cons_self)

/-- The digits at the front, up to the width or up to what is no digit. -/
theorem digitsUpTo?_append {width : Nat} {ds rest : List Char} (hds : ∀ c ∈ ds, c.isDigit = true)
    (hne : ds ≠ []) (hlen : ds.length ≤ width)
    (hend : ds.length = width ∨ ∀ c ∈ rest.head?, c.isDigit = false) :
    digitsUpTo? width (ds ++ rest) = some (digitsValue ds, rest) := by
  have htake : ((ds ++ rest).take width).takeWhile Char.isDigit = ds := by
    -- behind the digits the width is used up, or what follows is none
    have hrest : (rest.take (width - ds.length)).takeWhile Char.isDigit = [] := by
      rcases hend with h | h
      · rw [h, Nat.sub_self, List.take_zero, List.takeWhile_nil]
      · cases rest with
        | nil => simp
        | cons c rest =>
          cases hk : width - ds.length with
          | zero => simp
          | succ k => rw [List.take_succ_cons, List.takeWhile_cons_of_neg (by simp [h c rfl])]
    rw [List.take_append, List.take_of_length_le hlen, List.takeWhile_append_of_pos hds, hrest,
      List.append_nil]
  unfold digitsUpTo?
  simp only [htake, if_neg hne, List.drop_left]

theorem number?_padded {n : Nat} (hn : n < 100) (rest : List Char) :
    number? (padded 2 n ++ rest) = some (n, rest) := by
  have hds : ∀ c ∈ padded 2 n, c.isDigit = true := fun c hc => isDigit_of_mem_padded hc
  have hlen : (padded 2 n).length = 2 := length_padded (by decide) hn
  have hread : digitsUpTo? 2 (padded 2 n ++ rest) = some (digitsValue (padded 2 n), rest) :=
    digitsUpTo?_append hds (padded_ne_nil 2 n) (Nat.le_of_eq hlen) (Or.inl hlen)
  unfold number?
  rw [trimStart_digits hds (padded_ne_nil 2 n), hread, digitsValue_padded]

theorem digits?_padded (width : Nat) {n : Nat} (hw : 0 < width) (hn : n < Nat.pow 10 width)
    (rest : List Char) :
    digits? width (padded width n ++ rest) = some (n, rest) := by
  have hlen : (padded width n).length = width := length_padded hw hn
  have htake : (padded width n ++ rest).take width = padded width n := by
    rw [List.take_append, hlen, Nat.sub_self, List.take_zero, List.append_nil,
      List.take_of_length_le (Nat.le_of_eq hlen)]
  have hdrop : (padded width n ++ rest).drop width = rest := List.drop_left' hlen
  have hall : (padded width n).all Char.isDigit = true :=
    List.all_eq_true.2 fun c hc => isDigit_of_mem_padded hc
  unfold digits?
  simp only [htake, hdrop, hlen, hall, and_self, if_true, digitsValue_padded]

end Calendar

end Sift
