import Mathlib.Data.List.DropRight
import Mathlib.Data.List.Infix
import Mathlib.Tactic.Common
import Ztest.Lib.Lines

/-!
This module contains DNS-1123 labels, how they are joined by a dash, and the ones in which a dash always
stands between two other characters. These have a grammar, which is kept when such a text is cut short and
its last dash dropped.
-/

namespace Text

def len (text : Text) : Nat := (text.map Char.utf8Size).sum

theorem len_append (a b : Text) : len (a ++ b) = len a + len b := by
  unfold len
  rw [List.map_append, List.sum_append]

-- `l` without its last element where that is `a`.
def cutLast {α : Type} [DecidableEq α] (a : α) (l : List α) : List α :=
  if l.getLast? = some a then l.dropLast else l

section CutLast

variable {α : Type} [DecidableEq α] {a : α} {l l' : List α}

@[simp]
theorem cutLast_nil : cutLast a [] = [] := rfl

theorem cutLast_front (a : α) (l : List α) : cutLast a l <+: l := by
  unfold cutLast
  split
  . exact List.dropLast_prefix l
  . exact List.prefix_refl l

theorem cutLast_singleton_self (a : α) : cutLast a [a] = [] := by simp [cutLast]

theorem cutLast_cons {c : α} (h : c ≠ a ∨ l ≠ []) : cutLast a (c :: l) = c :: cutLast a l := by
  cases l with
  | nil =>
    have hc : c ≠ a := h.resolve_right fun hne => hne rfl
    simp [cutLast, hc]
  | cons d l =>
    unfold cutLast
    rw [List.getLast?_cons_cons, List.dropLast_cons_cons]
    split
    . rfl
    . rfl

theorem cutLast_mono (h : l <+: l') : cutLast a l <+: cutLast a l' := by
  rcases Nat.lt_or_ge l.length l'.length with hlt | hge
  . have hlong : l.length ≤ (cutLast a l').length := by
      unfold cutLast
      split
      . rw [List.length_dropLast]
        omega
      . omega
    exact List.prefix_of_prefix_length_le ((cutLast_front a l).trans h) (cutLast_front a l')
      (Nat.le_trans (cutLast_front a l).length_le hlong)
  . rw [h.eq_of_length_le hge]

end CutLast

end Text

namespace Label

def isAlnum (c : Char) : Bool := c.isLower || c.isDigit

def isChar (c : Char) : Bool := isAlnum c || c = '-'

/--
A DNS-1123 label of at most `max` bytes.
-/
structure Valid (max : Nat) (text : Text) : Prop where
  ne_nil : text ≠ []
  len_le : text.len ≤ max
  chars : ∀ c ∈ text, isChar c = true
  head : text.head? ≠ some '-'
  last : text.getLast? ≠ some '-'

section Chars

variable {c : Char} {text : Text}

theorem isChar_of_isAlnum (h : isAlnum c = true) : isChar c = true := by simp [isChar, h]

theorem ne_dash_of_isAlnum (h : isAlnum c = true) : c ≠ '-' := by
  rintro rfl
  revert h
  decide

theorem isAlnum_iff (h : isChar c = true) : isAlnum c = true ↔ c ≠ '-' := by
  constructor
  . exact ne_dash_of_isAlnum
  . intro hne
    simpa [isChar, hne] using h

theorem isUpper_iff : c.isUpper = true ↔ 'A'.val ≤ c.val ∧ c.val ≤ 'Z'.val := decide_eq_true_iff

theorem isLower_iff : c.isLower = true ↔ 'a'.val ≤ c.val ∧ c.val ≤ 'z'.val :=
  Bool.and_eq_true_iff.trans (and_congr decide_eq_true_iff decide_eq_true_iff)

theorem isDigit_iff : c.isDigit = true ↔ '0'.val ≤ c.val ∧ c.val ≤ '9'.val :=
  Bool.and_eq_true_iff.trans (and_congr decide_eq_true_iff decide_eq_true_iff)

theorem isAlnum_iff_or : isAlnum c = true ↔ c.isLower = true ∨ c.isDigit = true := Bool.or_eq_true_iff

theorem isAlphanum_iff : c.isAlphanum = true ↔ (c.isUpper = true ∨ c.isLower = true) ∨ c.isDigit = true :=
  Bool.or_eq_true_iff.trans (or_congr_left Bool.or_eq_true_iff)

theorem val_toLower (h : c.isUpper = true) : c.toLower.val = c.val + 32 :=
  congrArg Char.val (dif_pos (isUpper_iff.mp h))

theorem toLower_of_not_isUpper (h : ¬c.isUpper = true) : c.toLower = c :=
  dif_neg fun hupper => h (isUpper_iff.mpr hupper)

theorem isAlnum_toLower (h : c.isAlphanum = true) : isAlnum c.toLower = true := by
  by_cases hupper : c.isUpper = true
  . rw [isAlnum_iff_or, isLower_iff, val_toLower hupper]
    rw [isUpper_iff] at hupper
    simp only [UInt32.le_iff_toNat_le, UInt32.toNat_add] at hupper ⊢
    have hA : 'A'.val.toNat = 65 := rfl
    have hZ : 'Z'.val.toNat = 90 := rfl
    have ha : 'a'.val.toNat = 97 := rfl
    have hz : 'z'.val.toNat = 122 := rfl
    have h32 : (32 : UInt32).toNat = 32 := rfl
    omega
  . rw [toLower_of_not_isUpper hupper]
    exact isAlnum_iff_or.mpr ((isAlphanum_iff.mp h).imp_left (Or.resolve_left · hupper))

theorem isAlphanum_of_isAlnum (h : isAlnum c = true) : c.isAlphanum = true :=
  isAlphanum_iff.mpr ((isAlnum_iff_or.mp h).imp_left .inr)

theorem not_isUpper_of_isAlnum (h : isAlnum c = true) : ¬c.isUpper = true := by
  intro hupper
  rw [isUpper_iff] at hupper
  rw [isAlnum_iff_or, isLower_iff, isDigit_iff] at h
  rcases h with ⟨ha, _⟩ | ⟨_, h9⟩
  . exact absurd (UInt32.le_trans ha hupper.2) (by decide)
  . exact absurd (UInt32.le_trans hupper.1 h9) (by decide)

theorem toLower_of_isAlnum (h : isAlnum c = true) : c.toLower = c := toLower_of_not_isUpper (not_isUpper_of_isAlnum h)

theorem utf8Size_of_isChar (h : isChar c = true) : c.utf8Size = 1 := by
  have hle : c.val ≤ 127 := by
    by_cases hdash : c = '-'
    . subst hdash
      decide
    . have halnum := (isAlnum_iff h).mpr hdash
      rw [isAlnum_iff_or, isLower_iff, isDigit_iff] at halnum
      rcases halnum with ⟨_, hz⟩ | ⟨_, h9⟩
      . exact UInt32.le_trans hz (by decide)
      . exact UInt32.le_trans h9 (by decide)
  unfold Char.utf8Size
  exact if_pos hle

theorem len_eq_length (h : ∀ c ∈ text, isChar c = true) : text.len = text.length := by
  induction text with
  | nil => rfl
  | cons c text ih =>
    rw [List.forall_mem_cons] at h
    have hlen : Text.len (c :: text) = c.utf8Size + Text.len text := by simp [Text.len]
    rw [hlen, utf8Size_of_isChar h.1, ih h.2, List.length_cons, Nat.add_comm]

end Chars

section Valid

variable {max max' : Nat} {text text' : Text}

theorem Valid.mono (h : Valid max text) (hmax : max ≤ max') : Valid max' text where
  ne_nil := h.ne_nil
  len_le := Nat.le_trans h.len_le hmax
  chars := h.chars
  head := h.head
  last := h.last

theorem Valid.length_le (h : Valid max text) : text.length ≤ max := by
  rw [← len_eq_length h.chars]
  exact h.len_le

theorem Valid.append_dash (h : Valid max text) (h' : Valid max' text')
    : Valid (max + 1 + max') (text ++ '-' :: text') where
  ne_nil := by simp
  len_le := by
    have hlen : Text.len ('-' :: text') = 1 + text'.len := rfl
    have h₁ := h.len_le
    have h₂ := h'.len_le
    rw [Text.len_append, hlen]
    omega
  chars := by
    intro c hc
    rcases List.mem_append.mp hc with hc | hc
    . exact h.chars c hc
    . rcases List.mem_cons.mp hc with rfl | hc
      . rfl
      . exact h'.chars c hc
  head := by
    rw [List.head?_append_of_ne_nil _ h.ne_nil]
    exact h.head
  last := by
    rw [List.getLast?_append_of_ne_nil _ (List.cons_ne_nil _ _), List.getLast?_cons_of_ne_nil h'.ne_nil]
    exact h'.last

theorem valid_of_isAlnum (hne : text ≠ []) (h : ∀ c ∈ text, isAlnum c = true) : Valid text.length text where
  ne_nil := hne
  len_le := Nat.le_of_eq (len_eq_length fun c hc => isChar_of_isAlnum (h c hc))
  chars := fun c hc => isChar_of_isAlnum (h c hc)
  head := fun hhead => ne_dash_of_isAlnum (h _ (List.mem_of_head? hhead)) rfl
  last := fun hlast => ne_dash_of_isAlnum (h _ (List.mem_of_getLast? hlast)) rfl

end Valid

-- What may stand after a letter or a digit where no dash is doubled.
inductive Tail : Text → Prop where
  | nil : Tail []
  | char {c : Char} {text : Text} (hc : isAlnum c = true) (h : Tail text) : Tail (c :: text)
  | dash {c : Char} {text : Text} (hc : isAlnum c = true) (h : Tail text) : Tail ('-' :: c :: text)

section Tail

variable {text : Text}

theorem Tail.chars (h : Tail text) : ∀ c ∈ text, isChar c = true := by
  induction h with
  | nil => nofun
  | char hc _ ih => exact List.forall_mem_cons.mpr ⟨isChar_of_isAlnum hc, ih⟩
  | dash hc _ ih => exact List.forall_mem_cons.mpr ⟨rfl, List.forall_mem_cons.mpr ⟨isChar_of_isAlnum hc, ih⟩⟩

theorem Tail.last (h : Tail text) : text.getLast? ≠ some '-' := by
  induction h with
  | nil => nofun
  | @char c text hc _ ih =>
    cases text with
    | nil => simpa using ne_dash_of_isAlnum hc
    | cons d text => rwa [List.getLast?_cons_cons]
  | @dash c text hc _ ih =>
    rw [List.getLast?_cons_cons]
    cases text with
    | nil => simpa using ne_dash_of_isAlnum hc
    | cons d text => rwa [List.getLast?_cons_cons]

theorem Tail.not_doubled (h : Tail text) : ¬['-', '-'] <:+: text := by
  induction h with
  | nil => simp
  | char hc _ ih =>
    rw [List.infix_cons_iff]
    rintro (hpre | hin)
    . exact ne_dash_of_isAlnum hc (List.cons_prefix_cons.mp hpre).1.symm
    . exact ih hin
  | dash hc _ ih =>
    rw [List.infix_cons_iff, List.infix_cons_iff]
    rintro (hpre | hpre | hin)
    . have hdash := (List.cons_prefix_cons.mp (List.cons_prefix_cons.mp hpre).2).1
      exact ne_dash_of_isAlnum hc hdash.symm
    . exact ne_dash_of_isAlnum hc (List.cons_prefix_cons.mp hpre).1.symm
    . exact ih hin

theorem Tail.valid_cons {c : Char} (h : Tail text) (hc : isAlnum c = true) : Valid (text.length + 1) (c :: text) where
  ne_nil := List.cons_ne_nil c text
  len_le := Nat.le_of_eq (len_eq_length (Tail.char hc h).chars)
  chars := (Tail.char hc h).chars
  head := by simpa using ne_dash_of_isAlnum hc
  last := (Tail.char hc h).last

-- Cut short, with the dash dropped that the cut leaves at the end.
theorem Tail.cutLast_take (h : Tail text) (n : Nat) : Tail (Text.cutLast '-' (text.take n)) := by
  induction h generalizing n with
  | nil =>
    rw [List.take_nil]
    exact .nil
  | char hc _ ih =>
    cases n with
    | zero => exact .nil
    | succ n =>
      rw [List.take_succ_cons, Text.cutLast_cons (.inl (ne_dash_of_isAlnum hc))]
      exact .char hc (ih n)
  | dash hc _ ih =>
    match n with
    | 0 => exact .nil
    | 1 => exact .nil
    | n + 2 =>
      rw [List.take_succ_cons, List.take_succ_cons, Text.cutLast_cons (.inr (List.cons_ne_nil _ _)),
        Text.cutLast_cons (.inl (ne_dash_of_isAlnum hc))]
      exact .dash hc (ih n)

end Tail

end Label
