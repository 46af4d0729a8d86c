import Mathlib.Data.List.DropRight
import Mathlib.Tactic.Common
import Mathlib.Algebra.Ring.Nat

/-!
This module contains the decimal text of a 64 bit number: the text `to_string` writes, and `parse`
behind `trim`, which accepts a leading plus sign and leading zeros and rejects what does not fit. `words`
is the text cut at its white space, and `parseI32` reads one of them as an `i32`.
-/

namespace Decimal

-- The characters of the Unicode property White_Space.
def isWhitespace (c : Char) : Bool :=
  (9 ≤ c.toNat && c.toNat ≤ 13) || c.toNat = 0x20 || c.toNat = 0x85 || c.toNat = 0xA0
    || c.toNat = 0x1680 || (0x2000 ≤ c.toNat && c.toNat ≤ 0x200A) || c.toNat = 0x2028
    || c.toNat = 0x2029 || c.toNat = 0x202F || c.toNat = 0x205F || c.toNat = 0x3000

def trim (cs : List Char) : List Char := (cs.dropWhile isWhitespace).rdropWhile isWhitespace

def digitsOf (cs : List Char) : List Char :=
  match cs with
  | '+' :: rest => rest
  | cs => cs

def parse (cs : List Char) : Option UInt64 :=
  let digits := digitsOf cs
  if digits ≠ [] && digits.all Char.isDigit && Nat.ofDigitChars 10 digits 0 < 2 ^ 64 then
    some (UInt64.ofNat (Nat.ofDigitChars 10 digits 0))
  else
    none

def parseU64 (s : String) : Option UInt64 := parse (trim s.toList)

def words (cs : List Char) : List (List Char) := (cs.splitOnP isWhitespace).filter (· ≠ [])

def parseDigits (cs : List Char) : Option Nat :=
  if cs ≠ [] && cs.all Char.isDigit then some (Nat.ofDigitChars 10 cs 0) else none

def parseI32 (cs : List Char) : Option Int :=
  match cs with
  | '-' :: rest => (parseDigits rest).bind fun m => if m ≤ 2 ^ 31 then some (-m) else none
  | cs => (parseDigits (digitsOf cs)).bind fun m => if m < 2 ^ 31 then some m else none

def toText (n : UInt64) : String := n.toNat.repr

theorem isWhitespace_of_isDigit {c : Char} (h : c.isDigit = true) : isWhitespace c = false := by
  simp only [Char.isDigit, Bool.and_eq_true, decide_eq_true_eq, UInt32.le_iff_toNat_le] at h
  have h₁ : 48 ≤ c.toNat := h.1
  have h₂ : c.toNat ≤ 57 := h.2
  simp only [isWhitespace, Bool.or_eq_false_iff, Bool.and_eq_false_iff, decide_eq_false_iff_not]
  omega

theorem trim_of_isWhitespace_eq_false {cs : List Char} (h : ∀ c ∈ cs, isWhitespace c = false)
    : trim cs = cs := by
  have hfront : cs.dropWhile isWhitespace = cs := by
    apply List.dropWhile_eq_self_iff.mpr
    intro hlen
    rw [h _ (List.getElem_mem hlen)]
    simp
  unfold trim
  rw [hfront, List.rdropWhile_eq_self_iff]
  intro hne
  rw [h _ (List.getLast_mem hne)]
  simp

theorem trim_eq_self {cs : List Char} (h : ∀ c ∈ cs, c.isDigit = true) : trim cs = cs :=
  trim_of_isWhitespace_eq_false fun c hc => isWhitespace_of_isDigit (h c hc)

theorem digitsOf_eq_self {cs : List Char} (h : ∀ c ∈ cs, c.isDigit = true) : digitsOf cs = cs := by
  unfold digitsOf
  split
  . have := h '+' List.mem_cons_self
    cases this
  . rfl

theorem isDigit_of_mem_toDigits {n : Nat} {c : Char} (hc : c ∈ Nat.toDigits 10 n) : c.isDigit = true := by
  apply Nat.isDigit_of_mem_toDigits _ _ hc <;> simp

theorem parse_toDigits (n : UInt64) : parse (Nat.toDigits 10 n.toNat) = some n := by
  have hall : (Nat.toDigits 10 n.toNat).all Char.isDigit = true :=
    List.all_eq_true.mpr fun c hc => isDigit_of_mem_toDigits hc
  unfold parse
  rw [digitsOf_eq_self fun c hc => isDigit_of_mem_toDigits hc]
  simp only [Nat.ofDigitChars_ten_toDigits, hall, n.toNat_lt]
  simp [Nat.toDigits_ne_nil]

@[simp]
theorem parseU64_toText (n : UInt64) : parseU64 (toText n) = some n := by
  unfold parseU64 toText
  rw [Nat.toList_repr, trim_eq_self fun c hc => isDigit_of_mem_toDigits hc, parse_toDigits]

section Digits

variable {cs : List Char}

theorem ofDigitChars_lt (h : ∀ c ∈ cs, c.isDigit = true) : Nat.ofDigitChars 10 cs 0 < 10 ^ cs.length := by
  induction cs with
  | nil => simp
  | cons c cs ih =>
    have hrest := ih fun d hd => h d (List.mem_cons_of_mem _ hd)
    have hc := h c List.mem_cons_self
    simp only [Char.isDigit, Bool.and_eq_true, decide_eq_true_eq, UInt32.le_iff_toNat_le] at hc
    have hdigit : c.toNat - '0'.toNat ≤ 9 := by
      have h₂ : c.toNat ≤ 57 := hc.2
      have hzero : '0'.toNat = 48 := rfl
      omega
    have hpos := Nat.mul_le_mul_left (10 ^ cs.length) hdigit
    rw [Nat.ofDigitChars_cons, Nat.ofDigitChars_eq_ofDigitChars_zero, Nat.mul_zero, Nat.zero_add, List.length_cons, Nat.pow_succ]
    omega

-- No number but zero has a text that begins with zeros.
theorem eq_zero_of_prefix {n : Nat} (h : cs <+: Nat.toDigits 10 n) (hne : cs ≠ []) (hzero : Nat.ofDigitChars 10 cs 0 = 0)
    : n = 0 := by
  rcases h with ⟨rest, hrest⟩
  have hvalue : Nat.ofDigitChars 10 rest 0 = n := by
    have hall := congrArg (Nat.ofDigitChars 10 · 0) hrest
    simp only [Nat.ofDigitChars_append, hzero, Nat.ofDigitChars_ten_toDigits] at hall
    exact hall
  have hlt : n < 10 ^ rest.length := by
    have hbound : Nat.ofDigitChars 10 rest 0 < 10 ^ rest.length := by
      apply ofDigitChars_lt
      intro c hc
      exact isDigit_of_mem_toDigits (n := n) (hrest ▸ List.mem_append_right cs hc)
    rwa [hvalue] at hbound
  cases rest with
  | nil => simpa using hlt
  | cons c rest =>
    have hlen := (Nat.length_toDigits_le_iff (by decide) (Nat.succ_pos rest.length)).mpr hlt
    have hpos := List.length_pos_of_ne_nil hne
    rw [← hrest] at hlen
    simp only [List.length_append, List.length_cons] at hlen
    omega

theorem parseDigits_eq (h : ∀ c ∈ cs, c.isDigit = true) (hne : cs ≠ []) : parseDigits cs = some (Nat.ofDigitChars 10 cs 0) := by
  have hall : cs.all Char.isDigit = true := List.all_eq_true.mpr h
  rw [parseDigits, hall, Bool.and_true, if_pos (by simp [hne])]

theorem parseI32_eq (h : ∀ c ∈ cs, c.isDigit = true) (hne : cs ≠ []) (hlt : Nat.ofDigitChars 10 cs 0 < 2 ^ 31)
    : parseI32 cs = some (Nat.ofDigitChars 10 cs 0 : Int) := by
  unfold parseI32
  split
  . have := h '-' List.mem_cons_self
    cases this
  . rw [digitsOf_eq_self h, parseDigits_eq h hne, Option.bind_some, if_pos hlt]

theorem parseI32_nil : parseI32 [] = none := rfl

theorem parseI32_toDigits {n : Nat} (h : n < 2 ^ 31) : parseI32 (Nat.toDigits 10 n) = some (n : Int) := by
  rw [parseI32_eq (fun c hc => isDigit_of_mem_toDigits hc) Nat.toDigits_ne_nil (by rwa [Nat.ofDigitChars_ten_toDigits]),
    Nat.ofDigitChars_ten_toDigits]

-- Any text but the whole one reads as another number than zero, or as none.
theorem parseI32_prefix {n : Nat} (h : cs <+: Nat.toDigits 10 n) (hlt : n < 2 ^ 31) (hzero : parseI32 cs = some 0) : n = 0 := by
  by_cases hne : cs = []
  . rw [hne, parseI32_nil] at hzero
    cases hzero
  . have hdigits : ∀ c ∈ cs, c.isDigit = true := fun c hc => isDigit_of_mem_toDigits (h.subset hc)
    rcases h with ⟨rest, hrest⟩
    have hle : Nat.ofDigitChars 10 cs 0 ≤ n := by
      have hall := congrArg (Nat.ofDigitChars 10 · 0) hrest
      simp only [Nat.ofDigitChars_append, Nat.ofDigitChars_ten_toDigits] at hall
      rw [Nat.ofDigitChars_eq_ofDigitChars_zero] at hall
      have hpow := Nat.le_mul_of_pos_left (Nat.ofDigitChars 10 cs 0) (Nat.pow_pos (n := rest.length) (by decide : 0 < 10))
      omega
    rw [parseI32_eq hdigits hne (by omega), Option.some.injEq, Int.natCast_eq_zero] at hzero
    exact eq_zero_of_prefix ⟨rest, hrest⟩ hne hzero

end Digits

theorem words_of_isWhitespace_eq_false {cs : List Char} (h : ∀ c ∈ cs, isWhitespace c = false)
    : words cs = if cs = [] then [] else [cs] := by
  rw [words, List.splitOnP_eq_singleton h, List.filter_singleton]
  split
  next hnil => simp [hnil]
  next hne => simp [hne]

theorem words_append_cons {cs : List Char} {c : Char} (h : ∀ c ∈ cs, isWhitespace c = false) (hc : isWhitespace c = true)
    (rest : List Char)
    : words (cs ++ c :: rest) = (if cs = [] then [] else [cs]) ++ words rest := by
  rw [words, List.splitOnP_append_cons_of_forall_mem h _ hc, List.filter_cons]
  split
  next hne => simp_all [words]
  next hnil => simp_all [words]

end Decimal
