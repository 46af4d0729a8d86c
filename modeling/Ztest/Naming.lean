import Mathlib.Data.UInt
import Ztest.Lib.Label

/-!
This module contains the names of `naming.rs`: slugs, and the namespace of a test with its suffix. A slug is a
label at every cap: without a cap the loop writes the words of its source, in lower case, with one dash between
two of them, and the cap cuts that short.
-/

namespace Naming

def dnsLabelMax : Nat := 63

-- The loop of `slug` on what is left of the source, with what it has pushed.
def slugLoop (max : Nat) : Text → Text → Bool → Text
  | [], out, _ => out
  | c :: cs, out, pendingDash =>
    if !c.isAlphanum then
      slugLoop max cs out true
    else
      let needed := (if pendingDash = true ∧ out ≠ [] then 1 else 0) + 1
      if out.len + needed > max then
        out
      else
        slugLoop max cs ((if needed = 2 then out ++ ['-'] else out) ++ [c.toLower]) false

def slug (s : Text) (max : Nat) : Text :=
  let out := slugLoop max s [] false
  if out = [] then ['x'] else out

-- Of the random number `v`.
def testSuffix (v : UInt32) : Text := (Nat.toDigits 16 v.toNat).leftpad 8 '0'

def namespaceFor (package test suffix : Text) : Text :=
  ['z', 't', 'e', 's', 't', '-'] ++ slug package 16 ++ '-' :: (slug test 24 ++ '-' :: suffix)

open Label (Tail Valid isAlnum isAlnum_toLower isAlphanum_of_isAlnum toLower_of_isAlnum)

-- What the loop pushes without a cap, with `begun` for an `out` that is not empty.
def collapsed (begun : Bool) : Bool → Text → Text
  | _, [] => []
  | pendingDash, c :: cs =>
    if !c.isAlphanum then
      collapsed begun true cs
    else if pendingDash && begun then
      '-' :: c.toLower :: collapsed true false cs
    else
      c.toLower :: collapsed true false cs

section Collapsed

variable {begun pendingDash : Bool} {c : Char} {cs text : Text}

theorem collapsed_separator (h : c.isAlphanum = false)
    : collapsed begun pendingDash (c :: cs) = collapsed begun true cs := by
  rw [collapsed, h]
  rfl

theorem collapsed_dash (h : c.isAlphanum = true)
    : collapsed true true (c :: cs) = '-' :: c.toLower :: collapsed true false cs := by
  rw [collapsed, h]
  rfl

theorem collapsed_char (h : c.isAlphanum = true) (hdash : (pendingDash && begun) = false)
    : collapsed begun pendingDash (c :: cs) = c.toLower :: collapsed true false cs := by
  rw [collapsed, h, hdash]
  rfl

theorem tail_collapsed (pendingDash : Bool) (s : Text) : Tail (collapsed true pendingDash s) := by
  induction s generalizing pendingDash with
  | nil => exact .nil
  | cons c cs ih =>
    cases hc : c.isAlphanum with
    | false =>
      rw [collapsed_separator hc]
      exact ih true
    | true =>
      cases pendingDash with
      | false =>
        rw [collapsed_char hc rfl]
        exact .char (isAlnum_toLower hc) (ih false)
      | true =>
        rw [collapsed_dash hc]
        exact .dash (isAlnum_toLower hc) (ih false)

theorem collapsed_eq_nil_or (pendingDash : Bool) (s : Text)
    : collapsed false pendingDash s = [] ∨
        ∃ c text, collapsed false pendingDash s = c :: text ∧ isAlnum c = true ∧ Tail text := by
  induction s generalizing pendingDash with
  | nil => exact .inl rfl
  | cons c cs ih =>
    cases hc : c.isAlphanum with
    | false =>
      rw [collapsed_separator hc]
      exact ih true
    | true =>
      rw [collapsed_char hc (Bool.and_false pendingDash)]
      exact .inr ⟨_, _, rfl, isAlnum_toLower hc, tail_collapsed false cs⟩

theorem collapsed_of_tail (h : Tail text) : collapsed true false text = text := by
  induction h with
  | nil => rfl
  | char hc _ ih => rw [collapsed_char (isAlphanum_of_isAlnum hc) rfl, toLower_of_isAlnum hc, ih]
  | dash hc _ ih =>
    rw [collapsed_separator (by decide), collapsed_dash (isAlphanum_of_isAlnum hc), toLower_of_isAlnum hc, ih]

end Collapsed

section Slug

variable {max : Nat} {s out text : Text} {pendingDash : Bool} {c : Char}

theorem slugLoop_eq (hout : ∀ c ∈ out, Label.isChar c = true)
    : slugLoop max s out pendingDash
        = out ++ Text.cutLast '-' ((collapsed (decide (out ≠ [])) pendingDash s).take (max - out.length)) := by
  induction s generalizing out pendingDash with
  | nil => simp [slugLoop, collapsed]
  | cons c cs ih =>
    rw [slugLoop, Label.len_eq_length hout]
    cases hc : c.isAlphanum with
    | false =>
      rw [collapsed_separator hc]
      exact ih hout
    | true =>
      have hlower := isAlnum_toLower hc
      have hchar := Label.isChar_of_isAlnum hlower
      have hne := Label.ne_dash_of_isAlnum hlower
      by_cases hdash : pendingDash = true ∧ out ≠ []
      . have hmore : ∀ c' ∈ out ++ ['-'] ++ [c.toLower], Label.isChar c' = true := by
          simp only [List.forall_mem_append, List.forall_mem_singleton]
          exact ⟨⟨hout, rfl⟩, hchar⟩
        rw [hdash.1, decide_eq_true hdash.2, collapsed_dash hc]
        simp only [Bool.not_true, Bool.false_eq_true, if_false, hdash.2, true_and, ne_eq, not_false_eq_true, if_true]
        split
        next hfull =>
          have hroom : max - out.length = 0 ∨ max - out.length = 1 := by omega
          rcases hroom with hroom | hroom
          . rw [hroom, List.take_zero, Text.cutLast_nil, List.append_nil]
          . rw [hroom, List.take_succ_cons, List.take_zero, Text.cutLast_singleton_self, List.append_nil]
        next hfits =>
          have hroom : max - out.length = max - (out ++ ['-'] ++ [c.toLower]).length + 2 := by
            simp only [List.length_append, List.length_cons, List.length_nil]
            omega
          rw [ih hmore, decide_eq_true (by simp), hroom, List.take_succ_cons, List.take_succ_cons,
            Text.cutLast_cons (.inr (List.cons_ne_nil _ _)), Text.cutLast_cons (.inl hne)]
          simp only [List.append_assoc, List.cons_append, List.nil_append]
      . have hmore : ∀ c' ∈ out ++ [c.toLower], Label.isChar c' = true := by
          simp only [List.forall_mem_append, List.forall_mem_singleton]
          exact ⟨hout, hchar⟩
        have hnone : (pendingDash && decide (out ≠ [])) = false := by
          rw [Bool.and_eq_false_iff, decide_eq_false_iff_not]
          by_cases hpending : pendingDash = true
          . exact .inr fun hbegun => hdash ⟨hpending, hbegun⟩
          . exact .inl (Bool.eq_false_iff.mpr hpending)
        rw [collapsed_char hc hnone]
        simp only [Bool.not_true, Bool.false_eq_true, if_false, hdash]
        split
        next hfull =>
          have hroom : max - out.length = 0 := by omega
          rw [hroom, List.take_zero, Text.cutLast_nil, List.append_nil]
        next hfits =>
          have hroom : max - out.length = max - (out ++ [c.toLower]).length + 1 := by
            simp only [List.length_append, List.length_cons, List.length_nil]
            omega
          rw [if_neg (by omega), ih hmore, decide_eq_true (by simp), hroom, List.take_succ_cons, Text.cutLast_cons (.inl hne)]
          simp only [List.append_assoc, List.cons_append, List.nil_append]

theorem slug_eq (s : Text) (max : Nat)
    : slug s max =
      if Text.cutLast '-' ((collapsed false false s).take max) = [] then ['x']
      else Text.cutLast '-' ((collapsed false false s).take max) := by
  have hloop : slugLoop max s [] false = Text.cutLast '-' ((collapsed false false s).take max) := slugLoop_eq nofun
  rw [slug, hloop]

theorem slug_of_nil (h : collapsed false false s = []) (max : Nat) : slug s max = ['x'] := by
  rw [slug_eq, h, List.take_nil]
  rfl

theorem slug_of_cons (h : collapsed false false s = c :: text) (hc : isAlnum c = true) (hmax : 1 ≤ max)
    : slug s max = c :: Text.cutLast '-' (text.take (max - 1)) := by
  have hroom : max = max - 1 + 1 := by omega
  rw [slug_eq, h, hroom, List.take_succ_cons, Text.cutLast_cons (.inl (Label.ne_dash_of_isAlnum hc)),
    if_neg (List.cons_ne_nil _ _), ← hroom]

theorem slug_eq_cons (s : Text) (hmax : 1 ≤ max)
    : ∃ c text, slug s max = c :: text ∧ isAlnum c = true ∧ Tail text ∧ text.length < max := by
  rcases collapsed_eq_nil_or false s with hnil | ⟨c, text, hcons, hc, htail⟩
  . exact ⟨'x', [], slug_of_nil hnil max, by decide, .nil, hmax⟩
  . refine ⟨c, _, slug_of_cons hcons hc hmax, hc, htail.cutLast_take _, ?_⟩
    have hle := (Text.cutLast_front '-' (text.take (max - 1))).length_le
    rw [List.length_take] at hle
    omega

theorem slug_cons (hc : isAlnum c = true) (h : Tail text) (hlen : text.length < max) : slug (c :: text) max = c :: text := by
  have hcollapsed : collapsed false false (c :: text) = c :: text := by
    rw [collapsed_char (isAlphanum_of_isAlnum hc) rfl, toLower_of_isAlnum hc, collapsed_of_tail h]
  rw [slug_of_cons hcollapsed hc (by omega), List.take_of_length_le (by omega), Text.cutLast, if_neg h.last]

theorem valid_slug (s : Text) (hmax : 1 ≤ max) : Valid max (slug s max) := by
  rcases slug_eq_cons s hmax with ⟨c, text, heq, hc, htail, hlen⟩
  rw [heq]
  exact (htail.valid_cons hc).mono hlen

theorem slug_slug (s : Text) (hmax : 1 ≤ max) : slug (slug s max) max = slug s max := by
  rcases slug_eq_cons s hmax with ⟨c, text, heq, hc, htail, hlen⟩
  rw [heq]
  exact slug_cons hc htail hlen

theorem not_doubled_slug (s : Text) (hmax : 1 ≤ max) : ¬['-', '-'] <:+: slug s max := by
  rcases slug_eq_cons s hmax with ⟨c, text, heq, hc, htail, _⟩
  rw [heq]
  exact (Tail.char hc htail).not_doubled

theorem slug_mono (s : Text) {m n : Nat} (hm : 1 ≤ m) (hmn : m ≤ n) : slug s m <+: slug s n := by
  rcases collapsed_eq_nil_or false s with hnil | ⟨c, text, hcons, hc, _⟩
  . rw [slug_of_nil hnil, slug_of_nil hnil]
  . rw [slug_of_cons hcons hc hm, slug_of_cons hcons hc (Nat.le_trans hm hmn), List.cons_prefix_cons]
    refine ⟨rfl, Text.cutLast_mono (List.take_prefix_take_left ?_)⟩
    omega

end Slug

section Namespace

def isHexdigit (c : Char) : Bool := c.isDigit || ('a' ≤ c && c ≤ 'f')

/--
The suffix of a namespace: eight hexadecimal digits in lower case.
-/
structure IsSuffix (suffix : Text) : Prop where
  length : suffix.length = 8
  digits : ∀ c ∈ suffix, isHexdigit c = true

theorem isAlnum_of_isHexdigit {c : Char} (h : isHexdigit c = true) : isAlnum c = true := by
  simp only [isHexdigit, Bool.or_eq_true, Bool.and_eq_true, decide_eq_true_eq] at h
  rw [Label.isAlnum_iff_or, Label.isLower_iff]
  rcases h with h | ⟨ha, hf⟩
  . exact .inr h
  . exact .inl ⟨ha, UInt32.le_trans hf (by decide)⟩

theorem isHexdigit_of_mem_toDigits {c : Char} (n : Nat) (h : c ∈ Nat.toDigits 16 n) : isHexdigit c = true := by
  induction n using Nat.strongRecOn with
  | ind n ih =>
    have hdigit : ∀ d < 16, isHexdigit (Nat.digitChar d) = true := by decide
    rw [Nat.toDigits_eq_if (by decide)] at h
    split at h
    next hlt =>
      rw [List.mem_singleton.mp h]
      exact hdigit n hlt
    next hge =>
      rcases List.mem_append.mp h with h | h
      . exact ih (n / 16) (by omega) h
      . rw [List.mem_singleton.mp h]
        exact hdigit _ (Nat.mod_lt n (by decide))

theorem isSuffix_testSuffix (v : UInt32) : IsSuffix (testSuffix v) := by
  have hlen : (Nat.toDigits 16 v.toNat).length ≤ 8 :=
    (Nat.length_toDigits_le_iff (by decide) (by decide)).mpr v.toNat_lt
  constructor
  . rw [testSuffix, List.length_leftpad]
    omega
  . intro c hc
    rw [testSuffix, List.leftpad, List.mem_append] at hc
    rcases hc with hc | hc
    . rw [(List.mem_replicate.mp hc).2]
      decide
    . exact isHexdigit_of_mem_toDigits _ hc

theorem valid_namespaceFor (package test : Text) {suffix : Text} (h : IsSuffix suffix)
    : Valid dnsLabelMax (namespaceFor package test suffix) := by
  have hsuffix : Valid 8 suffix := by
    have hne : suffix ≠ [] := List.ne_nil_of_length_pos (by rw [h.length]; decide)
    rw [← h.length]
    exact Label.valid_of_isAlnum hne fun c hc => isAlnum_of_isHexdigit (h.digits c hc)
  have hztest : Valid ['z', 't', 'e', 's', 't'].length ['z', 't', 'e', 's', 't'] :=
    Label.valid_of_isAlnum (by simp) (List.all_eq_true.mp rfl)
  have hall := hztest.append_dash
    ((@valid_slug 16 package (by decide)).append_dash ((@valid_slug 24 test (by decide)).append_dash hsuffix))
  have heq : namespaceFor package test suffix
      = ['z', 't', 'e', 's', 't'] ++ '-' :: (slug package 16 ++ '-' :: (slug test 24 ++ '-' :: suffix)) := by
    simp [namespaceFor]
  rw [heq]
  exact hall.mono (by decide)

end Namespace

theorem slug_stable
    : (∀ (s : Text) (max : Nat), 1 ≤ max →
        Valid max (slug s max) ∧ ¬['-', '-'] <:+: slug s max ∧ slug (slug s max) max = slug s max) ∧
      (∀ (s : Text) (m n : Nat), 1 ≤ m → m ≤ n → slug s m <+: slug s n) ∧
      ∀ package test suffix : Text, IsSuffix suffix → Valid dnsLabelMax (namespaceFor package test suffix) := by
  refine ⟨?_, ?_, ?_⟩
  . intro s max hmax
    exact ⟨valid_slug s hmax, not_doubled_slug s hmax, slug_slug s hmax⟩
  . intro s m n hm hmn
    exact slug_mono s hm hmn
  . intro package test suffix h
    exact valid_namespaceFor package test h

def fooBar : Text := [':', ':', 'F', 'o', 'o', '_', '_', 'B', 'a', 'r', ':', ':']

-- At four bytes the cut would leave the dash.
theorem slug_stable_fooBar
    : (Valid 4 (slug fooBar 4) ∧ ¬['-', '-'] <:+: slug fooBar 4 ∧ slug (slug fooBar 4) 4 = slug fooBar 4) ∧
        slug fooBar 4 <+: slug fooBar 24 ∧
        Valid dnsLabelMax (namespaceFor fooBar fooBar (testSuffix 988912683)) :=
  ⟨slug_stable.1 fooBar 4 (by decide), slug_stable.2.1 fooBar 4 24 (by decide) (by decide),
    slug_stable.2.2 fooBar fooBar _ (isSuffix_testSuffix _)⟩

example : slug fooBar 4 = ['f', 'o', 'o'] ∧ slug fooBar 24 = ['f', 'o', 'o', '-', 'b', 'a', 'r'] := by decide

end Naming
