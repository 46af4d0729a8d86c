import Mathlib.Data.List.Forall2
import Ztest.Lib.Lines

/-!
This module contains texts as UTF-8: what a text is encoded as, and which bytes are an encoding. `head` says
what any bytes begin with: a well-formed sequence, an ill-formed one up to the byte that breaks it, or one that
is too short. `fromUtf8` and `lossy` are the two decoders of a whole, `stream` is the one that goes on.
-/

namespace Utf8

def encode (text : Text) : List UInt8 := text.flatMap String.utf8EncodeChar

-- `str::from_utf8`, when all of the bytes are asked for.
def decode (bytes : List UInt8) : Option Text := (String.fromUTF8? bytes.toByteArray).map String.toList

variable {text text' : Text} {bytes : List UInt8}

theorem encode_cons (c : Char) (text : Text) : encode (c :: text) = String.utf8EncodeChar c ++ encode text := List.flatMap_cons

theorem encode_append (text text' : Text) : encode (text ++ text') = encode text ++ encode text' := List.flatMap_append

theorem eq_of_encodeChar_append_eq {c d : Char} {rest rest' : List UInt8}
    (h : String.utf8EncodeChar c ++ rest = String.utf8EncodeChar d ++ rest')
    : c = d := by
  have hdecode : ∀ {c : Char} {rest : List UInt8},
      ByteArray.utf8DecodeChar? (String.utf8EncodeChar c ++ rest).toByteArray 0 = some c := by
    intro c rest
    rw [List.toByteArray_append]
    exact ByteArray.utf8DecodeChar?_utf8EncodeChar_append
  have hc := @hdecode c rest
  rw [h, hdecode, Option.some.injEq] at hc
  exact hc.symm

-- No text's encoding ends within a character of another.
theorem prefix_of_encode_prefix (h : encode text <+: encode text') : text <+: text' := by
  induction text generalizing text' with
  | nil => exact List.nil_prefix
  | cons c text ih =>
    rcases h with ⟨rest, hrest⟩
    rw [encode_cons, List.append_assoc] at hrest
    cases text' with
    | nil =>
      have hlen := congrArg List.length hrest
      have hpos := c.utf8Size_pos
      simp only [List.length_append, String.length_utf8EncodeChar, encode, List.flatMap_nil, List.length_nil] at hlen
      omega
    | cons d text' =>
      rw [encode_cons] at hrest
      cases eq_of_encodeChar_append_eq hrest
      rw [List.append_cancel_left_eq] at hrest
      exact List.cons_prefix_cons.mpr ⟨rfl, ih ⟨rest, hrest⟩⟩

theorem toByteArray_eq (s : String) : s.toByteArray = (encode s.toList).toByteArray := by
  conv => lhs; rw [← String.ofList_toList (s := s), String.toByteArray_ofList]
  rfl

theorem decode_eq_some_iff : decode bytes = some text ↔ encode text = bytes := by
  unfold decode String.fromUTF8?
  constructor
  . intro h
    split at h
    next hvalid =>
      rw [Option.map_some, Option.some.injEq] at h
      have hbytes := toByteArray_eq (String.fromUTF8 bytes.toByteArray hvalid)
      rw [h] at hbytes
      exact (List.toByteArray_inj.mp hbytes).symm
    next => cases h
  . rintro rfl
    have hvalid : (encode text).toByteArray.IsValidUTF8 := ⟨text, rfl⟩
    have hstring : String.fromUTF8 (encode text).toByteArray hvalid = String.ofList text := by
      rw [← String.toByteArray_inj, String.toByteArray_ofList]
      rfl
    rw [dif_pos hvalid, Option.map_some, hstring, String.toList_ofList]

section Head

-- The bounds of a byte that continues a sequence.
def tail : Nat × Nat := (0x80, 0xBF)

-- What follows the first byte of a sequence, in the table of the well-formed ones.
def bounds (first : Nat) : Option (List (Nat × Nat)) :=
  if first ≤ 0x7F then some []
  else if first < 0xC2 then none
  else if first ≤ 0xDF then some [tail]
  else if first = 0xE0 then some [(0xA0, 0xBF), tail]
  else if first ≤ 0xEC then some [tail, tail]
  else if first = 0xED then some [(0x80, 0x9F), tail]
  else if first ≤ 0xEF then some [tail, tail]
  else if first = 0xF0 then some [(0x90, 0xBF), tail, tail]
  else if first ≤ 0xF3 then some [tail, tail, tail]
  else if first = 0xF4 then some [(0x80, 0x8F), tail, tail]
  else none

inductive Head where
  | sequence (len : Nat)
  | bad (len : Nat)
  | short
  deriving DecidableEq

-- Behind the first `n` bytes of a sequence.
def scan (n : Nat) : List (Nat × Nat) → List UInt8 → Head
  | [], _ => .sequence n
  | _ :: _, [] => .short
  | (lo, hi) :: bounds, b :: rest => if lo ≤ b.toNat ∧ b.toNat ≤ hi then scan (n + 1) bounds rest else .bad n

def head : List UInt8 → Head
  | [] => .short
  | b :: rest => (bounds b.toNat).elim (.bad 1) fun bounds => scan 1 bounds rest

-- What a first byte counts from, with so many bytes behind it.
def lead (n : Nat) : Nat := if n = 0 then 0 else if n = 1 then 0xC0 else if n = 2 then 0xE0 else 0xF0

-- The number that a sequence encodes.
def scalar : List UInt8 → Nat
  | [] => 0
  | a :: rest => rest.foldl (fun v b => v * 64 + (b.toNat - 0x80)) (a.toNat - lead rest.length)

def charOf (bytes : List UInt8) : Char := Char.ofNat (scalar bytes)

def Within (b : UInt8) (bound : Nat × Nat) : Prop := bound.1 ≤ b.toNat ∧ b.toNat ≤ bound.2

variable {n m : Nat} {bytes rest : List UInt8}

theorem scan_append {bounds : List (Nat × Nat)} (h : scan n bounds bytes ≠ .short) (rest : List UInt8)
    : scan n bounds (bytes ++ rest) = scan n bounds bytes := by
  induction bounds generalizing n bytes with
  | nil => rfl
  | cons bound bounds ih =>
    rcases bound with ⟨lo, hi⟩
    cases bytes with
    | nil => exact absurd rfl h
    | cons b bytes =>
      rw [scan] at h
      rw [List.cons_append, scan, scan]
      by_cases hb : lo ≤ b.toNat ∧ b.toNat ≤ hi
      . rw [if_pos hb] at h
        rw [if_pos hb, if_pos hb, ih h]
      . rw [if_neg hb, if_neg hb]

/--
More bytes change nothing unless the sequence is too short.
-/
theorem head_append (h : head bytes ≠ .short) (rest : List UInt8) : head (bytes ++ rest) = head bytes := by
  cases bytes with
  | nil => exact absurd rfl h
  | cons b bytes =>
    rw [head] at h
    rw [List.cons_append, head, head]
    cases hbounds : bounds b.toNat with
    | none => rfl
    | some bounds =>
      rw [hbounds, Option.elim_some] at h
      rw [Option.elim_some, Option.elim_some, scan_append h]

theorem scan_bad {bounds : List (Nat × Nat)} (h : scan n bounds bytes = .bad m)
    : n ≤ m ∧ m < n + bounds.length ∧ m < n + bytes.length := by
  induction bounds generalizing n bytes with
  | nil => cases h
  | cons bound bounds ih =>
    rcases bound with ⟨lo, hi⟩
    cases bytes with
    | nil => cases h
    | cons b bytes =>
      rw [scan] at h
      rw [List.length_cons, List.length_cons]
      by_cases hb : lo ≤ b.toNat ∧ b.toNat ≤ hi
      . rw [if_pos hb] at h
        have hle := ih h
        omega
      . rw [if_neg hb] at h
        cases h
        omega

theorem scan_sequence {bounds : List (Nat × Nat)} (h : scan n bounds bytes = .sequence m)
    : m = n + bounds.length ∧ List.Forall₂ Within (bytes.take bounds.length) bounds := by
  induction bounds generalizing n bytes with
  | nil =>
    cases h
    exact ⟨rfl, .nil⟩
  | cons bound bounds ih =>
    rcases bound with ⟨lo, hi⟩
    cases bytes with
    | nil => cases h
    | cons b bytes =>
      rw [scan] at h
      by_cases hb : lo ≤ b.toNat ∧ b.toNat ≤ hi
      . rw [if_pos hb] at h
        rcases ih h with ⟨hlen, hbounds⟩
        rw [List.length_cons, List.take_succ_cons]
        exact ⟨by omega, .cons hb hbounds⟩
      . rw [if_neg hb] at h
        cases h

-- What is too short stops within what it turns out to be.
theorem scan_short {bounds : List (Nat × Nat)} (h : scan n bounds bytes = .short)
    : bytes.length < bounds.length ∧ List.Forall₂ Within bytes (bounds.take bytes.length) := by
  induction bounds generalizing n bytes with
  | nil => cases h
  | cons bound bounds ih =>
    rcases bound with ⟨lo, hi⟩
    cases bytes with
    | nil => exact ⟨Nat.succ_pos _, .nil⟩
    | cons b bytes =>
      rw [scan] at h
      by_cases hb : lo ≤ b.toNat ∧ b.toNat ≤ hi
      . rw [if_pos hb] at h
        rcases ih h with ⟨hlen, hbounds⟩
        rw [List.length_cons, List.length_cons, List.take_succ_cons]
        exact ⟨by omega, .cons hb hbounds⟩
      . rw [if_neg hb] at h
        cases h

theorem toNat_charOf {bytes : List UInt8} (h : (scalar bytes).isValidChar) : (charOf bytes).val.toNat = scalar bytes := by
  rw [charOf, Char.ofNat, dif_pos h]
  rfl

theorem encodeChar_one {a : UInt8} (ha : a.toNat ≤ 0x7F) : String.utf8EncodeChar (charOf [a]) = [a] := by
  have hscalar : scalar [a] = a.toNat := rfl
  have hv := @toNat_charOf [a] (by simp only [hscalar, Nat.isValidChar]; omega)
  rw [hscalar] at hv
  simp only [String.utf8EncodeChar, hv]
  rw [if_pos ha, UInt8.ofNat_toNat]

theorem encodeChar_two {a b : UInt8} (ha : 0xC2 ≤ a.toNat ∧ a.toNat ≤ 0xDF) (hb : 0x80 ≤ b.toNat ∧ b.toNat ≤ 0xBF)
    : String.utf8EncodeChar (charOf [a, b]) = [a, b] := by
  have hscalar : scalar [a, b] = (a.toNat - 0xC0) * 64 + (b.toNat - 0x80) := rfl
  have hv := @toNat_charOf [a, b] (by simp only [hscalar, Nat.isValidChar]; omega)
  rw [hscalar] at hv
  simp only [String.utf8EncodeChar, hv]
  rw [if_neg (by omega), if_pos (by omega)]
  simp only [List.cons.injEq, ← UInt8.toNat_inj, UInt8.toNat_ofNat', and_true]
  omega

theorem encodeChar_three {a b c : UInt8} (ha : 0xE0 ≤ a.toNat ∧ a.toNat ≤ 0xEF) (hb : 0x80 ≤ b.toNat ∧ b.toNat ≤ 0xBF)
    (hc : 0x80 ≤ c.toNat ∧ c.toNat ≤ 0xBF) (hlong : a.toNat = 0xE0 → 0xA0 ≤ b.toNat) (hsurrogate : a.toNat = 0xED → b.toNat ≤ 0x9F)
    : String.utf8EncodeChar (charOf [a, b, c]) = [a, b, c] := by
  have hscalar : scalar [a, b, c] = ((a.toNat - 0xE0) * 64 + (b.toNat - 0x80)) * 64 + (c.toNat - 0x80) := rfl
  have hv := @toNat_charOf [a, b, c] (by simp only [hscalar, Nat.isValidChar]; omega)
  rw [hscalar] at hv
  simp only [String.utf8EncodeChar, hv]
  rw [if_neg (by omega), if_neg (by omega), if_pos (by omega)]
  simp only [List.cons.injEq, ← UInt8.toNat_inj, UInt8.toNat_ofNat', and_true]
  omega

theorem encodeChar_four {a b c d : UInt8} (ha : 0xF0 ≤ a.toNat ∧ a.toNat ≤ 0xF4) (hb : 0x80 ≤ b.toNat ∧ b.toNat ≤ 0xBF)
    (hc : 0x80 ≤ c.toNat ∧ c.toNat ≤ 0xBF) (hd : 0x80 ≤ d.toNat ∧ d.toNat ≤ 0xBF) (hlong : a.toNat = 0xF0 → 0x90 ≤ b.toNat)
    (hrange : a.toNat = 0xF4 → b.toNat ≤ 0x8F)
    : String.utf8EncodeChar (charOf [a, b, c, d]) = [a, b, c, d] := by
  have hscalar : scalar [a, b, c, d] =
      (((a.toNat - 0xF0) * 64 + (b.toNat - 0x80)) * 64 + (c.toNat - 0x80)) * 64 + (d.toNat - 0x80) := rfl
  have hv := @toNat_charOf [a, b, c, d] (by simp only [hscalar, Nat.isValidChar]; omega)
  rw [hscalar] at hv
  simp only [String.utf8EncodeChar, hv]
  rw [if_neg (by omega), if_neg (by omega), if_neg (by omega)]
  simp only [List.cons.injEq, ← UInt8.toNat_inj, UInt8.toNat_ofNat', and_true]
  omega

theorem scan_within {bounds : List (Nat × Nat)} (h : List.Forall₂ Within bytes bounds) (n : Nat) (rest : List UInt8)
    : scan n bounds (bytes ++ rest) = .sequence (n + bounds.length) := by
  induction h generalizing n with
  | nil => rfl
  | cons hb _ ih =>
    rw [List.cons_append, scan]
    refine (if_pos hb).trans ?_
    rw [ih, List.length_cons, Nat.add_assoc, Nat.add_comm 1]

def second (first : Nat) : Nat × Nat :=
  if first = 0xE0 then (0xA0, 0xBF)
  else if first = 0xED then (0x80, 0x9F)
  else if first = 0xF0 then (0x90, 0xBF)
  else if first = 0xF4 then (0x80, 0x8F)
  else tail

theorem bounds_eq (first : Nat)
    : bounds first =
        if first ≤ 0x7F then some []
        else if first < 0xC2 then none
        else if first ≤ 0xDF then some [tail]
        else if first ≤ 0xEF then some [second first, tail]
        else if first ≤ 0xF4 then some [second first, tail, tail]
        else none := by
  by_cases hE0 : first = 0xE0
  . rw [hE0]
    rfl
  by_cases hED : first = 0xED
  . rw [hED]
    rfl
  by_cases hF0 : first = 0xF0
  . rw [hF0]
    rfl
  by_cases hF4 : first = 0xF4
  . rw [hF4]
    rfl
  rw [bounds, second, if_neg hE0, if_neg hE0, if_neg hED, if_neg hED, if_neg hF0, if_neg hF0, if_neg hF4, if_neg hF4]
  by_cases hthree : first ≤ 0xEF
  . rw [if_pos hthree, if_pos hthree, ite_self]
  . have hfour : first ≤ 0xF3 ↔ first ≤ 0xF4 := by omega
    have hEC : ¬first ≤ 0xEC := by omega
    rw [if_neg hthree, if_neg hthree, if_neg hEC, if_congr hfour rfl rfl]

theorem bounds_cases {first : Nat} {bs : List (Nat × Nat)} (h : bounds first = some bs)
    : (first ≤ 0x7F ∧ bs = []) ∨
      ((0xC2 ≤ first ∧ first ≤ 0xDF) ∧ bs = [tail]) ∨
      ((0xE0 ≤ first ∧ first ≤ 0xEF) ∧ bs = [second first, tail]) ∨
      ((0xF0 ≤ first ∧ first ≤ 0xF4) ∧ bs = [second first, tail, tail]) := by
  rw [bounds_eq] at h
  rcases ite_eq_iff.mp h with ⟨h7F, h⟩ | ⟨h7F, h⟩
  . cases h
    exact .inl ⟨h7F, rfl⟩
  rcases ite_eq_iff.mp h with ⟨_, h⟩ | ⟨hC2, h⟩
  . cases h
  rcases ite_eq_iff.mp h with ⟨hDF, h⟩ | ⟨hDF, h⟩
  . cases h
    exact .inr (.inl ⟨by omega, rfl⟩)
  rcases ite_eq_iff.mp h with ⟨hEF, h⟩ | ⟨hEF, h⟩
  . cases h
    exact .inr (.inr (.inl ⟨by omega, rfl⟩))
  rcases ite_eq_iff.mp h with ⟨hF4, h⟩ | ⟨_, h⟩
  . cases h
    exact .inr (.inr (.inr ⟨by omega, rfl⟩))
  . cases h

theorem second_cases (first : Nat)
    : first = 0xE0 ∧ second first = (0xA0, 0xBF) ∨ first = 0xED ∧ second first = (0x80, 0x9F) ∨
      first = 0xF0 ∧ second first = (0x90, 0xBF) ∨ first = 0xF4 ∧ second first = (0x80, 0x8F) ∨
      (first ≠ 0xE0 ∧ first ≠ 0xED ∧ first ≠ 0xF0 ∧ first ≠ 0xF4) ∧ second first = tail := by
  unfold second
  split
  next h => exact .inl ⟨h, rfl⟩
  next h₁ =>
    split
    next h => exact .inr (.inl ⟨h, rfl⟩)
    next h₂ =>
      split
      next h => exact .inr (.inr (.inl ⟨h, rfl⟩))
      next h₃ =>
        split
        next h => exact .inr (.inr (.inr (.inl ⟨h, rfl⟩)))
        next h₄ => exact .inr (.inr (.inr (.inr ⟨⟨h₁, h₂, h₃, h₄⟩, rfl⟩)))

theorem second_spec (first : Nat)
    : 0x80 ≤ (second first).1 ∧ (second first).1 ≤ (second first).2 ∧ (second first).2 ≤ 0xBF := by
  rcases second_cases first with ⟨_, h⟩ | ⟨_, h⟩ | ⟨_, h⟩ | ⟨_, h⟩ | ⟨_, h⟩
  all_goals
    rw [h]
    decide

theorem bounds_spec {first : Nat} {bs : List (Nat × Nat)} (h : bounds first = some bs)
    : bs.length ≤ 3 ∧ ∀ bound ∈ bs, bound.1 ≤ bound.2 ∧ bound.1 < 256 := by
  have hsecond : (second first).1 ≤ (second first).2 ∧ (second first).1 < 256 := by
    have hspec := second_spec first
    omega
  rcases bounds_cases h with ⟨_, rfl⟩ | ⟨_, rfl⟩ | ⟨_, rfl⟩ | ⟨_, rfl⟩
  all_goals simp [tail, hsecond]

-- The sequences of the table are what characters are encoded as.
theorem encodeChar_charOf {b : UInt8} {bs : List (Nat × Nat)} (h : bounds b.toNat = some bs) (hrest : List.Forall₂ Within rest bs)
    : String.utf8EncodeChar (charOf (b :: rest)) = b :: rest := by
  have hspec := second_spec b.toNat
  have hE0 : b.toNat = 0xE0 → (second b.toNat).1 = 0xA0 := fun h => by rw [h]; rfl
  have hED : b.toNat = 0xED → (second b.toNat).2 = 0x9F := fun h => by rw [h]; rfl
  have hF0 : b.toNat = 0xF0 → (second b.toNat).1 = 0x90 := fun h => by rw [h]; rfl
  have hF4 : b.toNat = 0xF4 → (second b.toNat).2 = 0x8F := fun h => by rw [h]; rfl
  rcases bounds_cases h with ⟨hb, rfl⟩ | ⟨hb, rfl⟩ | ⟨hb, rfl⟩ | ⟨hb, rfl⟩
  . cases hrest
    exact encodeChar_one hb
  . rcases hrest with _ | ⟨hc, _ | _⟩
    exact encodeChar_two hb hc
  . rcases hrest with _ | ⟨⟨hlo, hhi⟩, _ | ⟨hd, _ | _⟩⟩
    exact encodeChar_three hb ⟨Nat.le_trans hspec.1 hlo, Nat.le_trans hhi hspec.2.2⟩ hd (fun h => hE0 h ▸ hlo)
      (fun h => hED h ▸ hhi)
  . rcases hrest with _ | ⟨⟨hlo, hhi⟩, _ | ⟨hd, _ | ⟨he, _ | _⟩⟩⟩
    exact encodeChar_four hb ⟨Nat.le_trans hspec.1 hlo, Nat.le_trans hhi hspec.2.2⟩ hd he (fun h => hF0 h ▸ hlo)
      (fun h => hF4 h ▸ hhi)

theorem head_encodeChar (c : Char) (rest : List UInt8)
    : head (String.utf8EncodeChar c ++ rest) = .sequence (String.utf8EncodeChar c).length := by
  have hhead : ∀ {b : UInt8} {bytes : List UInt8} {bs : List (Nat × Nat)}, bounds b.toNat = some bs →
      List.Forall₂ Within bytes bs → head (b :: (bytes ++ rest)) = .sequence (b :: bytes).length := by
    intro b bytes bs hbounds hwithin
    rw [head, hbounds, Option.elim_some, scan_within hwithin, List.length_cons, hwithin.length_eq, Nat.add_comm]
  have hvalid : c.val.toNat.isValidChar := c.valid
  have hlt : c.val.toNat < 0xD800 ∨ (0xDFFF < c.val.toNat ∧ c.val.toNat < 0x110000) := hvalid
  unfold String.utf8EncodeChar
  dsimp only
  generalize c.val.toNat = v at hlt
  have hbyte : ∀ n < 256, (UInt8.ofNat n).toNat = n := fun n hn => UInt8.toNat_ofNat_of_lt' hn
  have htail : ∀ n < 64, Within (UInt8.ofNat (n + 0x80)) tail := by
    intro n hn
    rw [Within, hbyte _ (by omega), tail]
    omega
  have hmod : ∀ n, n % 0x40 < 64 := fun n => Nat.mod_lt n (by decide)
  split_ifs with hone htwo hthree
  . refine @hhead (UInt8.ofNat v) [] [] ?_ .nil
    rw [hbyte _ (by omega), bounds, if_pos hone]
  . refine @hhead _ [_] [tail] ?_ (.cons (htail _ (hmod v)) .nil)
    rw [hbyte _ (by omega), bounds, if_neg (by omega), if_neg (by omega), if_pos (by omega)]
  . -- Overlong forms stop below the second byte 0xA0, surrogates begin above 0x9F.
    have hwithin : Within (UInt8.ofNat (v / 64 % 0x40 + 0x80)) (second (v / 4096 % 16 + 0xE0)) := by
      rw [Within, hbyte _ (by omega)]
      rcases second_cases (v / 4096 % 16 + 0xE0) with ⟨_, h⟩ | ⟨_, h⟩ | ⟨_, h⟩ | ⟨_, h⟩ | ⟨_, h⟩
      all_goals
        rw [h]
        dsimp only [tail]
        omega
    refine @hhead _ [_, _] [second (v / 4096 % 16 + 0xE0), tail] ?_ (.cons hwithin (.cons (htail _ (hmod _)) .nil))
    rw [hbyte _ (by omega), bounds_eq, if_neg (by omega), if_neg (by omega), if_neg (by omega), if_pos (by omega)]
  . have hwithin : Within (UInt8.ofNat (v / 4096 % 0x40 + 0x80)) (second (v / 262144 % 8 + 0xF0)) := by
      rw [Within, hbyte _ (by omega)]
      rcases second_cases (v / 262144 % 8 + 0xF0) with ⟨_, h⟩ | ⟨_, h⟩ | ⟨_, h⟩ | ⟨_, h⟩ | ⟨_, h⟩
      all_goals
        rw [h]
        dsimp only [tail]
        omega
    refine @hhead _ [_, _, _] [second (v / 262144 % 8 + 0xF0), tail, tail] ?_
      (.cons hwithin (.cons (htail _ (hmod _)) (.cons (htail _ (hmod _)) .nil)))
    rw [hbyte _ (by omega), bounds_eq, if_neg (by omega), if_neg (by omega), if_neg (by omega), if_neg (by omega),
      if_pos (by omega)]

theorem head_sequence (h : head bytes = .sequence n)
    : 0 < n ∧ n ≤ bytes.length ∧ String.utf8EncodeChar (charOf (bytes.take n)) = bytes.take n := by
  cases bytes with
  | nil => cases h
  | cons b bytes =>
    rw [head] at h
    cases hbounds : bounds b.toNat with
    | none =>
      rw [hbounds] at h
      cases h
    | some bs =>
      rw [hbounds, Option.elim_some] at h
      rcases scan_sequence h with ⟨rfl, hwithin⟩
      have hlen := hwithin.length_eq
      rw [List.length_take] at hlen
      rw [Nat.add_comm 1, List.take_succ_cons, List.length_cons]
      exact ⟨by omega, by omega, encodeChar_charOf hbounds hwithin⟩

theorem head_bad (h : head bytes = .bad n) : 0 < n ∧ n ≤ bytes.length := by
  cases bytes with
  | nil => cases h
  | cons b bytes =>
    rw [head] at h
    cases hbounds : bounds b.toNat with
    | none =>
      rw [hbounds] at h
      cases h
      exact ⟨Nat.one_pos, Nat.succ_pos _⟩
    | some bs =>
      rw [hbounds, Option.elim_some] at h
      have hlt := scan_bad h
      rw [List.length_cons]
      omega

theorem head_short (h : head bytes = .short) (hne : bytes ≠ [])
    : bytes.length ≤ 3 ∧ ∃ c, bytes <+: String.utf8EncodeChar c ∧ bytes ≠ String.utf8EncodeChar c := by
  cases bytes with
  | nil => exact absurd rfl hne
  | cons b bytes =>
    rw [head] at h
    cases hbounds : bounds b.toNat with
    | none =>
      rw [hbounds] at h
      cases h
    | some bs =>
      rw [hbounds, Option.elim_some] at h
      rcases scan_short h with ⟨hlt, hwithin⟩
      rcases bounds_spec hbounds with ⟨hthree, hbound⟩
      have hext : ∃ ext, List.Forall₂ Within ext (bs.drop bytes.length) := by
        refine ⟨(bs.drop bytes.length).map fun bound => UInt8.ofNat bound.1, ?_⟩
        rw [List.forall₂_map_left_iff, List.forall₂_same]
        intro bound hmem
        have hle := hbound bound (List.mem_of_mem_drop hmem)
        rw [Within, UInt8.toNat_ofNat_of_lt' hle.2]
        exact ⟨Nat.le_refl _, hle.1⟩
      rcases hext with ⟨ext, hext⟩
      have hall : List.Forall₂ Within (bytes ++ ext) bs := by
        have hboth := List.rel_append hwithin hext
        dsimp only at hboth
        rwa [List.take_append_drop] at hboth
      have hlen := hext.length_eq
      rw [List.length_drop] at hlen
      refine ⟨by rw [List.length_cons]; omega, charOf (b :: (bytes ++ ext)), ?_⟩
      rw [encodeChar_charOf hbounds hall]
      refine ⟨List.prefix_append (b :: bytes) ext, ?_⟩
      intro heq
      have hnil : ext = [] := by simpa using heq
      rw [hnil, List.length_nil] at hlen
      omega

-- A byte that breaks a sequence is needed to break it.
theorem length_le_of_bad (h : head bytes = .short) (hbad : head (bytes ++ rest) = .bad n) : bytes.length ≤ n := by
  have hscan : ∀ {bounds : List (Nat × Nat)} {bytes : List UInt8} {m : Nat}, scan m bounds bytes = .short →
      scan m bounds (bytes ++ rest) = .bad n → m + bytes.length ≤ n := by
    intro bounds
    induction bounds with
    | nil =>
      intro bytes m h
      cases h
    | cons bound bounds ih =>
      rcases bound with ⟨lo, hi⟩
      intro bytes m h hbad
      cases bytes with
      | nil => exact (scan_bad hbad).1
      | cons b bytes =>
        rw [scan] at h
        rw [List.cons_append, scan] at hbad
        by_cases hb : lo ≤ b.toNat ∧ b.toNat ≤ hi
        . rw [if_pos hb] at h hbad
          have hle := ih h hbad
          rw [List.length_cons]
          omega
        . rw [if_neg hb] at h
          cases h
  cases bytes with
  | nil => exact Nat.zero_le n
  | cons b bytes =>
    rw [head] at h
    rw [List.cons_append, head] at hbad
    cases hbounds : bounds b.toNat with
    | none =>
      rw [hbounds] at h
      cases h
    | some bs =>
      rw [hbounds, Option.elim_some] at h hbad
      have hle := hscan h hbad
      rw [List.length_cons]
      omega

theorem drop_lt_of_sequence (h : head bytes = .sequence n) : (bytes.drop n).length < bytes.length := by
  have hlen := head_sequence h
  rw [List.length_drop]
  omega

theorem drop_lt_of_bad (h : head bytes = .bad n) : (bytes.drop n).length < bytes.length := by
  have hlen := head_bad h
  rw [List.length_drop]
  omega

end Head

section Decoders

def replacement : Char := '\uFFFD'

-- The text of the longest front that is an encoding, and what is left of the bytes.
def front (bytes : List UInt8) : Text × List UInt8 :=
  match _h : head bytes with
  | .sequence n =>
    let next := front (bytes.drop n)
    (charOf (bytes.take n) :: next.1, next.2)
  | _ => ([], bytes)
termination_by bytes.length
decreasing_by exact drop_lt_of_sequence _h

structure Utf8Error where
  validUpTo : Nat
  errorLen : Option Nat
  deriving DecidableEq

/--
`str::from_utf8`. `valid_up_to` is the length of the longest front that is an encoding. `error_len` is that of the ill-formed
sequence behind it, and there is none where the bytes end within a sequence.
-/
def fromUtf8 (bytes : List UInt8) : Except Utf8Error Text :=
  match decode bytes with
  | some text => .ok text
  | none =>
    .error {
      validUpTo := bytes.length - (front bytes).2.length
      errorLen :=
        match head (front bytes).2 with
        | .bad n => some n
        | _ => none
    }

/--
`String::from_utf8_lossy`: each ill-formed sequence is replaced, and so is one that the bytes end in.
-/
def lossy (bytes : List UInt8) : Text :=
  match _h : head bytes with
  | .sequence n => charOf (bytes.take n) :: lossy (bytes.drop n)
  | .bad n => replacement :: lossy (bytes.drop n)
  | .short => if bytes = [] then [] else [replacement]
termination_by bytes.length
decreasing_by
  . exact drop_lt_of_sequence _h
  . exact drop_lt_of_bad _h

-- What is decoded, and what waits for more bytes.
def stream (bytes : List UInt8) : Text × List UInt8 :=
  match _h : head bytes with
  | .sequence n =>
    let next := stream (bytes.drop n)
    (charOf (bytes.take n) :: next.1, next.2)
  | .bad n =>
    let next := stream (bytes.drop n)
    (replacement :: next.1, next.2)
  | .short => ([], bytes)
termination_by bytes.length
decreasing_by
  . exact drop_lt_of_sequence _h
  . exact drop_lt_of_bad _h

variable {n : Nat} {bytes rest : List UInt8} {text : Text}

theorem front_sequence (h : head bytes = .sequence n)
    : front bytes = (charOf (bytes.take n) :: (front (bytes.drop n)).1, (front (bytes.drop n)).2) := by
  rw [front]
  split
  next m hm =>
    cases hm.symm.trans h
    rfl
  next hne => exact absurd h (hne n)

theorem front_other (h : ∀ n, head bytes ≠ .sequence n) : front bytes = ([], bytes) := by
  rw [front]
  split
  next m hm => exact absurd hm (h m)
  next => rfl

theorem lossy_sequence (h : head bytes = .sequence n) : lossy bytes = charOf (bytes.take n) :: lossy (bytes.drop n) := by
  rw [lossy]
  split
  next m hm =>
    cases hm.symm.trans h
    rfl
  next m hm => cases hm.symm.trans h
  next hm => cases hm.symm.trans h

theorem lossy_bad (h : head bytes = .bad n) : lossy bytes = replacement :: lossy (bytes.drop n) := by
  rw [lossy]
  split
  next m hm => cases hm.symm.trans h
  next m hm =>
    cases hm.symm.trans h
    rfl
  next hm => cases hm.symm.trans h

theorem lossy_short (h : head bytes = .short) : lossy bytes = if bytes = [] then [] else [replacement] := by
  rw [lossy]
  split
  next m hm => cases hm.symm.trans h
  next m hm => cases hm.symm.trans h
  next => rfl

theorem stream_sequence (h : head bytes = .sequence n)
    : stream bytes = (charOf (bytes.take n) :: (stream (bytes.drop n)).1, (stream (bytes.drop n)).2) := by
  rw [stream]
  split
  next m hm =>
    cases hm.symm.trans h
    rfl
  next m hm => cases hm.symm.trans h
  next hm => cases hm.symm.trans h

theorem stream_bad (h : head bytes = .bad n)
    : stream bytes = (replacement :: (stream (bytes.drop n)).1, (stream (bytes.drop n)).2) := by
  rw [stream]
  split
  next m hm => cases hm.symm.trans h
  next m hm =>
    cases hm.symm.trans h
    rfl
  next hm => cases hm.symm.trans h

theorem stream_short (h : head bytes = .short) : stream bytes = ([], bytes) := by
  rw [stream]
  split
  next m hm => cases hm.symm.trans h
  next m hm => cases hm.symm.trans h
  next => rfl

theorem take_append (h : n ≤ bytes.length) (rest : List UInt8)
    : (bytes ++ rest).take n = bytes.take n ∧ (bytes ++ rest).drop n = bytes.drop n ++ rest :=
  ⟨List.take_append_of_le_length h, List.drop_append_of_le_length h⟩

theorem charOf_encodeChar (c : Char) : charOf (String.utf8EncodeChar c) = c := by
  have hhead := head_encodeChar c []
  rw [List.append_nil] at hhead
  have hencode := (head_sequence hhead).2.2
  rw [List.take_length] at hencode
  have happ := congrArg (· ++ []) hencode
  exact eq_of_encodeChar_append_eq happ

theorem encode_front (bytes : List UInt8) : encode (front bytes).1 ++ (front bytes).2 = bytes := by
  induction bytes using front.induct with
  | case1 bytes n h ih =>
    rw [front_sequence h]
    dsimp only
    rw [encode_cons, (head_sequence h).2.2, List.append_assoc, ih, List.take_append_drop]
  | case2 bytes h =>
    rw [front_other h]
    rfl

theorem front_encode (text : Text) (rest : List UInt8) : front (encode text ++ rest) = (text ++ (front rest).1, (front rest).2) := by
  induction text with
  | nil => rfl
  | cons c text ih =>
    have hhead := head_encodeChar c (encode text ++ rest)
    rw [encode_cons, List.append_assoc, front_sequence hhead, List.take_left' rfl, List.drop_left' rfl, charOf_encodeChar, ih]
    rfl

theorem head_front (bytes : List UInt8) (n : Nat) : head (front bytes).2 ≠ .sequence n := by
  induction bytes using front.induct with
  | case1 bytes m h ih =>
    rw [front_sequence h]
    exact ih
  | case2 bytes h =>
    rw [front_other h]
    exact h n

theorem front_of_decode (h : decode bytes = some text) : front bytes = (text, []) := by
  have hfront := front_encode text []
  have hnil : front [] = ([], []) := front_other fun n heq => by cases heq
  rwa [List.append_nil, decode_eq_some_iff.mp h, hnil, List.append_nil] at hfront

theorem fromUtf8_ok (h : fromUtf8 bytes = .ok text) : decode bytes = some text := by
  unfold fromUtf8 at h
  split at h
  next s hs =>
    cases h
    exact hs
  next => cases h

theorem fromUtf8_error {e : Utf8Error} (h : fromUtf8 bytes = .error e)
    : bytes.take e.validUpTo = encode (front bytes).1 ∧ bytes.drop e.validUpTo = (front bytes).2 ∧
        (∀ n, e.errorLen = some n ↔ head (front bytes).2 = .bad n) ∧
        (e.errorLen = none ↔ head (front bytes).2 = .short) := by
  unfold fromUtf8 at h
  split at h
  next => cases h
  next =>
    cases h
    have hsplit := encode_front bytes
    generalize hf : front bytes = f at hsplit
    subst hsplit
    have hvalid : (encode f.1 ++ f.2).length - f.2.length = (encode f.1).length := by
      rw [List.length_append, Nat.add_sub_cancel]
    have hsequence := head_front (encode f.1 ++ f.2)
    rw [hf] at hsequence
    refine ⟨List.take_left' hvalid.symm, List.drop_left' hvalid.symm, ?_, ?_⟩
    . intro n
      dsimp only
      cases head f.2 <;> simp
    . dsimp only
      cases hhead : head f.2 with
      | sequence n => exact absurd hhead (hsequence n)
      | bad n => simp
      | short => simp

theorem stream_front (bytes : List UInt8)
    : stream bytes = ((front bytes).1 ++ (stream (front bytes).2).1, (stream (front bytes).2).2) := by
  induction bytes using front.induct with
  | case1 bytes n h ih =>
    rw [front_sequence h, stream_sequence h, ih]
    rfl
  | case2 bytes h =>
    rw [front_other h]
    rfl

theorem head_stream (bytes : List UInt8) : head (stream bytes).2 = .short := by
  induction bytes using stream.induct with
  | case1 bytes n h ih =>
    rw [stream_sequence h]
    exact ih
  | case2 bytes n h ih =>
    rw [stream_bad h]
    exact ih
  | case3 bytes h =>
    rw [stream_short h]
    exact h

/--
What was decoded stays decoded, whatever comes.
-/
theorem stream_append (bytes rest : List UInt8)
    : stream (bytes ++ rest) =
        ((stream bytes).1 ++ (stream ((stream bytes).2 ++ rest)).1, (stream ((stream bytes).2 ++ rest)).2) := by
  induction bytes using stream.induct with
  | case1 bytes n h ih =>
    have hhead := (head_append (by simp [h]) rest).trans h
    have happ := take_append (head_sequence h).2.1 rest
    rw [stream_sequence hhead, stream_sequence h, happ.1, happ.2, ih]
    rfl
  | case2 bytes n h ih =>
    have hhead := (head_append (by simp [h]) rest).trans h
    have happ := take_append (head_bad h).2 rest
    rw [stream_bad hhead, stream_bad h, happ.2, ih]
    rfl
  | case3 bytes h =>
    rw [stream_short h]
    rfl

-- The decoder of a whole also replaces what still waits.
theorem lossy_eq (bytes : List UInt8) : lossy bytes = (stream bytes).1 ++ lossy (stream bytes).2 := by
  induction bytes using stream.induct with
  | case1 bytes n h ih =>
    rw [lossy_sequence h, stream_sequence h, ih]
    rfl
  | case2 bytes n h ih =>
    rw [lossy_bad h, stream_bad h, ih]
    rfl
  | case3 bytes h =>
    rw [stream_short h]
    rfl

theorem lossy_nil : lossy [] = [] := lossy_short rfl

theorem lossy_encode_append (text : Text) (rest : List UInt8) : lossy (encode text ++ rest) = text ++ lossy rest := by
  induction text with
  | nil => rfl
  | cons c text ih =>
    have hhead := head_encodeChar c (encode text ++ rest)
    rw [encode_cons, List.append_assoc, lossy_sequence hhead, List.take_left' rfl, List.drop_left' rfl, charOf_encodeChar, ih]
    rfl

theorem lossy_encode (text : Text) : lossy (encode text) = text := by
  have h := lossy_encode_append text []
  rwa [List.append_nil, lossy_nil, List.append_nil] at h

-- The bytes that are decoded are decoded as if no others came.
theorem lossy_part (bytes : List UInt8) : ∃ part, part ++ (stream bytes).2 = bytes ∧ lossy part = (stream bytes).1 := by
  induction bytes using stream.induct with
  | case1 bytes n h ih =>
    rcases ih with ⟨part, hpart, hlossy⟩
    rcases head_sequence h with ⟨_, hlen, hencode⟩
    refine ⟨bytes.take n ++ part, ?_, ?_⟩
    . rw [stream_sequence h, List.append_assoc, hpart, List.take_append_drop]
    . have htake : (bytes.take n).length = n := List.length_take_of_le hlen
      have hhead : head (bytes.take n ++ part) = .sequence n := by
        have hchar := head_encodeChar (charOf (bytes.take n)) part
        rwa [hencode, htake] at hchar
      rw [lossy_sequence hhead, stream_sequence h, List.take_left' htake, List.drop_left' htake, hlossy]
  | case2 bytes n h ih =>
    rcases ih with ⟨part, hpart, hlossy⟩
    rcases head_bad h with ⟨hpos, hlen⟩
    have htake : (bytes.take n).length = n := List.length_take_of_le hlen
    have hall : bytes.take n ++ part ++ (stream (bytes.drop n)).2 = bytes := by
      rw [List.append_assoc, hpart, List.take_append_drop]
    refine ⟨bytes.take n ++ part, ?_, ?_⟩
    . rw [stream_bad h]
      exact hall
    . rw [stream_bad h, ← hlossy]
      by_cases hshort : head (bytes.take n ++ part) = .short
      . -- Without the byte that breaks it, the sequence is the last.
        have hle := length_le_of_bad hshort (hall.symm ▸ h)
        rw [List.length_append, htake] at hle
        have hnil : part = [] := List.eq_nil_of_length_eq_zero (by omega)
        have hne : bytes.take n ++ part ≠ [] := by
          intro heq
          have hzero := congrArg List.length heq
          rw [List.length_append, htake, List.length_nil] at hzero
          omega
        rw [lossy_short hshort, if_neg hne, hnil, lossy_nil]
      . have hhead : head (bytes.take n ++ part) = .bad n := by
          rw [← head_append hshort (stream (bytes.drop n)).2, hall, h]
        rw [lossy_bad hhead, List.drop_left' htake]
  | case3 bytes h =>
    refine ⟨[], ?_, ?_⟩
    . rw [stream_short h]
      rfl
    . rw [stream_short h]
      exact lossy_nil

theorem stream_of_decode (h : decode bytes = some text) : stream bytes = (text, []) := by
  rw [stream_front, front_of_decode h, stream_short rfl, List.append_nil]

end Decoders

end Utf8
