import Mathlib.Algebra.Ring.Nat
import Mathlib.Tactic.Common

/-!
This module contains codes that can be read back when they are written one after the other: numbers of a
fixed width, texts after their length, and hex.

Another is the wire format of protocol buffers. Numbers are base-128 varints: seven bits in a
byte, the lowest first, and the high bit on every byte but the last, and both directions stop after a given
number of bytes. Of a message's records, the last counts for a field that is not repeated, and one of
another wire type is none of the field's.
-/

namespace Varint

def put : Nat → Nat → List UInt8
  | 0, _ => []
  | turns + 1, n =>
    if n < 128 then [UInt8.ofNat n] else UInt8.ofNat (n % 128 + 128) :: put turns (n / 128)

def get : Nat → List UInt8 → Option (Nat × List UInt8)
  | 0, _ => none
  | _ + 1, [] => none
  | turns + 1, byte :: rest =>
    if byte.toNat < 128 then
      some (byte.toNat, rest)
    else
      match get turns rest with
      | none => none
      | some (high, rest) => some (byte.toNat % 128 + 128 * high, rest)

theorem toNat_ofNat {n : Nat} (h : n < 256) : (UInt8.ofNat n).toNat = n := by
  rw [UInt8.toNat_ofNat']
  omega

theorem get_put {turns n : Nat} (h : n < 128 ^ (turns + 1)) (rest : List UInt8)
    : get (turns + 1) (put (turns + 1) n ++ rest) = some (n, rest) := by
  induction turns generalizing n with
  | zero =>
    have hlt : n < 128 := by simpa using h
    rw [put, if_pos hlt, List.singleton_append, get, toNat_ofNat (by omega), if_pos hlt]
  | succ turns ih =>
    rw [put]
    split
    . next hlt => rw [List.singleton_append, get, toNat_ofNat (by omega), if_pos hlt]
    . next hge =>
      have hdiv : n / 128 < 128 ^ (turns + 1) := by
        rw [Nat.div_lt_iff_lt_mul (by omega), ← pow_succ]
        exact h
      have hlow : n % 128 + 128 < 256 := by omega
      rw [List.cons_append, get, toNat_ofNat hlow, if_neg (by omega), ih hdiv]
      simp only [Option.some.injEq, Prod.mk.injEq, and_true]
      omega

theorem length_put_pos {turns n : Nat} (h : 0 < turns) : 0 < (put turns n).length := by
  cases turns with
  | zero => omega
  | succ turns =>
    unfold put
    split <;> simp

end Varint

namespace Protobuf

-- A group is read to its end, and nothing of it is kept.
inductive Value where
  | varint (n : Nat)
  | fixed64 (bytes : List UInt8)
  | delimited (bytes : List UInt8)
  | group
  | fixed32 (bytes : List UInt8)
  deriving DecidableEq

structure Record where
  number : Nat
  value : Value
  deriving DecidableEq

/--
The bytes start with a varint of at most ten bytes, of which the low 64 bits count.
-/
def TakesVarint (bytes : List UInt8) (n : Nat) (rest : List UInt8) : Prop :=
  ∃ wide, Varint.get 10 bytes = some (wide, rest) ∧ n = wide % 18446744073709551616

/--
A key is a field's number and, in its lowest three bits, a wire type.
-/
structure IsKey (key : Nat) : Prop where
  number : 0 < key / 8
  range : key < 4294967296

inductive Payload : Nat → List UInt8 → Value → List UInt8 → Prop where
  | varint {key n : Nat} {bytes rest : List UInt8} (htype : key % 8 = 0) (h : TakesVarint bytes n rest)
    : Payload key bytes (.varint n) rest
  | fixed64 {key : Nat} {bytes : List UInt8} (htype : key % 8 = 1) (h : 8 ≤ bytes.length)
    : Payload key bytes (.fixed64 (bytes.take 8)) (bytes.drop 8)
  | delimited {key len : Nat} {bytes rest : List UInt8} (htype : key % 8 = 2) (h : TakesVarint bytes len rest)
    (hlen : len ≤ rest.length)
    : Payload key bytes (.delimited (rest.take len)) (rest.drop len)
  | groupEnd {key : Nat} {bytes rest : List UInt8} (htype : key % 8 = 3) (h : TakesVarint bytes (key + 1) rest)
    : Payload key bytes .group rest
  | groupField {key inner : Nat} {value : Value} {bytes body next rest : List UInt8} (htype : key % 8 = 3)
    (h : TakesVarint bytes inner body) (hinner : IsKey inner) (hend : inner % 8 ≠ 4)
    (hvalue : Payload inner body value next) (hnext : Payload key next .group rest)
    : Payload key bytes .group rest
  | fixed32 {key : Nat} {bytes : List UInt8} (htype : key % 8 = 5) (h : 4 ≤ bytes.length)
    : Payload key bytes (.fixed32 (bytes.take 4)) (bytes.drop 4)

inductive Records : List UInt8 → List Record → Prop where
  | nil : Records [] []
  | cons {key : Nat} {value : Value} {bytes body rest : List UInt8} {records : List Record}
    (h : TakesVarint bytes key body) (hkey : IsKey key) (hvalue : Payload key body value rest)
    (hrest : Records rest records)
    : Records bytes (⟨key / 8, value⟩ :: records)

def last {α : Type} (pick : Record → Option α) : List Record → Option α
  | [] => none
  | r :: records => (last pick records).or (pick r)

def Record.varint (number : Nat) (r : Record) : Option Nat :=
  match r.value with
  | .varint n => if r.number = number then some n else none
  | _ => none

def Record.delimited (number : Nat) (r : Record) : Option (List UInt8) :=
  match r.value with
  | .delimited bytes => if r.number = number then some bytes else none
  | _ => none

theorem TakesVarint.ne_nil {bytes rest : List UInt8} {n : Nat} (h : TakesVarint bytes n rest) : bytes ≠ [] := by
  obtain ⟨wide, hget, -⟩ := h
  rintro rfl
  cases hget

theorem last_cons {α : Type} (pick : Record → Option α) (r : Record) (records : List Record) (before : Option α)
    : (last pick (r :: records)).or before = (last pick records).or ((pick r).or before) := by
  rw [last, Option.or_assoc]

end Protobuf

namespace Frame

/--
Where a code word ends is seen from the word itself.
-/
def SelfDelimiting {α β : Type} (code : α → List β) : Prop :=
  ∀ a b r s, code a ++ r = code b ++ s → a = b ∧ r = s

/--
The texts that fit into an allocation.
-/
abbrev Blob : Type := { bytes : List UInt8 // bytes.length < 2 ^ 63 }

def leBytes : Nat → Nat → List UInt8
  | 0, _ => []
  | width + 1, n => UInt8.ofNat (n % 256) :: leBytes width (n / 256)

def beBytes (width n : Nat) : List UInt8 := (leBytes width n).reverse

def ofBeBytes (bytes : List UInt8) : Nat := bytes.foldl (fun acc b => acc * 256 + b.toNat) 0

def lenPrefixed (blob : Blob) : List UInt8 := leBytes 8 blob.val.length ++ blob.val

def hexDigit (n : Nat) : UInt8 := UInt8.ofNat (if n < 10 then 48 + n else 87 + n)

def hexByte (byte : UInt8) : List UInt8 := [hexDigit (byte.toNat / 16), hexDigit (byte.toNat % 16)]

def hex (bytes : List UInt8) : List UInt8 := bytes.flatMap hexByte

section SelfDelimiting

variable {α β : Type} {code : α → List β}

theorem SelfDelimiting.flatMap_injective (h : SelfDelimiting code) (hne : ∀ a, code a ≠ [])
    : Function.Injective (List.flatMap code) := by
  intro as
  induction as with
  | nil =>
    intro bs heq
    cases bs with
    | nil => rfl
    | cons b bs =>
      rw [List.flatMap_cons, List.flatMap_nil] at heq
      exact absurd (List.append_eq_nil_iff.mp heq.symm).1 (hne b)
  | cons a as ih =>
    intro bs heq
    cases bs with
    | nil =>
      rw [List.flatMap_cons, List.flatMap_nil] at heq
      exact absurd (List.append_eq_nil_iff.mp heq).1 (hne a)
    | cons b bs =>
      rw [List.flatMap_cons, List.flatMap_cons] at heq
      rcases h a b _ _ heq with ⟨rfl, hrest⟩
      rw [ih hrest]

theorem SelfDelimiting.pair {γ : Type} {code' : γ → List β} (h : SelfDelimiting code) (h' : SelfDelimiting code')
    : SelfDelimiting fun p : α × γ => code p.1 ++ code' p.2 := by
  intro a b r s heq
  rw [List.append_assoc, List.append_assoc] at heq
  rcases h _ _ _ _ heq with ⟨hfst, hrest⟩
  rcases h' _ _ _ _ hrest with ⟨hsnd, htail⟩
  exact ⟨Prod.ext hfst hsnd, htail⟩

/--
A cut anywhere in code words, and what follows them, leaves whole words before it and less than the next
one.
-/
theorem flatMap_cut {l : List α} {before after tail : List β}
    (h : before ++ after = l.flatMap code ++ tail)
    : ∃ whole left t, l = whole ++ left ∧ before = whole.flatMap code ++ t
        ∧ t ++ after = left.flatMap code ++ tail ∧ ∀ a ∈ left.head?, t.length < (code a).length := by
  induction l generalizing before with
  | nil => exact ⟨[], [], before, rfl, rfl, h, by simp⟩
  | cons a l ih =>
    by_cases hshort : before.length < (code a).length
    . exact ⟨[], a :: l, before, rfl, rfl, h, by simpa using hshort⟩
    . rw [List.flatMap_cons, List.append_assoc] at h
      have hword : code a <+: before :=
        List.prefix_of_prefix_length_le ⟨_, h.symm⟩ ⟨_, rfl⟩ (Nat.le_of_not_lt hshort)
      rcases hword with ⟨before', rfl⟩
      rw [List.append_assoc] at h
      rcases ih (List.append_cancel_left h) with ⟨whole, left, t, rfl, rfl, hrest, hnext⟩
      exact ⟨a :: whole, left, t, rfl, by simp, hrest, hnext⟩

end SelfDelimiting

theorem length_leBytes (width n : Nat) : (leBytes width n).length = width := by
  induction width generalizing n with
  | zero => rfl
  | succ width ih => rw [leBytes, List.length_cons, ih]

theorem leBytes_inj {width a b : Nat} (ha : a < 256 ^ width) (hb : b < 256 ^ width) (h : leBytes width a = leBytes width b)
    : a = b := by
  induction width generalizing a b with
  | zero => omega
  | succ width ih =>
    rw [pow_succ] at ha hb
    rw [leBytes, leBytes, List.cons.injEq] at h
    have hlow : a % 256 = b % 256 := by
      rw [← Varint.toNat_ofNat (Nat.mod_lt a (by omega)), ← Varint.toNat_ofNat (Nat.mod_lt b (by omega)), h.1]
    have hhigh := ih (Nat.div_lt_of_lt_mul (by omega)) (Nat.div_lt_of_lt_mul (by omega)) h.2
    omega

theorem foldr_leBytes {width n : Nat} (h : n < 256 ^ width)
    : (leBytes width n).foldr (fun b acc => acc * 256 + b.toNat) 0 = n := by
  induction width generalizing n with
  | zero =>
    rw [pow_zero] at h
    rw [leBytes, List.foldr_nil]
    omega
  | succ width ih =>
    rw [pow_succ] at h
    rw [leBytes, List.foldr_cons, ih (Nat.div_lt_of_lt_mul (by omega)),
      Varint.toNat_ofNat (Nat.mod_lt n (by omega))]
    omega

theorem ofBeBytes_beBytes {width n : Nat} (h : n < 256 ^ width) : ofBeBytes (beBytes width n) = n := by
  rw [ofBeBytes, beBytes, List.foldl_reverse]
  exact foldr_leBytes h

theorem lenPrefixed_selfDelimiting : SelfDelimiting lenPrefixed := by
  intro a b r s heq
  unfold lenPrefixed at heq
  rw [List.append_assoc, List.append_assoc] at heq
  have hsplit := List.append_inj heq (by rw [length_leBytes, length_leBytes])
  have hlen : a.val.length = b.val.length := by
    apply leBytes_inj ?_ ?_ hsplit.1
    . exact Nat.lt_trans a.property (by decide)
    . exact Nat.lt_trans b.property (by decide)
  rcases List.append_inj hsplit.2 hlen with ⟨hval, hrest⟩
  exact ⟨Subtype.ext hval, hrest⟩

theorem lenPrefixed_ne_nil (blob : Blob) : lenPrefixed blob ≠ [] := by
  apply List.ne_nil_of_length_pos
  rw [lenPrefixed, List.length_append, length_leBytes]
  omega

theorem hexDigit_inj : ∀ {a b : Nat}, a < 16 → b < 16 → hexDigit a = hexDigit b → a = b := by
  have hdigits : ∀ a < 16, ∀ b < 16, hexDigit a = hexDigit b → a = b := by decide
  intro a b ha hb h
  exact hdigits a ha b hb h

theorem hexByte_selfDelimiting : SelfDelimiting hexByte := by
  intro a b r s heq
  simp only [hexByte, List.cons_append, List.nil_append, List.cons.injEq] at heq
  rcases heq with ⟨hhigh, hlow, hrest⟩
  have ha := a.toNat_lt
  have hb := b.toNat_lt
  have hhigh' := hexDigit_inj (by omega) (by omega) hhigh
  have hlow' := hexDigit_inj (by omega) (by omega) hlow
  refine ⟨?_, hrest⟩
  apply UInt8.toNat_inj.mp
  omega

theorem hex_injective : Function.Injective hex := by
  apply hexByte_selfDelimiting.flatMap_injective
  intro byte h
  cases h

theorem length_hex (bytes : List UInt8) : (hex bytes).length = 2 * bytes.length := by
  induction bytes with
  | nil => rfl
  | cons byte bytes ih =>
    rw [hex, List.flatMap_cons, List.length_append, List.length_cons]
    rw [hex] at ih
    rw [ih, hexByte, List.length_cons, List.length_singleton]
    omega

end Frame
