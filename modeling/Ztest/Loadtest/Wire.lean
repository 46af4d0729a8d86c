import Ztest.Lib.Frame
import Ztest.Loadtest.Proto

/-!
This module contains the part of `wire.rs` that reads a message: `block_head` walks the top-level
fields of an encoded `CompactBlock` and never decodes it. `CompactBlock.encode` is the encoding of the
protocol, in which a field with its default value is left out: `block_head` does not read the head of
a block at height zero.
-/

namespace Loadtest

structure BlockHead where
  height : Nat
  hash : Bytes
  prevHash : Bytes
  deriving DecidableEq

instance : Debug BlockHead where
  debug x := debugStruct "BlockHead"
    [("height", Debug.debug x.height), ("hash", Debug.debug x.hash), ("prev_hash", Debug.debug x.prevHash)]

def u64Range : Nat := 18446744073709551616

def varint (bytes : Bytes) : Option (Nat × Bytes) :=
  match Varint.get 10 bytes with
  | none => none
  | some (value, rest) => some (value % u64Range, rest)

def delimited (bytes : Bytes) : Option (Bytes × Bytes) :=
  match varint bytes with
  | none => none
  | some (len, rest) => if len ≤ rest.length then some (rest.take len, rest.drop len) else none

structure Walk where
  height : Option Nat := none
  hash : Option Bytes := none
  prevHash : Option Bytes := none

-- `turns` bounds the fields, each takes a byte at least.
def walk : Nat → Walk → Bytes → Option Walk
  | _, acc, [] => some acc
  | 0, _, _ :: _ => none
  | turns + 1, acc, byte :: bytes =>
    match varint (byte :: bytes) with
    | none => none
    | some (key, rest) =>
      if key / 8 = 2 ∧ key % 8 = 0 then
        match varint rest with
        | none => none
        | some (height, rest) => walk turns { acc with height := some height } rest
      else if (key / 8 = 3 ∨ key / 8 = 4) ∧ key % 8 = 2 then
        match delimited rest with
        | none => none
        | some (value, rest) =>
          if value.length ≠ 32 then
            none
          else if key / 8 = 3 then
            walk turns { acc with hash := some value } rest
          else
            walk turns { acc with prevHash := some value } rest
      else if key % 8 = 0 then
        match varint rest with
        | none => none
        | some (_, rest) => walk turns acc rest
      else if key % 8 = 2 then
        match delimited rest with
        | none => none
        | some (_, rest) => walk turns acc rest
      else if key % 8 = 1 then
        if 8 ≤ rest.length then walk turns acc (rest.drop 8) else none
      else if key % 8 = 5 then
        if 4 ≤ rest.length then walk turns acc (rest.drop 4) else none
      else
        none

def blockHead (message : Bytes) : Option BlockHead :=
  match walk message.length {} message with
  | some ⟨some height, some hash, some prevHash⟩ => some ⟨height, hash, prevHash⟩
  | _ => none

def putVarint (n : Nat) : Bytes := Varint.put 10 n

def varintField (number value : Nat) : Bytes :=
  if value = 0 then [] else putVarint (8 * number) ++ putVarint value

def messageField (number : Nat) (value : Bytes) : Bytes :=
  putVarint (8 * number + 2) ++ putVarint value.length ++ value

def bytesField (number : Nat) (value : Bytes) : Bytes :=
  if value = [] then [] else messageField number value

def CompactBlock.encode (tx : CompactTx → Bytes) (metadata : ChainMetadata → Bytes)
    (b : CompactBlock) : Bytes :=
  varintField 2 b.height ++ bytesField 3 b.hash ++ bytesField 4 b.prevHash ++ varintField 5 b.time
    ++ bytesField 6 b.header ++ b.vtx.flatMap (fun t => messageField 7 (tx t))
    ++ (match b.chainMetadata with
      | none => []
      | some m => messageField 8 (metadata m))

theorem varint_put {n : Nat} (h : n < u64Range) (rest : Bytes)
    : varint (putVarint n ++ rest) = some (n, rest) := by
  have hlt : n < 128 ^ (9 + 1) := Nat.lt_trans h (by decide)
  unfold varint putVarint
  rw [Varint.get_put hlt]
  simp only [Nat.mod_eq_of_lt h]

theorem delimited_put {value : Bytes} (h : value.length < u64Range) (rest : Bytes)
    : delimited (putVarint value.length ++ value ++ rest) = some (value, rest) := by
  unfold delimited
  rw [List.append_assoc, varint_put h]
  simp

theorem putVarint_append (n : Nat) (rest : Bytes)
    : ∃ byte bytes, putVarint n ++ rest = byte :: bytes := by
  have hpos : 0 < (putVarint n).length := Varint.length_put_pos (by decide)
  cases hput : putVarint n with
  | nil => simp [hput] at hpos
  | cons byte bytes => exact ⟨byte, bytes ++ rest, rfl⟩

/--
The walk over `bytes` turns what was read so far into `acc'`.
-/
def Reads (acc : Walk) (bytes : Bytes) (acc' : Walk) : Prop :=
  ∀ turns, bytes.length ≤ turns → walk turns acc bytes = some acc'

section Reads

variable {acc acc' : Walk} {rest : Bytes}

theorem reads_nil : Reads acc [] acc := by
  intro turns _
  cases turns <;> rfl

theorem Reads.field {key : Nat} {body : Bytes} {next : Walk} (hlen : rest.length ≤ body.length)
    (h : Reads next rest acc')
    (hwalk : ∀ turns byte bytes, byte :: bytes = putVarint key ++ body
      → walk (turns + 1) acc (byte :: bytes) = walk turns next rest)
    : Reads acc (putVarint key ++ body) acc' := by
  obtain ⟨byte, bytes, hcons⟩ := putVarint_append key body
  intro turns hturns
  have hput : 0 < (putVarint key).length := Varint.length_put_pos (by decide)
  rw [List.length_append] at hturns
  cases turns with
  | zero => omega
  | succ turns =>
    rw [hcons, hwalk turns byte bytes hcons.symm]
    apply h
    omega

theorem reads_height {height : Nat} (hpos : 0 < height) (hlt : height < u64Range)
    (h : Reads { acc with height := some height } rest acc')
    : Reads acc (varintField 2 height ++ rest) acc' := by
  unfold varintField
  rw [if_neg (by omega), List.append_assoc]
  apply Reads.field (by simp) h
  intro turns byte bytes hcons
  rw [walk, hcons, varint_put (by decide)]
  simp [varint_put hlt]

theorem reads_varintField {number value : Nat} (hnumber : number < 16) (hne : number ≠ 2)
    (hlt : value < u64Range) (h : Reads acc rest acc')
    : Reads acc (varintField number value ++ rest) acc' := by
  unfold varintField
  split
  . exact h
  . rw [List.append_assoc]
    have hkey : 8 * number < u64Range := Nat.lt_trans (by omega : 8 * number < 128) (by decide)
    apply Reads.field (by simp) h
    intro turns byte bytes hcons
    have hdiv : 8 * number / 8 = number := by omega
    have hmod : 8 * number % 8 = 0 := by omega
    rw [walk, hcons, varint_put hkey]
    simp [hdiv, hmod, hne, varint_put hlt]

theorem reads_hashField {number : Nat} {hash : Bytes} (hnumber : number = 3 ∨ number = 4) (hlen : hash.length = 32)
    (h : Reads (if number = 3 then { acc with hash := some hash } else { acc with prevHash := some hash }) rest acc')
    : Reads acc (bytesField number hash ++ rest) acc' := by
  have hlt : hash.length < u64Range := by rw [hlen]; decide
  have hkey : 8 * number + 2 < u64Range := Nat.lt_trans (by omega : 8 * number + 2 < 128) (by decide)
  have hdiv : (8 * number + 2) / 8 = number := by omega
  have hmod : (8 * number + 2) % 8 = 2 := by omega
  unfold bytesField messageField
  rw [if_neg (by rintro rfl; simp at hlen), List.append_assoc, List.append_assoc]
  apply Reads.field (by simp; omega) h
  intro turns byte bytes hcons
  rw [walk, hcons, varint_put hkey, ← List.append_assoc]
  simp only [delimited_put hlt, hdiv, hmod]
  rw [if_neg (by simp), if_pos ⟨hnumber, trivial⟩, if_neg (not_not_intro hlen)]
  split
  . rfl
  . rfl

theorem reads_hash {hash : Bytes} (hlen : hash.length = 32)
    (h : Reads { acc with hash := some hash } rest acc')
    : Reads acc (bytesField 3 hash ++ rest) acc' :=
  reads_hashField (Or.inl rfl) hlen h

theorem reads_prevHash {hash : Bytes} (hlen : hash.length = 32)
    (h : Reads { acc with prevHash := some hash } rest acc')
    : Reads acc (bytesField 4 hash ++ rest) acc' :=
  reads_hashField (Or.inr rfl) hlen h

theorem reads_messageField {number : Nat} {value : Bytes} (hnumber : number < 15) (hgt : 4 < number)
    (hlt : value.length < u64Range) (h : Reads acc rest acc')
    : Reads acc (messageField number value ++ rest) acc' := by
  unfold messageField
  have hkey : 8 * number + 2 < u64Range := Nat.lt_trans (by omega : 8 * number + 2 < 128) (by decide)
  rw [List.append_assoc, List.append_assoc]
  apply Reads.field (by simp; omega) h
  intro turns byte bytes hcons
  have hdiv : (8 * number + 2) / 8 = number := by omega
  have hmod : (8 * number + 2) % 8 = 2 := by omega
  have hthree : number ≠ 3 := by omega
  have hfour : number ≠ 4 := by omega
  rw [walk, hcons, varint_put hkey, ← List.append_assoc]
  simp only [delimited_put hlt, hdiv, hmod]
  simp [hthree, hfour]

theorem reads_bytesField {number : Nat} {value : Bytes} (hnumber : number < 15) (hgt : 4 < number)
    (hlt : value.length < u64Range) (h : Reads acc rest acc')
    : Reads acc (bytesField number value ++ rest) acc' := by
  unfold bytesField
  split
  . exact h
  . exact reads_messageField hnumber hgt hlt h

theorem reads_vtx {tx : CompactTx → Bytes} {vtx : List CompactTx}
    (hlt : ∀ t ∈ vtx, (tx t).length < u64Range) (h : Reads acc rest acc')
    : Reads acc (vtx.flatMap (fun t => messageField 7 (tx t)) ++ rest) acc' := by
  induction vtx with
  | nil => exact h
  | cons t vtx ih =>
    rw [List.flatMap_cons, List.append_assoc]
    apply reads_messageField (by decide) (by decide)
    . exact hlt t List.mem_cons_self
    . apply ih
      intro t' ht'
      exact hlt t' (List.mem_cons_of_mem _ ht')

end Reads

theorem length_le_messageField (number : Nat) (value : Bytes)
    : value.length ≤ (messageField number value).length := by
  unfold messageField
  rw [List.length_append]
  omega

theorem length_le_bytesField (number : Nat) (value : Bytes)
    : value.length ≤ (bytesField number value).length := by
  unfold bytesField
  split
  . next hnil => simp [hnil]
  . exact length_le_messageField number value

theorem length_le_flatMap {tx : CompactTx → Bytes} {vtx : List CompactTx} {t : CompactTx}
    (h : t ∈ vtx) : (tx t).length ≤ (vtx.flatMap fun t => messageField 7 (tx t)).length := by
  induction vtx with
  | nil => cases h
  | cons t' vtx ih =>
    rw [List.flatMap_cons, List.length_append]
    rcases List.mem_cons.mp h with rfl | h
    . have := length_le_messageField 7 (tx t)
      omega
    . have := ih h
      omega

-- A height of zero is not on the wire.
def CompactBlock.head (b : CompactBlock) : Walk where
  height := if b.height = 0 then none else some b.height
  hash := some b.hash
  prevHash := some b.prevHash

theorem reads_head {b : CompactBlock} {rest : Bytes} (hheight : b.height < u64Range) (hhash : b.hash.length = 32)
    (hprev : b.prevHash.length = 32) (h : Reads b.head rest b.head)
    : Reads {} (varintField 2 b.height ++ (bytesField 3 b.hash ++ (bytesField 4 b.prevHash ++ rest))) b.head := by
  by_cases hzero : b.height = 0
  . have hhead : b.head = ⟨none, some b.hash, some b.prevHash⟩ := by rw [CompactBlock.head, if_pos hzero]
    rw [varintField, if_pos hzero, List.nil_append]
    apply reads_hash hhash
    apply reads_prevHash hprev
    rw [hhead] at h ⊢
    exact h
  . have hhead : b.head = ⟨some b.height, some b.hash, some b.prevHash⟩ := by rw [CompactBlock.head, if_neg hzero]
    apply reads_height (Nat.pos_of_ne_zero hzero) hheight
    apply reads_hash hhash
    apply reads_prevHash hprev
    rw [hhead] at h ⊢
    exact h

theorem walk_encode {tx : CompactTx → Bytes} {metadata : ChainMetadata → Bytes}
    {b : CompactBlock} (hheight : b.height < u64Range)
    (hhash : b.hash.length = 32) (hprev : b.prevHash.length = 32) (htime : b.time < u64Range)
    (hsize : (b.encode tx metadata).length < u64Range)
    : walk (b.encode tx metadata).length {} (b.encode tx metadata) = some b.head := by
  have hreads : Reads {} (b.encode tx metadata) b.head := by
    unfold CompactBlock.encode at hsize ⊢
    simp only [List.length_append] at hsize
    simp only [List.append_assoc]
    apply reads_head hheight hhash hprev
    apply reads_varintField (by decide) (by decide) htime
    apply reads_bytesField (by decide) (by decide)
    . have := length_le_bytesField 6 b.header
      omega
    apply reads_vtx
    . intro t ht
      have := @length_le_flatMap tx _ _ ht
      omega
    split
    . exact reads_nil
    . next m hm =>
      rw [hm] at hsize
      have := length_le_messageField 8 (metadata m)
      rw [← List.append_nil (messageField 8 (metadata m))]
      apply reads_messageField (by decide) (by decide)
      . simp only at hsize
        omega
      . exact reads_nil
  exact hreads _ (Nat.le_refl _)

/--
`block_head` reads the head of an encoded block, unless the block is at height zero.
-/
theorem blockHead_encode {tx : CompactTx → Bytes} {metadata : ChainMetadata → Bytes}
    {b : CompactBlock} (hpos : 0 < b.height) (hheight : b.height < u64Range)
    (hhash : b.hash.length = 32) (hprev : b.prevHash.length = 32) (htime : b.time < u64Range)
    (hsize : (b.encode tx metadata).length < u64Range)
    : blockHead (b.encode tx metadata) = some ⟨b.height, b.hash, b.prevHash⟩ := by
  unfold blockHead
  rw [walk_encode hheight hhash hprev htime hsize, CompactBlock.head, if_neg (Nat.ne_of_gt hpos)]

theorem blockHead_encode_zero {tx : CompactTx → Bytes} {metadata : ChainMetadata → Bytes}
    {b : CompactBlock} (hzero : b.height = 0)
    (hhash : b.hash.length = 32) (hprev : b.prevHash.length = 32) (htime : b.time < u64Range)
    (hsize : (b.encode tx metadata).length < u64Range)
    : blockHead (b.encode tx metadata) = none := by
  have hheight : b.height < u64Range := by
    rw [hzero]
    decide
  unfold blockHead
  rw [walk_encode hheight hhash hprev htime hsize, CompactBlock.head, if_pos hzero]

end Loadtest
