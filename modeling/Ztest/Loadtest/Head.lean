import Ztest.Lib.Frame
import Ztest.Loadtest.Wire

/-!
This module contains when `block_head` reads what a decoder of the protocol reads: from every message that
it reads at all, and from the encoding of every block but the one at height zero.
-/

namespace Loadtest

open Protobuf (Record Records Payload TakesVarint last)

/--
A decoder of the protocol takes a message that it accepts for records, and reads a field that is left out
as its default.
-/
def ReadsProto3 (decode : Bytes → Except String CompactBlock) : Prop :=
  ∀ bytes b, decode bytes = .ok b → ∃ records, Records bytes records ∧
    b.height = (last (Record.varint 2) records).getD 0 ∧
    b.hash = (last (Record.delimited 3) records).getD [] ∧
    b.prevHash = (last (Record.delimited 4) records).getD []

/--
What the types of the fields and of a length promise of a block that is encoded.
-/
structure CompactBlock.Encodable (tx : CompactTx → Bytes) (metadata : ChainMetadata → Bytes) (b : CompactBlock)
    : Prop where
  height : b.height < u64Range
  time : b.time < u32Range
  size : (b.encode tx metadata).length < u64Range

section Encode

def varintRecord (number value : Nat) : List Record := if value = 0 then [] else [⟨number, .varint value⟩]

def bytesRecord (number : Nat) (value : Bytes) : List Record := if value = [] then [] else [⟨number, .delimited value⟩]

def CompactBlock.records (tx : CompactTx → Bytes) (metadata : ChainMetadata → Bytes) (b : CompactBlock) : List Record :=
  varintRecord 2 b.height ++ bytesRecord 3 b.hash ++ bytesRecord 4 b.prevHash ++ varintRecord 5 b.time
    ++ bytesRecord 6 b.header ++ b.vtx.map (fun t => ⟨7, .delimited (tx t)⟩)
    ++ (match b.chainMetadata with
      | none => []
      | some m => [⟨8, .delimited (metadata m)⟩])

variable {number : Nat} {rest : Bytes} {records : List Record}

theorem takesVarint_put {n : Nat} (h : n < u64Range) (rest : Bytes) : TakesVarint (putVarint n ++ rest) n rest := by
  have hlt : n < 128 ^ (9 + 1) := Nat.lt_trans h (by decide)
  exact ⟨n, Varint.get_put hlt rest, (Nat.mod_eq_of_lt h).symm⟩

theorem records_put {key : Nat} {value : Protobuf.Value} {body : Bytes} (hkey : Protobuf.IsKey key)
    (hnumber : key / 8 = number) (hvalue : Payload key body value rest) (h : Records rest records)
    : Records (putVarint key ++ body) (⟨number, value⟩ :: records) := by
  subst hnumber
  exact .cons (takesVarint_put (Nat.lt_trans hkey.range (by decide)) body) hkey hvalue h

theorem records_varintField {value : Nat} (hnumber : 0 < number ∧ number < 16) (hlt : value < u64Range)
    (h : Records rest records)
    : Records (varintField number value ++ rest) (varintRecord number value ++ records) := by
  unfold varintField varintRecord
  split
  . exact h
  . rw [List.append_assoc]
    apply records_put ⟨by omega, by omega⟩ (by omega) ?_ h
    exact .varint (by omega) (takesVarint_put hlt rest)

theorem records_messageField {value : Bytes} (hnumber : 0 < number ∧ number < 16) (hlt : value.length < u64Range)
    (h : Records rest records)
    : Records (messageField number value ++ rest) (⟨number, .delimited value⟩ :: records) := by
  have hvalue : Payload (8 * number + 2) (putVarint value.length ++ (value ++ rest)) (.delimited value) rest := by
    have hpayload := @Payload.delimited (8 * number + 2) _ _ _ (by omega) (takesVarint_put hlt (value ++ rest))
      (by rw [List.length_append]; omega)
    rw [List.take_left, List.drop_left] at hpayload
    exact hpayload
  rw [messageField, List.append_assoc, List.append_assoc]
  exact records_put ⟨by omega, by omega⟩ (by omega) hvalue h

theorem records_bytesField {value : Bytes} (hnumber : 0 < number ∧ number < 16) (hlt : value.length < u64Range)
    (h : Records rest records)
    : Records (bytesField number value ++ rest) (bytesRecord number value ++ records) := by
  unfold bytesField bytesRecord
  split
  . exact h
  . exact records_messageField hnumber hlt h

theorem records_vtx {tx : CompactTx → Bytes} {vtx : List CompactTx} (hlt : ∀ t ∈ vtx, (tx t).length < u64Range)
    (h : Records rest records)
    : Records (vtx.flatMap (fun t => messageField 7 (tx t)) ++ rest)
        (vtx.map (fun t => (⟨7, .delimited (tx t)⟩ : Record)) ++ records) := by
  induction vtx with
  | nil => exact h
  | cons t vtx ih =>
    rw [List.forall_mem_cons] at hlt
    rw [List.flatMap_cons, List.append_assoc]
    exact records_messageField ⟨by decide, by decide⟩ hlt.1 (ih hlt.2)

/--
An encoded block is a message of the protocol.
-/
theorem records_encode {tx : CompactTx → Bytes} {metadata : ChainMetadata → Bytes} {b : CompactBlock}
    (h : b.Encodable tx metadata)
    : Records (b.encode tx metadata) (b.records tx metadata) := by
  have hsize := h.size
  unfold CompactBlock.encode CompactBlock.records at *
  simp only [List.length_append] at hsize
  simp only [List.append_assoc]
  have hbytes : ∀ number value, value.length ≤ (bytesField number value).length := length_le_bytesField
  apply records_varintField ⟨by decide, by decide⟩ h.height
  apply records_bytesField ⟨by decide, by decide⟩
  . have := hbytes 3 b.hash
    omega
  apply records_bytesField ⟨by decide, by decide⟩
  . have := hbytes 4 b.prevHash
    omega
  apply records_varintField ⟨by decide, by decide⟩ (Nat.lt_trans h.time (by decide))
  apply records_bytesField ⟨by decide, by decide⟩
  . have := hbytes 6 b.header
    omega
  apply records_vtx
  . intro t ht
    have := @length_le_flatMap tx _ _ ht
    omega
  cases hm : b.chainMetadata with
  | none => exact .nil
  | some m =>
    rw [hm] at hsize
    have := length_le_messageField 8 (metadata m)
    have hlt : (metadata m).length < u64Range := by
      dsimp only at hsize
      omega
    have hlast : Records (messageField 8 (metadata m) ++ []) [⟨8, .delimited (metadata m)⟩] :=
      records_messageField ⟨by decide, by decide⟩ hlt .nil
    rw [List.append_nil] at hlast
    exact hlast

end Encode

theorem varint_of_takes {bytes rest : Bytes} {n : Nat} (h : TakesVarint bytes n rest)
    : varint bytes = some (n, rest) := by
  obtain ⟨wide, hget, rfl⟩ := h
  unfold varint
  rw [hget]
  rfl

theorem delimited_of_takes {bytes rest : Bytes} {len : Nat} (h : TakesVarint bytes len rest) (hle : len ≤ rest.length)
    : delimited bytes = some (rest.take len, rest.drop len) := by
  unfold delimited
  rw [varint_of_takes h]
  exact if_pos hle

-- What a walk has read behind the records, of which some may repeat what was read before.
def Walk.after (acc : Walk) (records : List Record) : Walk where
  height := (last (Record.varint 2) records).or acc.height
  hash := (last (Record.delimited 3) records).or acc.hash
  prevHash := (last (Record.delimited 4) records).or acc.prevHash

def Walk.take (acc : Walk) (r : Record) : Walk where
  height := (r.varint 2).or acc.height
  hash := (r.delimited 3).or acc.hash
  prevHash := (r.delimited 4).or acc.prevHash

theorem Walk.after_cons (acc : Walk) (r : Record) (records : List Record)
    : acc.after (r :: records) = (acc.take r).after records := by
  unfold Walk.after Walk.take
  rw [Protobuf.last_cons, Protobuf.last_cons, Protobuf.last_cons]

/--
One turn of the walk takes one record.
-/
theorem walk_record {turns : Nat} {acc acc' : Walk} {bytes body rest : Bytes} {key : Nat} {value : Protobuf.Value}
    (hkey : TakesVarint bytes key body) (hvalue : Payload key body value rest)
    (h : walk turns acc bytes = some acc')
    : ∃ turns', walk turns' (acc.take ⟨key / 8, value⟩) rest = some acc' := by
  cases bytes with
  | nil => exact absurd rfl hkey.ne_nil
  | cons byte bytes =>
    cases turns with
    | zero => cases h
    | succ turns =>
      rw [walk, varint_of_takes hkey] at h
      dsimp only at h
      cases hvalue with
      | varint htype hn =>
        rw [varint_of_takes hn] at h
        split at h
        . next hheight => exact ⟨turns, by simpa [Walk.take, Record.varint, Record.delimited, hheight.1] using h⟩
        . next hother =>
          have hne : key / 8 ≠ 2 := fun hnumber => hother ⟨hnumber, htype⟩
          rw [if_neg (by omega)] at h
          exact ⟨turns, by simpa [Walk.take, Record.varint, Record.delimited, hne] using h⟩
      | delimited htype hlen hle =>
        have hdelimited := delimited_of_takes hlen hle
        rw [if_neg (by omega), hdelimited] at h
        split at h
        . next hhash =>
          dsimp only at h
          split at h
          . cases h
          . split at h
            . next hthree => exact ⟨turns, by simpa [Walk.take, Record.varint, Record.delimited, hthree] using h⟩
            . next hfour =>
              have hfour : key / 8 = 4 := by omega
              exact ⟨turns, by simpa [Walk.take, Record.varint, Record.delimited, hfour] using h⟩
        . next hother =>
          have hthree : key / 8 ≠ 3 := by omega
          have hfour : key / 8 ≠ 4 := by omega
          rw [if_neg (by omega)] at h
          exact ⟨turns, by simpa [Walk.take, Record.varint, Record.delimited, hthree, hfour] using h⟩
      | fixed64 htype hle =>
        rw [if_neg (by omega), if_neg (by omega), if_neg (by omega), if_neg (by omega), if_pos htype, if_pos hle] at h
        exact ⟨turns, h⟩
      | fixed32 htype hle =>
        rw [if_neg (by omega), if_neg (by omega), if_neg (by omega), if_neg (by omega), if_neg (by omega),
          if_pos htype, if_pos hle] at h
        exact ⟨turns, h⟩
      | groupEnd htype =>
        -- The walk knows no groups.
        rw [if_neg (by omega), if_neg (by omega), if_neg (by omega), if_neg (by omega), if_neg (by omega),
          if_neg (by omega)] at h
        cases h
      | groupField htype =>
        rw [if_neg (by omega), if_neg (by omega), if_neg (by omega), if_neg (by omega), if_neg (by omega),
          if_neg (by omega)] at h
        cases h

theorem walk_records {bytes : Bytes} {records : List Record} (hrecords : Records bytes records) {turns : Nat}
    {acc acc' : Walk} (h : walk turns acc bytes = some acc')
    : acc' = acc.after records := by
  induction hrecords generalizing turns acc with
  | nil =>
    cases turns <;> cases h <;> rfl
  | cons hkey _ hvalue _ ih =>
    obtain ⟨turns', hrest⟩ := walk_record hkey hvalue h
    rw [Walk.after_cons]
    exact ih hrest

theorem blockHead_eq_some {message : Bytes} {head : BlockHead} (h : blockHead message = some head)
    : walk message.length {} message = some ⟨some head.height, some head.hash, some head.prevHash⟩ := by
  unfold blockHead at h
  split at h
  . next hwalk =>
    cases h
    exact hwalk
  . cases h

theorem blockHead_eq_decoded {decode : Bytes → Except String CompactBlock} (hdecode : ReadsProto3 decode)
    {message : Bytes} {head : BlockHead} {b : CompactBlock} (h : blockHead message = some head)
    (hb : decode message = .ok b)
    : head = ⟨b.height, b.hash, b.prevHash⟩ := by
  obtain ⟨records, hrecords, hheight, hhash, hprevHash⟩ := hdecode message b hb
  have hafter := walk_records hrecords (blockHead_eq_some h)
  unfold Walk.after at hafter
  simp only [Option.or_none, Walk.mk.injEq] at hafter
  rw [hheight, hhash, hprevHash, ← hafter.1, ← hafter.2.1, ← hafter.2.2]
  rfl

/--
The head that is read of an encoded block is its own unless the block is at height zero, and what is read
of any message is what a decoder reads that accepts it.
-/
theorem blockHead_agrees_iff {decode : Bytes → Except String CompactBlock} (hdecode : ReadsProto3 decode)
    {tx : CompactTx → Bytes} {metadata : ChainMetadata → Bytes} {b : CompactBlock} (hfits : b.Encodable tx metadata)
    (hhash : b.hash.length = 32) (hprevHash : b.prevHash.length = 32)
    : (blockHead (b.encode tx metadata) = some ⟨b.height, b.hash, b.prevHash⟩ ↔ b.height ≠ 0) ∧
      ∀ message head c, blockHead message = some head → decode message = .ok c →
        head = ⟨c.height, c.hash, c.prevHash⟩ := by
  have htime : b.time < u64Range := Nat.lt_trans hfits.time (by decide)
  refine ⟨⟨?_, ?_⟩, fun _ _ _ => blockHead_eq_decoded hdecode⟩
  . intro h hzero
    rw [blockHead_encode_zero hzero hhash hprevHash htime hfits.size] at h
    cases h
  . intro hne
    exact blockHead_encode (Nat.pos_of_ne_zero hne) hfits.height hhash hprevHash htime hfits.size

namespace Sample

def block (height : Nat) : CompactBlock where
  height := height
  hash := List.replicate 32 7
  prevHash := List.replicate 32 0
  time := 0
  header := [1, 2]
  vtx := []
  chainMetadata := none

def message (height : Nat) : Bytes := (block height).encode (fun _ => []) (fun _ => [])

-- Of the messages, only the one of the block at height 300 is accepted.
def decode (bytes : Bytes) : Except String CompactBlock :=
  if bytes = message 300 then .ok (block 300) else .error "failed to decode Protobuf message"

theorem block_encodable : (block 300).Encodable (fun _ => []) (fun _ => []) := ⟨by decide, by decide, by decide⟩

theorem decode_readsProto3 : ReadsProto3 decode := by
  intro bytes b h
  unfold decode at h
  split at h
  . next hbytes =>
    cases h
    rw [hbytes]
    exact ⟨_, records_encode block_encodable, rfl, rfl, rfl⟩
  . cases h

end Sample

theorem blockHead_agrees_at_300
    : (blockHead (Sample.message 300) = some ⟨300, (Sample.block 300).hash, (Sample.block 300).prevHash⟩ ↔ 300 ≠ 0) ∧
        ∀ message head c, blockHead message = some head → Sample.decode message = .ok c →
          head = ⟨c.height, c.hash, c.prevHash⟩ :=
  blockHead_agrees_iff Sample.decode_readsProto3 Sample.block_encodable rfl rfl

/--
The head of the first block of a chain is refused.
-/
theorem genesis_head_refused
    : (Sample.block 0).hash.length = 32 ∧ (Sample.block 0).prevHash.length = 32 ∧
        blockHead (Sample.message 0) = none ∧
        blockHead (Sample.message 0) ≠ some ⟨0, (Sample.block 0).hash, (Sample.block 0).prevHash⟩ := by
  decide

end Loadtest
