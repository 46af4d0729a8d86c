import Mathlib.Tactic.Common

/-!
This module contains the messages of the `CompactTxStreamer` protocol that the load test reads, with their
texts under `{:?}`. `Wire` is what comes from third-party crates: prost's decoders and blake3.
-/

namespace Loadtest

abbrev Bytes := List UInt8

def hexDigit (n : Nat) : Char := if n < 10 then Char.ofNat (48 + n) else Char.ofNat (87 + n)

def hexEncode (bytes : Bytes) : String :=
  String.ofList (bytes.flatMap fun b => [hexDigit (b.toNat / 16), hexDigit (b.toNat % 16)])

-- What `oracle.rs` and the ledger report.
structure Violation where
  height : Nat
  field : String
  detail : String
  deriving DecidableEq

def Violation.display (v : Violation) : String :=
  "height " ++ toString v.height ++ " [" ++ v.field ++ "]: " ++ v.detail

structure BlockId where
  height : Nat
  hash : Bytes

structure CompactTxIn where
  prevoutTxid : Bytes
  prevoutIndex : Nat
  deriving DecidableEq

structure TxOut where
  value : Nat
  scriptPubKey : Bytes
  deriving DecidableEq

structure CompactSaplingOutput where
  cmu : Bytes
  ephemeralKey : Bytes
  ciphertext : Bytes
  deriving DecidableEq

structure CompactOrchardAction where
  nullifier : Bytes
  cmx : Bytes
  ephemeralKey : Bytes
  ciphertext : Bytes
  deriving DecidableEq

-- `spends` holds the nullifiers, the only field of a `CompactSaplingSpend`.
structure CompactTx where
  index : Nat
  txid : Bytes
  fee : Nat
  spends : List Bytes
  outputs : List CompactSaplingOutput
  actions : List CompactOrchardAction
  ironwoodActions : List CompactOrchardAction
  vin : List CompactTxIn
  vout : List TxOut
  deriving DecidableEq

structure ChainMetadata where
  saplingCommitmentTreeSize : Nat
  orchardCommitmentTreeSize : Nat
  ironwoodCommitmentTreeSize : Nat
  deriving DecidableEq

structure CompactBlock where
  height : Nat
  hash : Bytes
  prevHash : Bytes
  time : Nat
  header : Bytes
  vtx : List CompactTx
  chainMetadata : Option ChainMetadata
  deriving DecidableEq

structure TreeState where
  network : String
  height : Nat
  hash : String
  time : Nat
  saplingTree : String
  orchardTree : String
  ironwoodTree : String

structure SubtreeRoot where
  rootHash : Bytes
  completingBlockHash : Bytes
  completingBlockHeight : Nat
  deriving DecidableEq

structure RawTransaction where
  data : Bytes
  height : Nat

-- The fields of a `LightdInfo` that are read.
structure LightdInfo where
  chainName : String
  saplingActivationHeight : Nat
  blockHeight : Nat

structure GetAddressUtxosReply where
  address : String
  txid : Bytes
  index : Nat
  script : Bytes
  valueZat : Int
  height : Nat
  deriving DecidableEq

class Debug (α : Type) where
  debug : α → String

open Debug (debug)

def debugStruct (name : String) (fields : List (String × String)) : String :=
  name ++ " \x7b " ++ ", ".intercalate (fields.map fun (field, value) => field ++ ": " ++ value) ++ " \x7d"

section Debug

variable {α β : Type} [Debug α] [Debug β]

instance : Debug Nat := ⟨toString⟩

instance : Debug Int := ⟨toString⟩

instance : Debug UInt8 := ⟨fun byte => toString byte.toNat⟩

instance : Debug String := ⟨String.quote⟩

instance : Debug (List α) := ⟨fun xs => "[" ++ ", ".intercalate (xs.map debug) ++ "]"⟩

instance : Debug (α × β) := ⟨fun x => "(" ++ debug x.1 ++ ", " ++ debug x.2 ++ ")"⟩

instance : Debug (Option α) where
  debug
    | none => "None"
    | some x => "Some(" ++ debug x ++ ")"

end Debug

instance : Debug CompactTxIn where
  debug x := debugStruct "CompactTxIn"
    [("prevout_txid", debug x.prevoutTxid), ("prevout_index", debug x.prevoutIndex)]

instance : Debug TxOut where
  debug x := debugStruct "TxOut" [("value", debug x.value), ("script_pub_key", debug x.scriptPubKey)]

instance : Debug CompactSaplingOutput where
  debug x := debugStruct "CompactSaplingOutput"
    [("cmu", debug x.cmu), ("ephemeral_key", debug x.ephemeralKey), ("ciphertext", debug x.ciphertext)]

instance : Debug CompactOrchardAction where
  debug x := debugStruct "CompactOrchardAction"
    [("nullifier", debug x.nullifier), ("cmx", debug x.cmx), ("ephemeral_key", debug x.ephemeralKey),
      ("ciphertext", debug x.ciphertext)]

instance : Debug ChainMetadata where
  debug x := debugStruct "ChainMetadata"
    [("sapling_commitment_tree_size", debug x.saplingCommitmentTreeSize),
      ("orchard_commitment_tree_size", debug x.orchardCommitmentTreeSize),
      ("ironwood_commitment_tree_size", debug x.ironwoodCommitmentTreeSize)]

instance : Debug SubtreeRoot where
  debug x := debugStruct "SubtreeRoot"
    [("root_hash", debug x.rootHash), ("completing_block_hash", debug x.completingBlockHash),
      ("completing_block_height", debug x.completingBlockHeight)]

instance : Debug GetAddressUtxosReply where
  debug x := debugStruct "GetAddressUtxosReply"
    [("address", debug x.address), ("txid", debug x.txid), ("index", debug x.index), ("script", debug x.script),
      ("value_zat", debug x.valueZat), ("height", debug x.height)]

structure Wire where
  blockId : Bytes → Except String BlockId
  compactBlock : Bytes → Except String CompactBlock
  treeState : Bytes → Except String TreeState
  subtreeRoot : Bytes → Except String SubtreeRoot
  rawTransaction : Bytes → Except String RawTransaction
  lightdInfo : Bytes → Except String LightdInfo
  addressUtxos : Bytes → Except String (List GetAddressUtxosReply)
  -- The first 16 bytes of the hash.
  digest : Bytes → Nat

def u32Range : Nat := 4294967296

def asU32 (n : Nat) : Nat := n % u32Range

theorem asU32_of_lt {n : Nat} (h : n < u32Range) : asU32 n = n := Nat.mod_eq_of_lt h

inductive Pool where
  | sapling
  | orchard
  | ironwood
  deriving DecidableEq

def Pool.name : Pool → String
  | .sapling => "sapling"
  | .orchard => "orchard"
  | .ironwood => "ironwood"

end Loadtest
