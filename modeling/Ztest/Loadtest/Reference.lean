import Ztest.Lib.Dialog
import Ztest.Loadtest.Proto
import Mathlib.Algebra.Ring.Int.Defs

/-!
This module contains `reference.rs`: zebra's answers as each wire response must read. `Call` is a
request to zebra's JSON-RPC or a look at the clock, a method of `Zebra` is a dialog of such calls. The
hex strings of the JSON are the bytes they encode. A funding transaction never changes, so that the
cache of their outputs is left out and `prevout` is one call.
-/

namespace Loadtest

inductive Input where
  | coinbase
  | spend (txid : Bytes) (vout : Nat)

structure Output where
  value : Int
  script : Bytes

structure SaplingOutput where
  cmu : Bytes
  ephemeralKey : Bytes
  ciphertext : Bytes

structure JoinSplit where
  vpubOld : Int
  vpubNew : Int

structure Action where
  nullifier : Bytes
  cmx : Bytes
  ephemeralKey : Bytes
  ciphertext : Bytes

structure Actions where
  actions : List Action
  balance : Int

structure Tx where
  txid : Bytes
  vin : List Input
  vout : List Output
  spends : List Bytes
  outputs : List SaplingOutput
  joinsplits : List JoinSplit
  orchard : Option Actions
  ironwood : Option Actions
  saplingBalance : Option Int

structure Block where
  hash : Bytes
  height : Nat
  time : Nat
  prev : Option Bytes
  tx : List Tx
  sapling : Nat
  orchard : Nat
  ironwood : Nat

structure TreeStateJson where
  hash : String
  height : Nat
  time : Nat
  sapling : String
  orchard : String
  ironwood : String

structure Subtree where
  root : Bytes
  endHeight : Nat

structure Utxo where
  txid : Bytes
  index : Nat
  script : Bytes
  satoshis : Int
  height : Nat

inductive ReferenceError where
  | rpc
  | shape (method : String)
  deriving DecidableEq

inductive Call where
  | now
  | tip
  | getblockhash (height : Nat)
  | getblock (height : Nat)
  | prevout (txid : Bytes) (vout : Nat)
  | gettreestate (height : Nat)
  | getsubtreesbyindex (pool : Pool)
  | getaddressutxos (address : String)
  | getrawmempool
  | getrawtransaction (txid : Bytes)

def Call.Reply : Call → Type
  | .now => Nat
  | .tip => Except ReferenceError Nat
  | .getblockhash _ => Except ReferenceError Bytes
  | .getblock _ => Except ReferenceError Block
  | .prevout _ _ => Except ReferenceError Int
  | .gettreestate _ => Except ReferenceError TreeStateJson
  | .getsubtreesbyindex _ => Except ReferenceError (List Subtree)
  | .getaddressutxos _ => Except ReferenceError (List Utxo)
  | .getrawmempool => Except ReferenceError (List Bytes)
  | .getrawtransaction _ => Except ReferenceError Bytes

abbrev Ask := Dialog Call Call.Reply

abbrev Answers := List (Sigma Call.Reply)

namespace Rpc

def now : Ask Nat := .ask .now .done

def tip : Ask (Except ReferenceError Nat) := .ask .tip .done

def getblockhash (height : Nat) : Ask (Except ReferenceError Bytes) :=
  .ask (.getblockhash height) .done

def getblock (height : Nat) : Ask (Except ReferenceError Block) := .ask (.getblock height) .done

def prevout (txid : Bytes) (vout : Nat) : Ask (Except ReferenceError Int) :=
  .ask (.prevout txid vout) .done

def gettreestate (height : Nat) : Ask (Except ReferenceError TreeStateJson) :=
  .ask (.gettreestate height) .done

def getsubtreesbyindex (pool : Pool) : Ask (Except ReferenceError (List Subtree)) :=
  .ask (.getsubtreesbyindex pool) .done

def getaddressutxos (address : String) : Ask (Except ReferenceError (List Utxo)) :=
  .ask (.getaddressutxos address) .done

def getrawmempool : Ask (Except ReferenceError (List Bytes)) := .ask .getrawmempool .done

def getrawtransaction (txid : Bytes) : Ask (Except ReferenceError Bytes) :=
  .ask (.getrawtransaction txid) .done

end Rpc

-- `[u8; 32]`, display order to protocol order.
def reversed (display : Bytes) (method : String) : Except ReferenceError Bytes :=
  if display.length = 32 then .ok display.reverse else .error (.shape method)

def compactCiphertext : Nat := 52

def ciphertextPrefix (full : Bytes) : Except ReferenceError Bytes :=
  if compactCiphertext ≤ full.length then
    .ok (full.take compactCiphertext)
  else
    .error (.shape "getblock")

def size (n : Nat) : Except ReferenceError Nat :=
  if n < u32Range then .ok n else .error (.shape "getblock")

inductive Fees where
  | checked
  | asServed (served : CompactBlock)

def compactAction (a : Action) : Except ReferenceError CompactOrchardAction := do
  return ⟨a.nullifier, a.cmx, a.ephemeralKey, ← ciphertextPrefix a.ciphertext⟩

def compactOutput (o : SaplingOutput) : Except ReferenceError CompactSaplingOutput := do
  return ⟨← reversed o.cmu "getblock", ← reversed o.ephemeralKey "getblock",
    ← ciphertextPrefix o.ciphertext⟩

-- The inputs of a coinbase are left out.
def compactTxIn : Input → Except ReferenceError (Option CompactTxIn)
  | .coinbase => .ok none
  | .spend txid vout => do return some ⟨← reversed txid "getblock", vout⟩

def txOut (o : Output) : Except ReferenceError TxOut :=
  if 0 ≤ o.value then .ok ⟨o.value.toNat, o.script⟩ else .error (.shape "getblock")

def bundleActions (bundle : Option Actions) : List Action :=
  match bundle with
  | none => []
  | some b => b.actions

def compactTx (index : Nat) (tx : Tx) (fee : Nat) : Except ReferenceError CompactTx := do
  return {
    index := index
    txid := ← reversed tx.txid "getblock"
    fee := fee
    spends := ← tx.spends.mapM (reversed · "getblock")
    outputs := ← tx.outputs.mapM compactOutput
    actions := ← (bundleActions tx.orchard).mapM compactAction
    ironwoodActions := ← (bundleActions tx.ironwood).mapM compactAction
    vin := (← tx.vin.mapM compactTxIn).filterMap id
    vout := ← tx.vout.mapM txOut
  }

-- The fee of the transaction that the served block has at `index`, matched on its `index` field.
def servedFee (served : CompactBlock) (index : Nat) : Nat :=
  match served.vtx.find? (·.index == index) with
  | some tx => tx.fee
  | none => 0

namespace Zebra

def blockHash (height : Nat) : Ask (Except ReferenceError Bytes) := do
  match ← Rpc.getblockhash height with
  | .error e => return .error e
  | .ok display => return reversed display "getblockhash"

def inputSum : List Input → Ask (Except ReferenceError (Option Int))
  | [] => return .ok (some 0)
  | .coinbase :: _ => return .ok none
  | .spend txid vout :: rest => do
    match ← Rpc.prevout txid vout with
    | .error e => return .error e
    | .ok value =>
      match ← inputSum rest with
      | .error e => return .error e
      | .ok none => return .ok none
      | .ok (some sum) => return .ok (some (value + sum))

def shieldedBalance (tx : Tx) : Int :=
  tx.saplingBalance.getD 0 + (tx.orchard.map (·.balance)).getD 0
    + (tx.ironwood.map (·.balance)).getD 0
    + (tx.joinsplits.map fun js => js.vpubNew - js.vpubOld).sum

def fee (tx : Tx) : Ask (Except ReferenceError Nat) := do
  match ← inputSum tx.vin with
  | .error e => return .error e
  | .ok none => return .ok 0
  | .ok (some inputs) =>
    let fee := inputs - (tx.vout.map (·.value)).sum + shieldedBalance tx
    if 0 ≤ fee ∧ fee < u32Range then
      return .ok fee.toNat
    else
      return .error (.shape "getblock")

def compactTxs (fees : Fees) : Nat → List Tx → Ask (Except ReferenceError (List CompactTx))
  | _, [] => return .ok []
  | index, tx :: rest => do
    let paid ← match fees with
      | .asServed served => pure (.ok (servedFee served index))
      | .checked => fee tx
    match paid with
    | .error e => return .error e
    | .ok paid =>
      match compactTx index tx paid with
      | .error e => return .error e
      | .ok compact =>
        match ← compactTxs fees (index + 1) rest with
        | .error e => return .error e
        | .ok vtx => return .ok (compact :: vtx)

def prevHash (block : Block) : Except ReferenceError Bytes :=
  match block.prev with
  | some prev => reversed prev "getblock"
  | none => .ok (List.replicate 32 0)

def compactHead (block : Block) (vtx : List CompactTx) : Except ReferenceError CompactBlock := do
  return {
    height := block.height
    hash := ← reversed block.hash "getblock"
    prevHash := ← prevHash block
    time := block.time
    header := []
    vtx := vtx
    chainMetadata := some ⟨← size block.sapling, ← size block.orchard, ← size block.ironwood⟩
  }

def compactBlock (height : Nat) (fees : Fees) : Ask (Except ReferenceError CompactBlock) := do
  match ← Rpc.getblock height with
  | .error e => return .error e
  | .ok block =>
    if block.height ≠ height then
      return .error (.shape "getblock")
    else
      match ← compactTxs fees 0 block.tx with
      | .error e => return .error e
      | .ok vtx => return compactHead block vtx

-- The network comes from the configuration of the server and is left out.
def treeState (height : Nat) : Ask (Except ReferenceError TreeState) := do
  match ← Rpc.gettreestate height with
  | .error e => return .error e
  | .ok state =>
    return .ok ⟨"", state.height, state.hash, state.time, state.sapling, state.orchard,
      state.ironwood⟩

def completed : List Subtree → Ask (Except ReferenceError (List SubtreeRoot))
  | [] => return .ok []
  | subtree :: rest => do
    match ← blockHash subtree.endHeight with
    | .error e => return .error e
    | .ok hash =>
      match ← completed rest with
      | .error e => return .error e
      | .ok roots => return .ok (⟨subtree.root, hash.reverse, subtree.endHeight⟩ :: roots)

def subtreeRoots (pool : Pool) : Ask (Except ReferenceError (List SubtreeRoot)) := do
  match ← Rpc.getsubtreesbyindex pool with
  | .error e => return .error e
  | .ok subtrees => completed subtrees

def utxoReply (address : String) (utxo : Utxo) : Except ReferenceError GetAddressUtxosReply := do
  let txid ← reversed utxo.txid "getaddressutxos"
  if utxo.index < 2147483648 then
    return ⟨address, txid, utxo.index, utxo.script, utxo.satoshis, utxo.height⟩
  else
    .error (.shape "getaddressutxos")

-- The order of the wire: height, txid, index.
def utxoLe (a b : GetAddressUtxosReply) : Bool :=
  if a.height ≠ b.height then
    a.height < b.height
  else if a.txid ≠ b.txid then
    a.txid < b.txid
  else
    a.index ≤ b.index

def addressUtxos (address : String) : Ask (Except ReferenceError (List GetAddressUtxosReply)) := do
  match ← Rpc.getaddressutxos address with
  | .error e => return .error e
  | .ok listed =>
    match listed.mapM (utxoReply address) with
    | .error e => return .error e
    | .ok utxos => return .ok (utxos.mergeSort utxoLe)

end Zebra

def CompactTx.isShielded (tx : CompactTx) : Bool :=
  !(tx.spends.isEmpty && tx.outputs.isEmpty && tx.actions.isEmpty && tx.ironwoodActions.isEmpty)

def shielded (block : CompactBlock) : CompactBlock :=
  let vtx := block.vtx.map fun tx => { tx with vin := [], vout := [] }
  { block with vtx := vtx.filter (·.isShielded) }

def differing {α : Type} [DecidableEq α] (path : String) (expected served : α) (shown : α → String) : Option String :=
  if expected = served then none
  else some (path ++ ": expected " ++ shown expected ++ ", served " ++ shown served)

open Debug (debug)

-- The `{:?}` of a text in hex.
def debugHex (bytes : Bytes) : String := debug (hexEncode bytes)

def debugSpends (nullifiers : List Bytes) : String :=
  "[" ++ ", ".intercalate (nullifiers.map fun nf => debugStruct "CompactSaplingSpend" [("nf", debug nf)]) ++ "]"

def outputsDiff (path : String)
    : Nat → List CompactSaplingOutput → List CompactSaplingOutput → Option String
  | j, x :: xs, y :: ys =>
    (differing (path ++ ".outputs[" ++ toString j ++ "]") x y debug).or (outputsDiff path (j + 1) xs ys)
  | _, _, _ => none

def txDiff (i : Nat) (a b : CompactTx) : Option String :=
  let path := "vtx[" ++ toString i ++ "]"
  differing (path ++ ".index") a.index b.index debug
    |>.or (differing (path ++ ".txid") a.txid b.txid debugHex)
    |>.or (differing (path ++ ".fee") a.fee b.fee debug)
    |>.or (differing (path ++ ".spends") a.spends b.spends debugSpends)
    |>.or (differing (path ++ ".outputs.len") a.outputs.length b.outputs.length debug)
    |>.or (outputsDiff path 0 a.outputs b.outputs)
    |>.or (differing (path ++ ".actions") a.actions b.actions debug)
    |>.or (differing (path ++ ".ironwood_actions") a.ironwoodActions b.ironwoodActions debug)
    |>.or (differing (path ++ ".vin") a.vin b.vin debug)
    |>.or (differing (path ++ ".vout") a.vout b.vout debug)

def vtxDiff : Nat → List CompactTx → List CompactTx → Option String
  | i, a :: as, b :: bs => (txDiff i a b).or (vtxDiff (i + 1) as bs)
  | _, _, _ => none

def blockDiff (expected served : CompactBlock) : Option String :=
  if expected = served then
    none
  else
    differing "height" expected.height served.height debug
      |>.or (differing "hash" expected.hash served.hash debugHex)
      |>.or (differing "prev_hash" expected.prevHash served.prevHash debugHex)
      |>.or (differing "time" expected.time served.time debug)
      |>.or (differing "header" expected.header served.header debugHex)
      |>.or (differing "chain_metadata" expected.chainMetadata served.chainMetadata debug)
      |>.or (differing "vtx.len" expected.vtx.length served.vtx.length debug)
      |>.or (vtxDiff 0 expected.vtx served.vtx)
      |>.or (some "unnamed field differs (proto grew a field this diff does not walk)")

def treeStateDiff (expected served : TreeState) : Option String :=
  differing "height" expected.height served.height toString
    |>.or (differing "hash" expected.hash served.hash id)
    |>.or (differing "time" expected.time served.time toString)
    |>.or (differing "sapling_tree" expected.saplingTree served.saplingTree id)
    |>.or (differing "orchard_tree" expected.orchardTree served.orchardTree id)
    |>.or (differing "ironwood_tree" expected.ironwoodTree served.ironwoodTree id)

end Loadtest
