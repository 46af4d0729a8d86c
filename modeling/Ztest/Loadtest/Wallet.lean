import Ztest.Lib.Dialog
import Ztest.Loadtest.Ledger
import Ztest.Loadtest.Wire

/-!
This module contains the simulated wallets of `wallet.rs` as dialogs. A `Request` goes to the server, to
the shared ledger, or asks what the session is to do next; the server refuses a request with `none`. A
loop that ends only with the session has a bound on its turns. Pacing, measuring and backing off are
left out.

The `link` of a block range is not sent. It is the hash that the caller holds of the block before.
-/

namespace Loadtest

inductive Turn where
  | stop
  | burst
  | poll
  deriving DecidableEq

inductive Request where
  | latestBlock
  | block (height : Nat)
  | blockRange (start stop : Nat) (link : Option Bytes)
  | treeState (height : Nat)
  | subtreeRoots (pool : Pool) (start : Nat)
  | taddressTxids (address : String) (start stop : Nat)
  | addressUtxos (address : String)
  | lightdInfo
  | mempoolTx
  | stopped
  | turn
  | violated (check : String) (height : Nat) (detail : String)
  | answer (key : Key) (digest : Nat) (stable : Bool) (audit : Audit)
  | shieldedBlock (height : Nat) (message : Bytes)
  | queue (audit : Audit)

-- A stream is its messages and whether it ended well.
def Request.Reply : Request → Type
  | .latestBlock => Option Bytes
  | .block _ => Option Bytes
  | .blockRange .. => Option (List Bytes × Bool)
  | .treeState _ => Option Bytes
  | .subtreeRoots .. => Option (List Bytes)
  | .taddressTxids .. => Option (List Bytes)
  | .addressUtxos _ => Option Bytes
  | .lightdInfo => Option Bytes
  | .mempoolTx => Option Bytes
  | .stopped => Bool
  | .turn => Turn
  | .violated .. => Unit
  | .answer .. => Unit
  | .shieldedBlock .. => Unit
  | .queue _ => Unit

abbrev Talk := Dialog Request Request.Reply

namespace Grpc

def getLatestBlock : Talk (Option Bytes) := .ask .latestBlock .done

def getBlock (height : Nat) : Talk (Option Bytes) := .ask (.block height) .done

def getBlockRange (start stop : Nat) (link : Option Bytes) : Talk (Option (List Bytes × Bool)) :=
  .ask (.blockRange start stop link) .done

def getTreeState (height : Nat) : Talk (Option Bytes) := .ask (.treeState height) .done

def getSubtreeRoots (pool : Pool) (start : Nat) : Talk (Option (List Bytes)) :=
  .ask (.subtreeRoots pool start) .done

def getTaddressTxids (address : String) (start stop : Nat) : Talk (Option (List Bytes)) :=
  .ask (.taddressTxids address start stop) .done

def getAddressUtxos (address : String) : Talk (Option Bytes) := .ask (.addressUtxos address) .done

def getLightdInfo : Talk (Option Bytes) := .ask .lightdInfo .done

def mempoolTx : Talk (Option Bytes) := .ask .mempoolTx .done

end Grpc

def stopped : Talk Bool := .ask .stopped .done

def turn : Talk Turn := .ask .turn .done

def violated (check : String) (height : Nat) (detail : String) : Talk Unit :=
  .ask (.violated check height detail) .done

def answer (key : Key) (digest : Nat) (stable : Bool) (audit : Audit) : Talk Unit :=
  .ask (.answer key digest stable audit) .done

def shieldedBlock (height : Nat) (message : Bytes) : Talk Unit :=
  .ask (.shieldedBlock height message) .done

def queue (audit : Audit) : Talk Unit := .ask (.queue audit) .done

structure Cx where
  wire : Wire
  stableBelow : Nat
  -- The `index`th address of the `round`th sync of wallet `id`, which has no history.
  unusedAddress : UInt64 → UInt64 → Nat → String

def verifyBlocks : Nat := 10

def lightdAuditEvery : UInt64 := 64

def unusedWalletAddresses : Nat := 21

def transparentLookback : Nat := 100

def pools : List Pool := [.sapling, .orchard, .ironwood]

namespace Cx

variable (cx : Cx)

def latestHeight : Talk (Option Nat) := do
  match ← Grpc.getLatestBlock with
  | none => return none
  | some latest =>
    match cx.wire.blockId latest with
    | .error _ => return none
    | .ok id => return some (asU32 id.height)

-- The rest of a stream whose next block is to be at `next`.
def receiveBlocks (start stop : Nat) (clean : Bool) (next : Nat) (link : Option Bytes)
    (messages : List Bytes) : Talk (Option Bytes) :=
  match messages with
  | [] =>
    if clean then
      if next ≠ stop + 1 then do
        violated "range_complete" next
          ("[" ++ toString start ++ ", " ++ toString stop ++ "] ended at " ++ toString next)
        return none
      else
        return link
    else
      return none
  | message :: rest =>
    match blockHead message with
    | none => do
      violated "block_walk" next "CompactBlock head will not walk"
      return none
    | some head =>
      if head.height ≠ next then do
        violated "range_contiguous" next
          ("expected " ++ toString next ++ ", served " ++ toString head.height)
        return none
      else if link.any (· != head.prevHash) then do
        violated "chain_link" next "prev_hash ≠ the previous block's hash"
        return none
      else do
        shieldedBlock (asU32 next) message
        if ← stopped then
          return none
        else
          receiveBlocks start stop clean (next + 1) (some head.hash) rest

def streamBlocks (start stop : Nat) (link : Option Bytes) : Talk (Option Bytes) := do
  match ← Grpc.getBlockRange start stop link with
  | none => return none
  | some (messages, clean) => receiveBlocks start stop clean start link messages

def treeState (height : Nat) : Talk Unit := do
  match ← Grpc.getTreeState height with
  | none => return ()
  | some state =>
    answer (.treeState height) (cx.wire.digest state) (height < cx.stableBelow)
      (.treeState height state height)

def rootsFrom (pool : Pool) (start : Nat) : Talk (Option (List Bytes)) := do
  match ← Grpc.getSubtreeRoots pool start with
  | none => return none
  | some roots =>
    answer (.roots pool start) (cx.wire.digest roots.flatten) false (.subtrees pool start 0 roots)
    return some roots

def subtreeRoots (pool : Pool) (held : Nat) (turns : Nat) (gained : List Bytes)
    : Talk (Option (List Bytes)) :=
  match turns with
  | 0 => return none
  | turns + 1 => do
    match ← cx.rootsFrom pool (asU32 (held + gained.length)) with
    | none => return none
    | some [] => return some gained
    | some pass => subtreeRoots pool held turns (gained ++ pass)

def taddressTxids (address : String) (start stop : Nat) : Talk (Option Unit) := do
  match ← Grpc.getTaddressTxids address start stop with
  | none => return none
  | some [] => return some ()
  | some served =>
    violated "taddress_txids" start
      (address ++ " (never used): " ++ toString served.length ++ " transactions served")
    return some ()

structure Synced where
  tip : Nat := 0
  roots : Pool → Nat := fun _ => 0

def burstRoots (turns : Nat) : List Pool → Synced → Talk Synced
  | [], synced => return synced
  | pool :: rest, synced => do
    match ← cx.subtreeRoots pool (synced.roots pool) turns [] with
    | none => burstRoots turns rest synced
    | some gained =>
      let held := synced.roots pool + asU32 gained.length
      burstRoots turns rest { synced with roots := Function.update synced.roots pool held }

def burstBlock (tip : Nat) : Talk Unit := do
  match ← Grpc.getBlock tip with
  | none => return ()
  | some block =>
    let answered := fun head : Option BlockHead =>
      "GetBlock(" ++ toString (asU32 tip) ++ ") answered " ++ Debug.debug head
    match blockHead block with
    | none => violated "block_full" tip (answered none)
    | some head =>
      if head.height = tip then
        answer (.block (asU32 tip) head.hash) (cx.wire.digest block) false
          (.full (asU32 tip) block (asU32 tip))
      else
        violated "block_full" tip (answered (some head))

def burst (turns : Nat) (synced : Synced) : Talk Synced := do
  match ← Grpc.getLatestBlock with
  | none => return synced
  | some latest =>
    match cx.wire.blockId latest with
    | .error _ =>
      violated "latest_block" 0 "undecodable BlockID"
      return synced
    | .ok tip =>
      answer (.tip tip.height) (cx.wire.digest latest) false (.tip latest)
      cx.treeState (asU32 tip.height)
      let synced ← cx.burstRoots turns pools synced
      let verifyFrom := tip.height - (verifyBlocks - 1)
      let start := min (max verifyFrom (synced.tip + 1)) tip.height
      let _ ← streamBlocks start tip.height none
      cx.burstBlock tip.height
      return { synced with tip := tip.height }

def steadyTurns (turns : Nat) : Nat → Synced → Talk Unit
  | 0, _ => return ()
  | n + 1, synced => do
    match ← turn with
    | .stop => return ()
    | .burst =>
      let synced ← cx.burst turns synced
      steadyTurns turns n synced
    | .poll =>
      let _ ← Grpc.getLatestBlock
      steadyTurns turns n synced

-- A synced wallet opens with a burst of its own.
def steady (turns n : Nat) : Talk Unit := do
  let synced ← cx.burst turns {}
  cx.steadyTurns turns n synced

def mempool : Nat → Talk Unit
  | 0 => return ()
  | n + 1 => do
    match ← Grpc.mempoolTx with
    | none => mempool n
    | some tx =>
      answer (.mempool (cx.wire.digest tx)) (cx.wire.digest tx) true (.mempool tx)
      mempool n

def lightd : Nat → UInt64 → Talk Unit
  | 0, _ => return ()
  | n + 1, asked => do
    match ← Grpc.getLightdInfo with
    | none => lightd n asked
    | some info =>
      if sampled (asked + 1) lightdAuditEvery then
        queue (.lightdInfo info)
        lightd n (asked + 1)
      else
        lightd n (asked + 1)

end Cx

inductive Birthdays where
  | recent (blocks : Nat)
  | between (start stop : Nat)
  | anywhere

-- `[from, to)` within `[lowest, highest)`, never empty.
def Birthdays.span (b : Birthdays) (lowest highest : Nat) : Nat × Nat :=
  let (start, stop) := match b with
    | .recent blocks => (highest - blocks, highest)
    | .between start stop => (start, stop)
    | .anywhere => (lowest, highest)
  let start := min (max start lowest) (max (highest - 1) lowest)
  (start, max (min stop highest) (start + 1))

structure SyncShape where
  birthdays : List Birthdays
  lowest : Nat
  highest : Nat
  activations : Pool → Nat
  batch : Nat
  addresses : List String

def birthday (shape : SyncShape) (id round : UInt64) : Nat :=
  let draw := splitmix64 ((id <<< 32) ||| round)
  let profile := shape.birthdays.getD (draw.toNat % max shape.birthdays.length 1) .anywhere
  let (start, stop) := profile.span shape.lowest shape.highest
  start + (splitmix64 draw).toNat % (stop - start)

structure Shards where
  activations : Pool → Nat
  completing : Pool → List Nat

namespace Shards

-- The pools up to `pool`, the newest first.
def upTo : Pool → List Pool
  | .sapling => [.sapling]
  | .orchard => [.orchard, .sapling]
  | .ironwood => [.ironwood, .orchard, .sapling]

def range (s : Shards) (pool : Pool) (height birthday tip : Nat) : Nat × Nat :=
  let pool := ((upTo pool).find? fun p => s.activations p ≤ height).getD .sapling
  let activation := s.activations pool
  let completing := s.completing pool
  let shards := ((activation :: completing).zip completing).map fun (start, stop) => (start, stop + 1)
  let holding := shards.filter fun (start, stop) => start ≤ height ∧ height < stop
  match holding with
  | first :: rest => (first.1, (rest.getLastD first).2)
  | [] => (completing.getLastD (max activation birthday), tip + 1)

def history (s : Shards) (birthday tip chainTip : Nat) : Nat → Nat → List (Nat × Nat)
  | 0, _ => []
  | turns + 1, next =>
    if next < chainTip then
      let shard := s.range .ironwood next birthday tip
      let stop := min (max shard.2 (next + 1)) chainTip
      (next, stop) :: s.history birthday tip chainTip turns stop
    else
      []

def scanOrder (s : Shards) (birthday tip : Nat) : List (Nat × Nat) :=
  if tip < birthday then
    []
  else
    let verify := (birthday, min (birthday + verifyBlocks) (tip + 1))
    let lowest := pools.foldl (fun low pool => min low (s.range pool tip birthday tip).1)
      (s.range .sapling tip birthday tip).1
    let chainTip := min (max lowest verify.2) (tip + 1)
    let order := verify :: (chainTip, tip + 1)
      :: s.history birthday tip chainTip (chainTip - verify.2) verify.2
    order.filter fun r => r.1 < r.2

end Shards

namespace Cx

variable (cx : Cx)

-- The root listings of an unused wallet, their completing heights by pool.
def completing (turns : Nat) : List Pool → (Pool → List Nat) → Talk (Option (Pool → List Nat))
  | [], heights => return some heights
  | pool :: rest, heights => do
    match ← cx.subtreeRoots pool 0 turns [] with
    | none => return none
    | some roots =>
      let decoded := roots.filterMap fun root => (cx.wire.subtreeRoot root).toOption
      completing turns rest
        (Function.update heights pool (decoded.map fun root => asU32 root.completingBlockHeight))

def unusedTxids (id round : UInt64) (start stop : Nat) : List Nat → Talk (Option Unit)
  | [] => return some ()
  | index :: rest => do
    match ← taddressTxids (cx.unusedAddress id round index) start stop with
    | none => return none
    | some () => unusedTxids id round start stop rest

def streamRanges : List (Nat × Nat) → Option (Nat × Bytes) → Talk (Option Unit)
  | [], _ => return some ()
  | range :: rest, streamed => do
    let link := (streamed.filter fun s => s.1 == range.1).map Prod.snd
    match ← streamBlocks range.1 (range.2 - 1) link with
    | none => return none
    | some hash => streamRanges rest (some (range.2, hash))

def treeStateAbove (birthday sapling height : Nat) : Talk Unit :=
  if sapling < birthday then cx.treeState height else return ()

-- From the addresses on.
def unusedWalletScan (shape : SyncShape) (id round : UInt64) (birthday tip : Nat)
    (heights : Pool → List Nat) : Talk (Option Unit) := do
  let sapling := shape.activations .sapling
  let start := max (birthday - transparentLookback) sapling
  match ← cx.unusedTxids id round start tip (List.range unusedWalletAddresses) with
  | none => return none
  | some () =>
    cx.treeStateAbove birthday sapling birthday
    streamRanges (Shards.scanOrder ⟨shape.activations, heights⟩ birthday tip) none

def unusedWalletSync (shape : SyncShape) (id round : UInt64) (turns : Nat) : Talk (Option Unit) := do
  let birthday := birthday shape id round
  match ← cx.latestHeight with
  | none => return none
  | some tip =>
    cx.treeStateAbove birthday (shape.activations .sapling) (birthday - 1)
    cx.treeState tip
    match ← cx.completing turns pools (fun _ => []) with
    | none => return none
    | some heights => cx.unusedWalletScan shape id round birthday tip heights

def utxo (address : String) (tip : Nat) : Talk Unit := do
  match ← Grpc.getAddressUtxos address with
  | none => return ()
  | some list =>
    answer (.utxos address tip) (cx.wire.digest list) false (.addressUtxos address list tip)

def pick (addresses : List String) (id round : UInt64) (n : UInt64) : String :=
  addresses.getD ((splitmix64 (id ^^^ (round <<< 8) ^^^ n)).toNat % addresses.length) ""

def utxos (addresses : List String) (id round : UInt64) (tip : Nat) : Talk Unit :=
  if addresses = [] then
    return ()
  else do
    cx.utxo (pick addresses id round 0) tip
    cx.utxo (pick addresses id round 1) tip

def batches (batch tip : Nat) : Nat → Nat → Option Bytes → Talk (Option Unit)
  | 0, _, _ => return none
  | turns + 1, start, link =>
    if start ≤ tip then do
      let last := min (start + batch - 1) tip
      cx.treeState (start - 1)
      match ← streamBlocks start last link with
      | none => return none
      | some hash => batches batch tip turns (last + 1) (some hash)
    else
      return some ()

def batchedSync (shape : SyncShape) (id round : UInt64) (turns : Nat) : Talk (Option Unit) := do
  match ← cx.latestHeight with
  | none => return none
  | some tip =>
    let _ ← cx.rootsFrom .sapling 0
    let _ ← cx.rootsFrom .orchard 0
    let _ ← cx.rootsFrom .ironwood 0
    cx.utxos shape.addresses id round tip
    cx.batches shape.batch tip turns (birthday shape id round) none

end Cx
end Loadtest
