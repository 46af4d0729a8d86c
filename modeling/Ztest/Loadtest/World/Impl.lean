import Ztest.Loadtest.Audit.Impl
import Ztest.Loadtest.Wallet

/-!
This module contains a load test against a correct server. One chain is served by zebra and by the
server, it is extended or reorganised between any two requests. `Node` is all there is to say about the
blocks and what zebra and the server answer of them; a chain is the hashes of its blocks from height
zero on. The sessions of the wallets and the auditor take turns, one request or one of zebra's replies
at a time.

The chain from which an answer was computed is kept beside it, the code does not know it.
-/

namespace Loadtest

abbrev Hash := { h : Bytes // h.length = 32 }

abbrev Chain := List Hash

def Chain.height (chain : Chain) : Nat := chain.length - 1

/--
A block: what zebra says of it, and the messages in which the server tells it.
-/
structure BlockData where
  block : Block
  state : TreeStateJson
  completes : Pool → List Bytes
  compact : CompactBlock
  id : Bytes
  full : Bytes
  shielded : Bytes
  treeState : Bytes
  roots : Pool → List Bytes
  -- The `LightdInfo` while the block is the tip.
  info : Bytes

structure Node where
  data : Hash → Option BlockData
  funding : Bytes → Nat → Option Int
  utxos : String → Chain → List Utxo
  addressUtxos : String → Chain → Bytes
  txids : String → Chain → Nat → Nat → List Bytes
  mempoolTx : Bytes → Bytes

-- What is not decided by the chain: who is refused, where a stream is cut, the clock and the mempool.
structure Choice where
  refused : Bool := false
  cut : Option Nat := none
  stop : Bool := false
  turn : Turn := .burst
  now : Nat := 0
  listed : List Bytes := []
  raw : Bytes := []

def Choice.reply {α : Type} (c : Choice) (answer : Option α) : Except ReferenceError α :=
  match c.refused, answer with
  | false, some a => .ok a
  | _, _ => .error .rpc

def Choice.served {α : Type} (c : Choice) (answer : Option α) : Option α :=
  if c.refused then none else answer

-- A stream that is cut does not end well.
def Choice.stream (c : Choice) (messages : List Bytes) : List Bytes × Bool :=
  match c.cut with
  | none => (messages, true)
  | some n => (messages.take n, false)

namespace Node

variable (node : Node)

def blockAt (chain : Chain) (height : Nat) : Option BlockData := chain[height]?.bind node.data

def linked : Nat → Bytes → Chain → Bool
  | _, _, [] => true
  | height, prev, h :: rest =>
    match node.data h with
    | none => false
    | some b =>
      b.compact.height == height && b.compact.prevHash == prev && linked (height + 1) h.val rest

-- Heights are below 2³¹.
def valid (chain : Chain) : Bool :=
  node.linked 0 (List.replicate 32 0) chain && chain ≠ [] && chain.length ≤ 2147483648

-- What each block of a chain adds to a listing.
def collect (f : BlockData → List α) : Chain → List α
  | [] => []
  | h :: rest =>
    (match node.data h with
      | none => []
      | some b => f b) ++ collect f rest

def subtrees (chain : Chain) (pool : Pool) : List Subtree :=
  node.collect (fun b => (b.completes pool).map (⟨·, b.compact.height⟩)) chain

def rootMessages (chain : Chain) (pool : Pool) : List Bytes :=
  node.collect (·.roots pool) chain

def shieldedMessages (chain : Chain) : List Bytes := node.collect (fun b => [b.shielded]) chain

def zebra (chain : Chain) (c : Choice) : (q : Call) → q.Reply
  | .now => c.now
  | .tip => c.reply (some chain.height)
  | .getblockhash height => c.reply (chain[height]?.map (·.val.reverse))
  | .getblock height => c.reply ((node.blockAt chain height).map (·.block))
  | .prevout txid vout => c.reply (node.funding txid vout)
  | .gettreestate height => c.reply ((node.blockAt chain height).map (·.state))
  | .getsubtreesbyindex pool => c.reply (some (node.subtrees chain pool))
  | .getaddressutxos address => c.reply (some (node.utxos address chain))
  | .getrawmempool => c.reply (some c.listed)
  | .getrawtransaction _ => c.reply (some c.raw)

-- The messages of a range that reaches past the tip stop there.
def rangeMessages (chain : Chain) (start stop : Nat) : List Bytes :=
  node.shieldedMessages ((chain.take (stop + 1)).drop start)

def serve (chain : Chain) (c : Choice) : (q : Request) → q.Reply
  | .latestBlock => c.served ((node.blockAt chain chain.height).map (·.id))
  | .block height => c.served ((node.blockAt chain height).map (·.full))
  | .blockRange start stop _ => c.served (some (c.stream (node.rangeMessages chain start stop)))
  | .treeState height => c.served ((node.blockAt chain height).map (·.treeState))
  | .subtreeRoots pool start => c.served (some ((node.rootMessages chain pool).drop start))
  | .taddressTxids address start stop => c.served (some (node.txids address chain start stop))
  | .addressUtxos address => c.served (some (node.addressUtxos address chain))
  | .lightdInfo => c.served ((node.blockAt chain chain.height).map (·.info))
  | .mempoolTx => c.served (some (node.mempoolTx c.raw))
  | .stopped => c.stop
  | .turn => c.turn
  | .violated .. => ()
  | .answer .. => ()
  | .shieldedBlock .. => ()
  | .queue _ => ()

end Node

def Request.isServed : Request → Bool
  | .stopped => false
  | .turn => false
  | .violated .. => false
  | .answer .. => false
  | .shieldedBlock .. => false
  | .queue _ => false
  | _ => true

def Ledger.tell (wire : Wire) (l : Ledger) : Request → Ledger
  | .violated check height detail => l.violated check height detail
  | .answer key digest stable audit => l.answer key digest stable audit
  | .shieldedBlock height message => l.shieldedBlock wire height message
  | .queue audit => l.queue audit
  | _ => l

inductive Wallet where
  | batchedSync (shape : SyncShape) (id round : UInt64) (turns : Nat)
  | unusedWalletSync (shape : SyncShape) (id round : UInt64) (turns : Nat)
  | steady (turns n : Nat)
  | mempool (n : Nat)
  | lightd (id : UInt64) (n : Nat)

def Wallet.talk (cx : Cx) : Wallet → Talk Unit
  | .batchedSync shape id round turns => do
    let _ ← cx.batchedSync shape id round turns
    return ()
  | .unusedWalletSync shape id round turns => do
    let _ ← cx.unusedWalletSync shape id round turns
    return ()
  | .steady turns n => cx.steady turns n
  | .mempool n => cx.mempool n
  | .lightd id n => Cx.lightd n id

structure Session where
  talk : Talk Unit
  -- The chain of its last reply.
  seen : Chain

structure World where
  chain : Chain
  auditing : Auditing
  -- Of the answers that are queued, and of the one taken off the queue last.
  origins : List Chain
  origin : Chain
  sessions : List Session

namespace World

inductive Input where
  | extend (h : Hash)
  | reorg (keep : Nat) (new : Chain)
  | spawn (wallet : Wallet)
  | act (i : Nat) (choice : Choice)
  | recv
  | zebra (choice : Choice)
  | go
  | close
  | wake
  | deadline

def init (cx : Cx) (chain : Chain) (expect : Expect) (now : Nat) (auditEvery : UInt64)
    (capacity : Nat) : World where
  chain := chain
  auditing := .init expect now (.new cx.stableBelow auditEvery capacity)
  origins := []
  origin := []
  sessions := []

variable (cx : Cx) (node : Node)

def act (w : World) (i : Nat) (choice : Choice) : Except Run.Disabled World :=
  match w.sessions[i]? with
  | some ⟨.ask q k, seen⟩ =>
    let seen' := if q.isServed then w.chain else seen
    let ledger := w.auditing.ledger.tell cx.wire q
    .ok { w with
      auditing := { w.auditing with ledger := ledger }
      origins :=
        if w.auditing.ledger.audits.length < ledger.audits.length then w.origins ++ [seen]
        else w.origins
      sessions := w.sessions.set i ⟨k (node.serve w.chain choice q), seen'⟩ }
  | _ => .error .disabled

def recv (w : World) : Except Run.Disabled World :=
  match w.auditing.next cx.wire .recv with
  | .error e => .error e
  | .ok auditing =>
    match w.origins with
    | [] => .ok { w with auditing := auditing }
    | origin :: rest => .ok { w with auditing := auditing, origin := origin, origins := rest }

def next (w : World) : Input → Except Run.Disabled World
  | .extend h =>
    if node.valid (w.chain ++ [h]) then .ok { w with chain := w.chain ++ [h] } else .error .disabled
  | .reorg keep new =>
    if cx.stableBelow ≤ keep ∧ keep ≤ w.chain.length ∧ w.chain.length < keep + buried
        ∧ node.valid (w.chain.take keep ++ new) then
      .ok { w with chain := w.chain.take keep ++ new }
    else
      .error .disabled
  | .spawn wallet => .ok { w with sessions := w.sessions ++ [⟨wallet.talk cx, w.chain⟩] }
  | .act i choice => w.act cx node i choice
  | .recv => w.recv cx
  | .zebra choice =>
    (w.auditing.reply (node.zebra w.chain choice)).map fun auditing => { w with auditing := auditing }
  | .go => (w.auditing.go cx.wire).map fun auditing => { w with auditing := auditing }
  | .close => .ok { w with auditing.ledger := w.auditing.ledger.close }
  | .wake => w.auditing.wake.map fun auditing => { w with auditing := auditing }
  | .deadline => w.auditing.deadline.map fun auditing => { w with auditing := auditing }

def step (w : World) (input : Input) : Except Run.Disabled (World × Unit) :=
  (w.next cx node input).map fun w => (w, ())

end World
end Loadtest
