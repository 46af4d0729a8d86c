import Ztest.Lib.Run
import Ztest.Loadtest.Ledger
import Ztest.Loadtest.Reference

/-!
This module contains `audit.rs`. A check of the `Auditor` is a dialog with zebra. `Auditing` is the
machine of `Auditor::run`: it takes the answers off the queue of the ledger, defers those that the tip
can move, and gives a dialog one of zebra's replies at a time. The clock of the tip cache is read in
milliseconds. `height + BURIED` is a `u32`.

`trace` is the history of the machine, which the code does not keep.
-/

namespace Loadtest

open Debug (debug)

def buried : Nat := 10

def feeCheckEvery : Nat := 8

def tipRefresh : Nat := 5000

structure Expect where
  chainName : String
  saplingActivation : Nat

structure Auditor where
  expect : Expect
  -- Zebra's tip and when it was read.
  tip : Nat × Nat
  deferred : List (Nat × Audit)
  roots : Pool → Option (List SubtreeRoot)
  mempool : List Nat
  auditedBlocks : Nat

inductive Verdict where
  | holds
  | reorged
  | unjudged
  | differs (height : Nat) (detail : String)

def differs (height : Nat) : Option String → Verdict
  | none => .holds
  | some detail => .differs height detail

namespace Auditor

def new (expect : Expect) (now : Nat) : Auditor where
  expect := expect
  tip := (0, now - tipRefresh)
  deferred := []
  roots _ := none
  mempool := []
  auditedBlocks := 0

def zebraTip (a : Auditor) : Ask (Auditor × Option Nat) := do
  let now ← Rpc.now
  if tipRefresh ≤ now - a.tip.2 then
    match ← Rpc.tip with
    | .error _ => return (a, none)
    | .ok tip =>
      let now ← Rpc.now
      return ({ a with tip := (tip, now) }, some tip)
  else
    return (a, some a.tip.1)

variable (wire : Wire)

def shielded (a : Auditor) (height : Nat) (message : Bytes) : Ask (Auditor × Verdict) :=
  match wire.compactBlock message with
  | .error e => return (a, .differs height ("undecodable: " ++ e))
  | .ok served => do
    let a := { a with auditedBlocks := a.auditedBlocks + 1 }
    let fees := if a.auditedBlocks % feeCheckEvery = 0 then .checked else .asServed served
    match ← Zebra.compactBlock height fees with
    | .error _ => return (a, .unjudged)
    | .ok expected => return (a, Loadtest.differs height (blockDiff (Loadtest.shielded expected) served))

def full (height : Nat) (message : Bytes) : Ask Verdict :=
  match wire.compactBlock message with
  | .error e => return .differs height ("undecodable: " ++ e)
  | .ok served => do
    match ← Zebra.blockHash height with
    | .error _ => return .unjudged
    | .ok hash =>
      if hash ≠ served.hash then
        return .reorged
      else
        match ← Zebra.compactBlock height (.asServed served) with
        | .error _ => return .unjudged
        | .ok expected => return Loadtest.differs height (blockDiff expected served)

def treeState (height : Nat) (message : Bytes) : Ask Verdict :=
  match wire.treeState message with
  | .error e => return .differs height ("undecodable: " ++ e)
  | .ok served => do
    match ← Zebra.treeState height with
    | .error _ => return .unjudged
    | .ok expected =>
      if expected.hash ≠ served.hash then
        return .reorged
      else
        return Loadtest.differs height (treeStateDiff expected served)

-- The part of a listing that `GetSubtreeRoots(start, max)` asks for, a `max` of zero is no bound.
def rootRange (every : List SubtreeRoot) (start max : Nat) : List SubtreeRoot :=
  let stop := if max = 0 then every.length else min every.length (start + max)
  (every.take stop).drop start

-- The first root that differs, with its position.
def firstDiffering : Nat → List SubtreeRoot → List SubtreeRoot → Option (Nat × SubtreeRoot × SubtreeRoot)
  | at', s :: served, e :: expected =>
    if s ≠ e then some (at', s, e) else firstDiffering (at' + 1) served expected
  | _, _, _ => none

def compareRoots (pool : Pool) (start max : Nat) (served expected : List SubtreeRoot) : Verdict :=
  match firstDiffering 0 served expected with
  | some (at', s, e) =>
    .differs e.completingBlockHeight
      (pool.name ++ " root " ++ toString (start + at') ++ ": served " ++ debug s ++ ", zebra " ++ debug e)
  | none =>
    if served.length = expected.length then
      .holds
    else if served.length < expected.length then
      .unjudged
    else
      .differs 0 (pool.name ++ " from " ++ toString start ++ " max " ++ toString max ++ ": served "
        ++ toString served.length ++ " roots, zebra " ++ toString expected.length)

def readListing (a : Auditor) (pool : Pool)
    : Ask (Except ReferenceError (Auditor × List SubtreeRoot)) := do
  match ← Zebra.subtreeRoots pool with
  | .error e => return .error e
  | .ok roots => return .ok ({ a with roots := Function.update a.roots pool (some roots) }, roots)

-- The listing is read again when the answer reaches past it.
def listing (a : Auditor) (pool : Pool) (reach : Nat)
    : Ask (Except ReferenceError (Auditor × List SubtreeRoot)) :=
  match a.roots pool with
  | none => a.readListing pool
  | some roots => if roots.length < reach then a.readListing pool else return .ok (a, roots)

def subtrees (a : Auditor) (pool : Pool) (start max : Nat) (messages : List Bytes)
    : Ask (Auditor × Verdict) :=
  match messages.mapM wire.subtreeRoot with
  | .error e => return (a, .differs 0 (pool.name ++ " undecodable root: " ++ e))
  | .ok served => do
    match ← a.listing pool (start + served.length) with
    | .error _ => return (a, .unjudged)
    | .ok (a, every) => return (a, compareRoots pool start max served (rootRange every start max))

def latest (message : Bytes) : Ask Verdict :=
  match wire.blockId message with
  | .error e => return .differs 0 ("undecodable: " ++ e)
  | .ok served => do
    match ← Zebra.blockHash (asU32 served.height) with
    | .error _ => return .unjudged
    | .ok hash => if hash = served.hash then return .holds else return .reorged

def readMempool (a : Auditor) (listed : List Bytes) : Ask Auditor :=
  match listed with
  | [] => return a
  | txid :: rest => do
    match ← Rpc.getrawtransaction txid with
    | .error _ => readMempool a rest
    | .ok raw => readMempool { a with mempool := wire.digest raw :: a.mempool } rest

def mempoolTx (a : Auditor) (message : Bytes) : Ask (Auditor × Verdict) :=
  match wire.rawTransaction message with
  | .error e => return (a, .differs 0 ("undecodable: " ++ e))
  | .ok served =>
    if served.height ≠ 0 then
      return (a, .differs 0 ("mempool tx served at height " ++ toString served.height))
    else
      let wanted := wire.digest served.data
      if wanted ∈ a.mempool then
        return (a, .holds)
      else do
        match ← Rpc.getrawmempool with
        | .error _ => return (a, .unjudged)
        | .ok listed =>
          let a ← a.readMempool wire listed
          return (a, if wanted ∈ a.mempool then .holds else .unjudged)

def lightdInfo (a : Auditor) (message : Bytes) : Ask (Auditor × Verdict) :=
  match wire.lightdInfo message with
  | .error e => return (a, .differs 0 ("undecodable: " ++ e))
  | .ok served => do
    match ← a.zebraTip with
    | (a, none) => return (a, .unjudged)
    | (a, some tip) =>
      if served.chainName ≠ a.expect.chainName then
        return (a, .differs 0 ("chain_name: served " ++ served.chainName ++ ", expected " ++ a.expect.chainName))
      else if served.saplingActivationHeight ≠ a.expect.saplingActivation then
        return (a, .differs 0 ("sapling_activation_height: served " ++ toString served.saplingActivationHeight
          ++ ", expected " ++ toString a.expect.saplingActivation))
      else
        let servedTip := asU32 served.blockHeight
        if servedTip ≤ asU32 (tip + buried) ∧ tip ≤ asU32 (servedTip + buried) then
          return (a, .holds)
        else
          return (a, .differs servedTip ("block_height " ++ toString servedTip ++ ", zebra " ++ toString tip))

def utxos (address : String) (message : Bytes) (servedTip : Nat) : Ask Verdict :=
  match wire.addressUtxos message with
  | .error e => return .differs 0 ("undecodable: " ++ e)
  | .ok served => do
    let before ← Rpc.tip
    match ← Zebra.addressUtxos address with
    | .error _ => return .unjudged
    | .ok expected =>
      if served = expected then
        return .holds
      else
        match before, ← Rpc.tip with
        | .ok before, .ok after =>
          if before = servedTip ∧ after = servedTip then
            let first := (served.zip expected).find? fun (s, e) => s ≠ e
            return .differs servedTip (address ++ ": " ++ toString served.length ++ " served vs "
              ++ toString expected.length ++ " at zebra; first differing utxo " ++ debug first)
          else
            return .unjudged
        | _, _ => return .unjudged

def unchanged (a : Auditor) (verdict : Ask Verdict) : Ask (Auditor × Verdict) := do
  return (a, ← verdict)

def judgeBuried (a : Auditor) : Audit → Ask (Auditor × Verdict)
  | .shielded height message => a.shielded wire height message
  | .full height message _ => a.unchanged (full wire height message)
  | .treeState height message _ => a.unchanged (treeState wire height message)
  | .subtrees pool start max messages => a.subtrees wire pool start max messages
  | .tip message => a.unchanged (latest wire message)
  | .mempool message => a.mempoolTx wire message
  | .lightdInfo message => a.lightdInfo wire message
  | .addressUtxos address message tip => a.unchanged (utxos wire address message tip)

end Auditor

-- How an audit came to be counted.
inductive Basis where
  | undecodable
  -- Judged by zebra's answers, `tip` is the tip it was buried under if it was deferred.
  | judged (tip : Option Nat) (answers : Answers) (verdict : Verdict)
  | drained

inductive Outcome where
  | audited
  | skipped
  | violated
  deriving DecidableEq

def Verdict.outcome : Verdict → Outcome
  | .holds => .audited
  | .reorged => .skipped
  | .unjudged => .skipped
  | .differs _ _ => .violated

def Basis.outcome : Basis → Outcome
  | .undecodable => .violated
  | .judged _ _ verdict => verdict.outcome
  | .drained => .skipped

inductive Event where
  | received (audit : Audit)
  | answered (q : Call) (r : q.Reply)
  | counted (audit : Audit) (basis : Basis)

structure Release where
  tip : Nat
  todo : List (Nat × Audit)
  waiting : List (Nat × Audit)

inductive Pc where
  | receiving
  -- `release` is none for an answer judged on arrival.
  | judging (audit : Audit) (release : Option Release) (answers : Answers)
    (d : Ask (Auditor × Verdict))
  | readingTip (d : Ask (Auditor × Option Nat))
  | releasing (release : Release)
  | settling
  | returned

structure Auditing where
  auditor : Auditor
  ledger : Ledger
  pc : Pc
  trace : List Event

namespace Auditing

def init (expect : Expect) (now : Nat) (ledger : Ledger) : Auditing where
  auditor := .new expect now
  ledger := ledger
  pc := .receiving
  trace := []

def goto (s : Auditing) (pc : Pc) : Auditing := { s with pc := pc }

def log (s : Auditing) (ev : Event) : Auditing := { s with trace := s.trace ++ [ev] }

def count (s : Auditing) (audit : Audit) (basis : Basis) : Auditing := s.log (.counted audit basis)

def defer (s : Auditing) (height : Nat) (audit : Audit) : Auditing :=
  { s with auditor.deferred := s.auditor.deferred ++ [(height, audit)] }

def releaseBuried (s : Auditing) : Auditing := s.goto (.readingTip s.auditor.zebraTip)

def judge (wire : Wire) (s : Auditing) (audit : Audit) : Auditing :=
  match audit with
  | .full height _ _ => (s.defer height audit).releaseBuried
  | .treeState height _ _ => (s.defer height audit).releaseBuried
  | .tip message =>
    match wire.blockId message with
    | .ok id => (s.defer (asU32 id.height) audit).releaseBuried
    | .error e =>
      let ledger := s.ledger.violated "latest_block" 0 ("undecodable BlockID: " ++ e)
      ({ s with ledger := ledger }.count audit .undecodable).releaseBuried
  | _ => s.goto (.judging audit none [] (s.auditor.judgeBuried wire audit))

def recv (wire : Wire) (s : Auditing) : Except Run.Disabled Auditing :=
  match s.ledger.audits with
  | audit :: rest => .ok (({ s with ledger.audits := rest }.log (.received audit)).judge wire audit)
  | [] => if s.ledger.closed then .ok (s.goto .settling) else .error .disabled

def conclude (ledger : Ledger) (audit : Audit) : Verdict → Ledger
  | .holds => ledger.audited
  | .reorged => ledger.skipped
  | .unjudged => ledger.skipped
  | .differs height detail => ledger.violated audit.check height detail

-- Back at the loop that `release_buried` was called from.
def released (s : Auditing) : Auditing :=
  s.goto (if s.ledger.closed ∧ s.ledger.audits = [] then .settling else .receiving)

def skipAll (s : Auditing) : List (Nat × Audit) → Auditing
  | [] => s
  | (_, audit) :: rest =>
    ({ s with ledger := s.ledger.skipped }.count audit .drained).skipAll rest

inductive Input where
  | queue (audit : Audit)
  | close
  | recv
  | reply (answer : (q : Call) → q.Reply)
  | go
  | wake
  | deadline

def reply (s : Auditing) (answer : (q : Call) → q.Reply) : Except Run.Disabled Auditing :=
  match s.pc with
  | .judging audit release answers (.ask q k) =>
    .ok ((s.log (.answered q (answer q))).goto
      (.judging audit release (answers ++ [⟨q, answer q⟩]) (k (answer q))))
  | .readingTip (.ask q k) =>
    .ok ((s.log (.answered q (answer q))).goto (.readingTip (k (answer q))))
  | _ => .error .disabled

-- What is done between two replies.
def go (wire : Wire) (s : Auditing) : Except Run.Disabled Auditing :=
  match s.pc with
  | .judging audit release answers (.done (auditor, verdict)) =>
    let s := { s with auditor := auditor, ledger := conclude s.ledger audit verdict }
    let s := s.count audit (.judged (release.map (·.tip)) answers verdict)
    match release with
    | none => .ok s.releaseBuried
    | some release => .ok (s.goto (.releasing release))
  | .readingTip (.done (auditor, none)) => .ok ({ s with auditor := auditor }.released)
  | .readingTip (.done (auditor, some tip)) =>
    .ok ({ s with auditor := { auditor with deferred := [] } }.goto
      (.releasing ⟨tip, auditor.deferred, []⟩))
  | .releasing ⟨tip, (height, audit) :: todo, waiting⟩ =>
    if asU32 (height + buried) ≤ tip then
      .ok (s.goto (.judging audit (some ⟨tip, todo, waiting⟩) [] (s.auditor.judgeBuried wire audit)))
    else
      .ok (s.goto (.releasing ⟨tip, todo, waiting ++ [(height, audit)]⟩))
  | .releasing ⟨_, [], waiting⟩ => .ok ({ s with auditor.deferred := waiting }.released)
  | _ => .error .disabled

def wake (s : Auditing) : Except Run.Disabled Auditing :=
  match s.pc with
  | .settling => if s.auditor.deferred = [] then .error .disabled else .ok s.releaseBuried
  | _ => .error .disabled

def deadline (s : Auditing) : Except Run.Disabled Auditing :=
  match s.pc with
  | .settling =>
    .ok (({ s with auditor.deferred := [] }.skipAll s.auditor.deferred).goto .returned)
  | _ => .error .disabled

def next (wire : Wire) (s : Auditing) : Input → Except Run.Disabled Auditing
  | .queue audit => .ok { s with ledger := s.ledger.queue audit }
  | .close => .ok { s with ledger := s.ledger.close }
  | .recv => match s.pc with
    | .receiving => s.recv wire
    | _ => .error .disabled
  | .reply answer => s.reply answer
  | .go => s.go wire
  | .wake => s.wake
  | .deadline => s.deadline

def step (wire : Wire) (s : Auditing) (input : Input) : Except Run.Disabled (Auditing × Unit) :=
  (s.next wire input).map fun s => (s, ())

end Auditing
end Loadtest
