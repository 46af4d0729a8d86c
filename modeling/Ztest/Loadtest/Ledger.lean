import Ztest.Loadtest.Proto
import Mathlib.Logic.Function.Basic

/-!
This module contains `ledger.rs`: what the simulated wallets and the auditor share. The bounded queue
between them is part of the ledger, which holds its sender. The strings that key an answer start with
different words, `Key` has one constructor for each of them. The metrics are left out.
-/

namespace Loadtest

inductive Audit where
  | shielded (height : Nat) (message : Bytes)
  | full (height : Nat) (message : Bytes) (tip : Nat)
  | treeState (height : Nat) (message : Bytes) (tip : Nat)
  | subtrees (pool : Pool) (start max : Nat) (messages : List Bytes)
  | tip (message : Bytes)
  | mempool (message : Bytes)
  | lightdInfo (message : Bytes)
  | addressUtxos (address : String) (message : Bytes) (tip : Nat)
  deriving DecidableEq

def Audit.check : Audit → String
  | .shielded .. => "block_shielded"
  | .full .. => "block_full"
  | .treeState .. => "tree_state"
  | .subtrees .. => "subtree_roots"
  | .tip .. => "latest_block"
  | .mempool .. => "mempool_tx"
  | .lightdInfo .. => "lightd_info"
  | .addressUtxos .. => "address_utxos"

inductive Key where
  | tip (height : Nat)
  | block (height : Nat) (hash : Bytes)
  | mempool (digest : Nat)
  | treeState (height : Nat)
  | roots (pool : Pool) (start : Nat)
  | utxos (address : String) (tip : Nat)
  deriving DecidableEq

def splitmix64 (x : UInt64) : UInt64 :=
  let x := x + 0x9E3779B97F4A7C15
  let z := (x ^^^ (x >>> 30)) * 0xBF58476D1CE4E5B9
  let z := (z ^^^ (z >>> 27)) * 0x94D049BB133111EB
  z ^^^ (z >>> 31)

-- One key in `every`.
def sampled (key every : UInt64) : Bool := splitmix64 key % every == 0

abbrev Entry : Type := Key × Option Nat

def Key.display : Key → String
  | .tip height => "tip/" ++ toString height
  | .block height hash => "block/" ++ toString height ++ "/" ++ hexEncode hash
  | .mempool digest => "mempool/" ++ String.ofList (Nat.toDigits 16 digest)
  | .treeState height => "tree_state/" ++ toString height
  | .roots pool start => "roots/" ++ pool.name ++ "/" ++ toString start
  | .utxos address at' => "utxos/" ++ address ++ "/" ++ toString at'

structure Tallies where
  blocksHeld : Nat := 0
  consistent : Nat := 0
  queued : Nat := 0
  dropped : Nat := 0
  audited : Nat := 0
  skipped : Nat := 0
  violations : Nat := 0

structure Ledger where
  stableBelow : Nat
  -- The digest held of a height below `stableBelow`, zero as long as there is none.
  blocks : Nat → Nat
  answers : Key → Option Nat
  queuedKeys : List Entry
  auditEvery : UInt64
  capacity : Nat
  audits : List Audit
  closed : Bool
  violations : List Violation
  tallies : Tallies

namespace Ledger

def kept : Nat := 64

def new (stableBelow : Nat) (auditEvery : UInt64) (capacity : Nat) : Ledger where
  stableBelow := stableBelow
  blocks _ := 0
  answers _ := none
  queuedKeys := []
  auditEvery := if auditEvery = 0 then 1 else auditEvery
  capacity := capacity
  audits := []
  closed := false
  violations := []
  tallies := {}

def violated (l : Ledger) (check : String) (height : Nat) (detail : String) : Ledger :=
  { l with
    tallies.violations := l.tallies.violations + 1
    violations :=
      if l.violations.length < kept then l.violations ++ [⟨height, check, detail⟩] else l.violations }

def audited (l : Ledger) : Ledger := { l with tallies.audited := l.tallies.audited + 1 }

def skipped (l : Ledger) : Ledger := { l with tallies.skipped := l.tallies.skipped + 1 }

-- A full queue loses the audit.
def queue (l : Ledger) (audit : Audit) : Ledger :=
  if l.closed = false ∧ l.audits.length < l.capacity then
    { l with audits := l.audits ++ [audit], tallies.queued := l.tallies.queued + 1 }
  else
    { l with tallies.dropped := l.tallies.dropped + 1 }

def close (l : Ledger) : Ledger := { l with closed := true }

def low (digest : Nat) : Nat := digest % 18446744073709551616

-- One default-pools block off a stream.
def shieldedBlock (wire : Wire) (l : Ledger) (height : Nat) (message : Bytes) : Ledger :=
  if height < l.stableBelow then
    let seen := max (low (wire.digest message)) 1
    if l.blocks height = 0 then
      let l := { l with
        blocks := Function.update l.blocks height seen
        tallies.blocksHeld := l.tallies.blocksHeld + 1 }
      if sampled height.toUInt64 l.auditEvery then l.queue (.shielded height message) else l
    else if l.blocks height = seen then
      { l with tallies.consistent := l.tallies.consistent + 1 }
    else
      l.violated "block_consistent" height "default-pools bytes differ from this height's first answer"
  else
    l

def queueOnce (l : Ledger) (key : Entry) (audit : Audit) : Ledger :=
  if key ∈ l.queuedKeys then l else { l with queuedKeys := key :: l.queuedKeys }.queue audit

-- `answer` up to the end of its first lock: the entry is yet to be marked.
def look (l : Ledger) (key : Key) (digest : Nat) (stable : Bool) : Ledger × Option Entry :=
  let seen := low digest
  match l.answers key with
  | some held =>
    if held = seen then
      ({ l with tallies.consistent := l.tallies.consistent + 1 }, none)
    else if stable then
      (l.violated "answer_consistent" 0 (key.display ++ ": bytes differ from its first answer"), none)
    else
      ({ l with answers := Function.update l.answers key (some seen) }, some (key, some seen))
  | none => ({ l with answers := Function.update l.answers key (some seen) }, some (key, none))

-- The first sight of an answer is queued, and while it is not `stable` each change of it.
def answer (l : Ledger) (key : Key) (digest : Nat) (stable : Bool) (audit : Audit) : Ledger :=
  match l.look key digest stable with
  | (l, some entry) => l.queueOnce entry audit
  | (l, none) => l

end Ledger
end Loadtest
