import Mathlib.Algebra.Ring.Nat
import Mathlib.Tactic.Common
import Ztest.Lib.Binary64
import Ztest.Lib.Collect
import Ztest.Loadtest.Proto

/-!
This module contains the work of a chain, counted per op, the map it is sent as, and what `chainMetadata`
says about it.
-/

namespace Sync

open Loadtest (CompactBlock ChainMetadata CompactTx)

inductive Op where
  | transparentIn
  | transparentOut
  | sproutJoinSplit
  | saplingSpend
  | saplingOutput
  | orchardAction
  | ironwoodAction
  deriving DecidableEq

def Op.index : Op → Fin 7
  | transparentIn => 0
  | transparentOut => 1
  | sproutJoinSplit => 2
  | saplingSpend => 3
  | saplingOutput => 4
  | orchardAction => 5
  | ironwoodAction => 6

def Op.all : List Op :=
  [transparentIn, transparentOut, sproutJoinSplit, saplingSpend, saplingOutput, orchardAction, ironwoodAction]

def Op.label : Op → String
  | transparentIn => "transparent-in"
  | transparentOut => "transparent-out"
  | sproutJoinSplit => "sprout-joinsplit"
  | saplingSpend => "sapling-spend"
  | saplingOutput => "sapling-output"
  | orchardAction => "orchard-action"
  | ironwoodAction => "ironwood-action"

inductive Channel where
  | transparent
  | sprout
  | sapling
  | orchard
  | ironwood
  deriving DecidableEq

namespace Channel

def all : List Channel := [transparent, sprout, sapling, orchard, ironwood]

def ops : Channel → List Op
  | transparent => [.transparentIn, .transparentOut]
  | sprout => [.sproutJoinSplit]
  | sapling => [.saplingSpend, .saplingOutput]
  | orchard => [.orchardAction]
  | ironwood => [.ironwoodAction]

end Channel

structure OpSet where
  bits : BitVec 8
  deriving DecidableEq

namespace OpSet

def none : OpSet where
  bits := 0

def has (s : OpSet) (op : Op) : Bool := s.bits &&& (1#8 <<< op.index.val) != 0

def withOp (s : OpSet) (op : Op) : OpSet where
  bits := s.bits ||| (1#8 <<< op.index.val)

def intersect (s t : OpSet) : OpSet where
  bits := s.bits &&& t.bits

def isEmpty (s : OpSet) : Bool := s.bits = 0

end OpSet

namespace OpKeyed

variable {α : Type}

abbrev slot (values : Vector α 7) (op : Op) : α := values[op.index]

abbrev fill (values : Vector α 7) (op : Op) (v : α) : Vector α 7 := values.set op.index v

def serialize (values : Vector α 7) (known : OpSet) : List (String × α) :=
  Op.all.filterMap fun op => if known.has op then some (op.label, values[op.index]) else none

def readOp (raw : List (String × α)) (read : Vector α 7 × OpSet) (op : Op) : Vector α 7 × OpSet :=
  match collect raw op.label with
  | some v => (read.1.set op.index v, read.2.withOp op)
  | none => read

-- `raw` are the entries as they are met, before the map is made of them; `zero` is the default of the values.
def deserialize (zero : α) (raw : List (String × α)) : Vector α 7 × OpSet :=
  Op.all.foldl (readOp raw) (.replicate 7 zero, .none)

end OpKeyed

def sum (vals : List (Option Nat)) : Option Nat :=
  (vals.filterMap id).foldl (fun acc n => some (acc.getD 0 + n)) none

structure Rate where
  perSec : Vector Binary64 7
  known : OpSet

namespace Rate

def default : Rate where
  perSec := .replicate 7 (.finite 0)
  known := .none

def get (r : Rate) (op : Op) : Option Binary64 :=
  if r.known.has op then some r.perSec[op.index] else none

def serialize (r : Rate) : List (String × Binary64) := OpKeyed.serialize r.perSec r.known

def deserialize (raw : List (String × Binary64)) : Rate :=
  let (perSec, known) := OpKeyed.deserialize (.finite 0) raw
  ⟨perSec, known⟩

end Rate

structure Work where
  counts : Vector Nat 7
  known : OpSet
  deriving DecidableEq

namespace Work

def zero : Work where
  counts := .replicate 7 0
  known := .none

def set (w : Work) (op : Op) (count : Nat) : Work where
  counts := w.counts.set op.index count
  known := w.known.withOp op

def get (w : Work) (op : Op) : Option Nat :=
  if w.known.has op then some w.counts[op.index] else none

def total (w : Work) : Option Nat :=
  if w.known.isEmpty then none else some (Op.all.filterMap w.get).sum

def deltaOp (known : OpSet) (later earlier : Work) (counts : Vector Nat 7) (op : Op) : Vector Nat 7 :=
  if known.has op then counts.set op.index (later.counts[op.index] - earlier.counts[op.index]) else counts

def delta (later earlier : Work) : Work :=
  let known := later.known.intersect earlier.known
  ⟨Op.all.foldl (deltaOp known later earlier) (.replicate 7 0), known⟩

def channels (w : Work) : List (Channel × Option Nat) := Channel.all.map fun c => (c, sum (c.ops.map w.get))

def serialize (w : Work) : List (String × Nat) := OpKeyed.serialize w.counts w.known

def deserialize (raw : List (String × Nat)) : Work :=
  let (counts, known) := OpKeyed.deserialize 0 raw
  ⟨counts, known⟩

def rateOp (w : Work) (secs : Binary64) (perSec : Vector Binary64 7) (op : Op) : Vector Binary64 7 :=
  if w.known.has op then perSec.set op.index ((Binary64.ofRat w.counts[op.index]).divide secs) else perSec

-- `elapsed` is in nanoseconds.
def rate (w : Work) (elapsed : Nat) : Rate :=
  let secs := Binary64.ofNanos elapsed
  if secs.le (.finite 0) then .default
  else ⟨Op.all.foldl (w.rateOp secs) (.replicate 7 (.finite 0)), w.known⟩

end Work

inductive Support where
  | unproven
  | populated
  | unpopulated
  deriving DecidableEq

structure Reading where
  treeSize : Nat
  items : Nat

def Support.update (s : Support) (reading : Reading) : Support :=
  match s, reading.treeSize, reading.items with
  | .unpopulated, _, _ => .unpopulated
  | _, _ + 1, _ => .populated
  | .populated, _, _ => .populated
  | _, 0, _ + 1 => .unpopulated
  | _, _, _ => .unproven

def readings (block : CompactBlock) : Reading × Reading × Reading :=
  let size (f : ChainMetadata → Nat) := (block.chainMetadata.map f).getD 0
  let count (f : CompactTx → Nat) := (block.vtx.map f).sum
  (⟨size (·.saplingCommitmentTreeSize), count (·.outputs.length)⟩,
    ⟨size (·.orchardCommitmentTreeSize), count (·.actions.length)⟩,
    ⟨size (·.ironwoodCommitmentTreeSize), count (·.ironwoodActions.length)⟩)

structure ChainWork where
  sapling : Support
  orchard : Support
  ironwood : Support

namespace ChainWork

def new : ChainWork where
  sapling := .unproven
  orchard := .unproven
  ironwood := .unproven

def observePool (support : Support) (reading : Reading) (op : Op) (work : Work) : Support × Work :=
  match support.update reading with
  | .unpopulated => (.unpopulated, work)
  | support => (support, work.set op reading.treeSize)

def observe (cw : ChainWork) (block : CompactBlock) : ChainWork × Work :=
  let (sapling, orchard, ironwood) := readings block
  let (sapling, work) := observePool cw.sapling sapling .saplingOutput .zero
  let (orchard, work) := observePool cw.orchard orchard .orchardAction work
  let (ironwood, work) := observePool cw.ironwood ironwood .ironwoodAction work
  (⟨sapling, orchard, ironwood⟩, work)

def support (cw : ChainWork) : Op → Support
  | .saplingOutput => cw.sapling
  | .orchardAction => cw.orchard
  | .ironwoodAction => cw.ironwood
  | _ => .unpopulated

def unpopulated (cw : ChainWork) : List Op :=
  [Op.saplingOutput, Op.orchardAction, Op.ironwoodAction].filter (cw.support · = .unpopulated)

-- What the blocks read so far leave behind.
def after (blocks : List CompactBlock) : ChainWork :=
  blocks.foldl (fun cw block => (cw.observe block).1) .new

end ChainWork

-- What `read_work` meets: the subject's own count, no indexer, the block at the subject's height, or no answer.
inductive WorkRead where
  | own (work : Work)
  | noIndexer
  | block (block : CompactBlock)
  | failed

def readWork (chainWork : ChainWork) (last : Work) : WorkRead → ChainWork × Work
  | .own work => (chainWork, work)
  | .noIndexer => (chainWork, last)
  | .block block => chainWork.observe block
  | .failed => (chainWork, last)

def thousands (n : Nat) : String :=
  let digits := Nat.toDigits 10 n
  String.ofList (digits.zipIdx.flatMap fun (c, i) => if 0 < i ∧ (digits.length - i) % 3 = 0 then [',', c] else [c])

-- Instants are in nanoseconds, `wall` since the epoch.
structure Mark where
  height : Nat
  work : Work
  atInstant : Nat
  wall : Nat

structure Segment where
  network : Option String
  fromHeight : Nat
  toHeight : Nat
  work : Work
  elapsedMs : Nat
  startedMs : Nat
  deriving DecidableEq

inductive Mismatch where
  | network (base head : Option String)
  | range (base head : String)
  deriving DecidableEq

namespace Segment

def describe (s : Segment) : String :=
  s.network.getD "unknown-network" ++ " " ++ thousands s.fromHeight ++ ".." ++ thousands s.toHeight

def comparableWith (s other : Segment) : Except Mismatch Unit :=
  match s.network, other.network with
  | some head, some base =>
    if head ≠ base then .error (.network (some base) (some head))
    else if (s.fromHeight, s.toHeight) ≠ (other.fromHeight, other.toHeight) then
      .error (.range other.describe s.describe)
    else .ok ()
  | _, _ => .error (.network other.network s.network)

end Segment

-- One reading of the subject's progress.
structure Sample where
  height : Nat
  atInstant : Nat
  wall : Nat
  read : WorkRead

-- What the tick loop of a phase and its `SnapshotBuilder` keep for the work.
structure Traversal where
  chainWork : ChainWork
  lastWork : Work
  seq : Nat
  prevWork : Work
  origin : Option Mark
  head : Option Mark

namespace Traversal

def new : Traversal where
  chainWork := .new
  lastWork := .zero
  seq := 0
  prevWork := .zero
  origin := none
  head := none

-- A snapshot is built beside it: its `work_done` is returned.
def tick (t : Traversal) (s : Sample) : Traversal × Work :=
  let (chainWork, work) := readWork t.chainWork t.lastWork s.read
  let prevWork := if t.seq = 0 then work else t.prevWork
  let mark : Mark := ⟨s.height, work, s.atInstant, s.wall⟩
  (⟨chainWork, work, t.seq + 1, work, t.origin.or (some mark), some mark⟩, work.delta prevWork)

def run (t : Traversal) : List Sample → Traversal × List Work
  | [] => (t, [])
  | s :: rest => (((t.tick s).1.run rest).1, (t.tick s).2 :: ((t.tick s).1.run rest).2)

def segment (t : Traversal) (network : Option String) : Option Segment :=
  match t.origin, t.head with
  | some origin, some head =>
    if origin.height < head.height then
      some
        { network := network
          fromHeight := origin.height
          toHeight := head.height
          work := head.work.delta origin.work
          elapsedMs := (head.atInstant - origin.atInstant) / 1000000 % 2 ^ 64
          startedMs := origin.wall / 1000000 % 2 ^ 64 }
    else
      none
  | _, _ => none

end Traversal
end Sync
