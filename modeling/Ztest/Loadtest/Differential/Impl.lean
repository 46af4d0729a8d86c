import Ztest.Lib.Collect
import Ztest.Lib.Run
import Ztest.Loadtest.Proto
import Mathlib.Data.List.Sort

/-!
This module contains the load driver, the block oracle it runs on every response and the gates of its
report (`loadtest/driver.rs`, `oracle.rs` and `report.rs`). A connection asks the one or the two
backends round by round until its clock is past its deadline. The connections share the oracle, in
any order. Latencies and throughput decide none of the gates here and are left out.
-/

namespace Loadtest
namespace Load

def copyHash (bytes : Bytes) : Option Bytes := if bytes.length = 32 then some bytes else none

def genesisPrev : Bytes := List.replicate 32 0

def checkOrder (height : Nat) : Option Nat → List Violation
  | none => []
  | some last =>
    if height ≤ last then
      [⟨height, "order", "height " ++ toString height ++ " is not strictly after " ++ toString last⟩]
    else
      []

def checkGenesis (height : Nat) (prev : Bytes) : List Violation :=
  if height = 0 ∧ prev ≠ genesisPrev then
    [⟨height, "prev_hash", "genesis block must have all-zero prev_hash"⟩]
  else
    []

def checkLink (height : Nat) (prev : Bytes) : Option Bytes → List Violation
  | none => []
  | some expected =>
    if prev ≠ expected then
      [⟨height, "prev_hash", "prev_hash " ++ hexEncode prev ++ " does not link to prior block hash "
        ++ hexEncode expected⟩]
    else
      []

def badLength (height : Nat) (field : String) (bytes : Bytes) : Violation :=
  ⟨height, field, field ++ " is " ++ toString bytes.length ++ " bytes, expected 32"⟩

-- `prevHash` and `lastHeight` of the block before.
def checkLinks (prevHash : Option Bytes) (lastHeight : Option Nat) : List CompactBlock → List Violation
  | [] => []
  | block :: rest =>
    let height := block.height
    checkOrder height lastHeight ++
      match copyHash block.hash, copyHash block.prevHash with
      | none, _ => badLength height "hash" block.hash :: checkLinks none (some height) rest
      | some _, none => badLength height "prev_hash" block.prevHash :: checkLinks none (some height) rest
      | some hash, some prev =>
        checkGenesis height prev ++ checkLink height prev prevHash ++ checkLinks (some hash) (some height) rest

-- `start..=stop`
def inclusive (start stop : Nat) : List Nat := List.range' start (stop + 1 - start)

def maxHeight : Nat := 18446744073709551615

-- The sum of two u64. Past the maximum it panics under `overflow-checks` and wraps without.
def addU64 (overflowChecks : Bool) (a b : Nat) : Option Nat :=
  if a + b ≤ maxHeight then some (a + b)
  else if overflowChecks then none
  else some ((a + b) % (maxHeight + 1))

def missingAt (start stop want : Nat) (blocks : List CompactBlock) (missing : Nat) : Violation :=
  ⟨missing, "missing", "range " ++ toString start ++ "..=" ++ toString stop ++ " requested " ++ toString want
    ++ " block(s), served " ++ toString blocks.length ++ "; first missing at " ++ toString missing⟩

def unexpectedAt (start stop extra : Nat) : Violation :=
  ⟨extra, "unexpected", "height " ++ toString extra ++ " is outside the requested range " ++ toString start
    ++ "..=" ++ toString stop⟩

def checkComplete (overflowChecks : Bool) (start stop : Nat) (blocks : List CompactBlock) : Option (List Violation) :=
  let served := ((blocks.map (·.height)).dedup).insertionSort (· ≤ ·)
  let extra := (served.find? fun h => h < start || stop < h).map (unexpectedAt start stop)
  match (inclusive start stop).find? fun h => h ∉ served with
  | none => some extra.toList
  | some missing =>
    (addU64 overflowChecks (stop - start) 1).map fun want => missingAt start stop want blocks missing :: extra.toList

abbrev Seen := Nat → Option Bytes

def checkStable (ceiling : Nat) : Seen → List CompactBlock → Seen × List Violation
  | seen, [] => (seen, [])
  | seen, block :: rest =>
    match copyHash block.hash with
    | none => checkStable ceiling seen rest
    | some hash =>
      match seen block.height with
      | none => checkStable ceiling (Function.update seen block.height (some hash)) rest
      | some prior =>
        let (seen, v) := checkStable ceiling seen rest
        if prior ≠ hash ∧ block.height < ceiling then
          (seen, ⟨block.height, "hash", "settled history changed: was " ++ hexEncode prior ++ ", now "
            ++ hexEncode hash ++ " (stable below " ++ toString ceiling ++ ")"⟩ :: v)
        else
          (seen, v)

-- `none` is a panic. It comes before the baseline is locked and leaves it as it was.
def observe (overflowChecks : Bool) (stableBelow : Option Nat) (seen : Seen) (start stop : Nat)
    (blocks : List CompactBlock)
    : Option (Seen × List Violation) :=
  (checkComplete overflowChecks start stop blocks).map fun complete =>
    let v := checkLinks none none blocks ++ complete
    match stableBelow with
    | none => (seen, v)
    | some ceiling =>
      let (seen, stable) := checkStable ceiling seen blocks
      (seen, v ++ stable)

structure ParityRecord where
  height : Nat
  detail : String

namespace ParityRecord

def differs : String := "blocks differ"

def missingFromB : String := "present in A, missing from B"

def missingFromA : String := "missing from A, present in B"

def display (p : ParityRecord) : String := "height " ++ toString p.height ++ ": " ++ p.detail

end ParityRecord

def byHeight (blocks : List CompactBlock) : List (Nat × CompactBlock) := blocks.map fun x => (x.height, x)

def diffAt (a b : List CompactBlock) (height : Nat) : Option ParityRecord :=
  match collect (byHeight a) height, collect (byHeight b) height with
  | some x, some y => if x = y then none else some ⟨height, ParityRecord.differs⟩
  | some _, none => some ⟨height, ParityRecord.missingFromB⟩
  | none, some _ => some ⟨height, ParityRecord.missingFromA⟩
  | none, none => none

def diffRanges (a b : List CompactBlock) : List ParityRecord :=
  let heights := ((a ++ b).map (·.height)).dedup.insertionSort (· ≤ ·)
  heights.filterMap (diffAt a b)

-- `LwdClient::block_range` drains the stream and sorts it.
def blockRange (stream : List CompactBlock) : List CompactBlock :=
  stream.insertionSort fun a b => a.height ≤ b.height

structure Tally where
  ops : Nat
  errors : Nat
  violations : List Violation

def Tally.new : Tally := ⟨0, 0, []⟩

def Tally.merge (t other : Tally) : Tally :=
  ⟨t.ops + other.ops, t.errors + other.errors, t.violations ++ other.violations⟩

def Tally.found (t : Tally) (violations : List Violation) : Tally :=
  { t with violations := t.violations ++ violations }

-- One connection. Between the two calls of the oracle in a round, `pending` holds both responses.
structure Task where
  ta : Tally
  tb : Tally
  parity : List ParityRecord
  seenDiff : List (Nat × String)
  seenA : List (Nat × String)
  seenB : List (Nat × String)
  pending : Option (List CompactBlock × List CompactBlock)
  done : Bool

def Task.new : Task := ⟨.new, .new, [], [], [], [], none, false⟩

structure Driver where
  -- A key of the build profile.
  overflowChecks : Bool
  label : String
  -- `LoadDriver::pair`
  paired : Bool
  connections : Nat
  -- `Scenario::range_for`
  rangeFor : Nat → Nat × Nat
  stableBelow : Option Nat
  duration : Nat

structure State where
  tasks : Nat → Task
  seen : Seen

def State.init : State := ⟨fun _ => .new, fun _ => none⟩

inductive Event where
  -- The head of the loop: the time since the connection started, and what the backends stream when
  -- that is not past its duration.
  | round (conn elapsed : Nat) (ra rb : Except String (List CompactBlock))
  | second (conn : Nat)

inductive Failure where
  | panicked
  deriving DecidableEq

abbrev Stop : Type := Run.Stop Failure

namespace Driver

variable (d : Driver)

def violationKey (v : Violation) : Nat × String := (v.height, v.field)

def recordKey (r : ParityRecord) : Nat × String := (r.height, r.detail)

def observed (s : State) (i : Nat) (blocks : List CompactBlock) : Option (Seen × List Violation) :=
  observe d.overflowChecks d.stableBelow s.seen (d.rangeFor i).1 (d.rangeFor i).2 blocks

-- `observe_into` on either side, once the oracle has answered.
def noteA (v : List Violation) (task : Task) : Task :=
  let (seenA, kept) := keepNew violationKey task.seenA v
  { task with seenA, ta := task.ta.found kept }

def noteB (v : List Violation) (task : Task) : Task :=
  let (seenB, kept) := keepNew violationKey task.seenB v
  { task with seenB, tb := task.tb.found kept }

def compare (a b : List CompactBlock) (task : Task) : Task :=
  let (seenDiff, kept) := keepNew recordKey task.seenDiff (diffRanges a b)
  { task with seenDiff, parity := task.parity ++ kept }

def countOps (paired : Bool) (task : Task) : Task :=
  { task with
    ta.ops := task.ta.ops + 1
    tb.ops := if paired then task.tb.ops + 1 else task.tb.ops }

def failed (r : Except String (List CompactBlock)) : Nat :=
  match r with
  | .ok _ => 0
  | .error _ => 1

def countErrors (paired : Bool) (ra rb : Except String (List CompactBlock)) (task : Task) : Task :=
  { task with
    ta.errors := task.ta.errors + failed ra
    tb.errors := if paired then task.tb.errors + failed rb else task.tb.errors }

def request (s : State) (i : Nat) (ra rb : Except String (List CompactBlock)) : Option State :=
  let task := s.tasks i
  match d.paired, ra, rb with
  | false, .ok ba, _ =>
    (d.observed s i (blockRange ba)).map fun (seen, v) =>
      ⟨Function.update s.tasks i (noteA v (countOps false task)), seen⟩
  | true, .ok ba, .ok bb =>
    (d.observed s i (blockRange ba)).map fun (seen, v) =>
      let task := noteA v (countOps true task)
      ⟨Function.update s.tasks i { task with pending := some (blockRange ba, blockRange bb) }, seen⟩
  | paired, ra, rb => some { s with tasks := Function.update s.tasks i (countErrors paired ra rb task) }

def step (s : State) : Event → Except Stop (State × Unit)
  | .round i elapsed ra rb =>
    let task := s.tasks i
    if i < d.connections ∧ task.done = false ∧ task.pending = none then
      if elapsed < d.duration then
        match d.request s i ra rb with
        | some s => .ok (s, ())
        | none => .error (.ended .panicked)
      else .ok ({ s with tasks := Function.update s.tasks i { task with done := true } }, ())
    else
      .error .disabled
  | .second i =>
    match (s.tasks i).pending with
    | some (a, b) =>
      match d.observed s i b with
      | some (seen, v) =>
        let task := noteB v { s.tasks i with pending := none }
        .ok (⟨Function.update s.tasks i (compare a b task), seen⟩, ())
      | none => .error (.ended .panicked)
    | none => .error .disabled

end Driver

structure Side where
  totalOps : Nat
  errors : Nat
  violations : List Violation

def Tally.intoSide (t : Tally) : Side := ⟨t.ops, t.errors, t.violations⟩

structure LoadReport where
  label : String
  connections : Nat
  a : Side
  b : Option Side
  parityDiffs : List ParityRecord

structure Merged where
  ma : Tally
  mb : Tally
  seen : List (Nat × String)
  parity : List ParityRecord

def Merged.join (m : Merged) (task : Task) : Merged :=
  let (seen, kept) := keepNew Driver.recordKey m.seen task.parity
  ⟨m.ma.merge task.ta, m.mb.merge task.tb, seen, m.parity ++ kept⟩

def Driver.report (d : Driver) (s : State) : LoadReport :=
  let tasks := (List.range d.connections).map s.tasks
  let m := tasks.foldl Merged.join ⟨.new, .new, [], []⟩
  { label := d.label
    connections := d.connections
    a := m.ma.intoSide
    b := if d.paired then some m.mb.intoSide else none
    parityDiffs := m.parity.insertionSort fun p q => p.height ≤ q.height }

inductive CorrectnessError where
  | violations (label : String) (count : Nat) (first : String)
  | errors (label : String) (errors attempts : Nat)

inductive ParityError where
  | diverged (label : String) (count : Nat) (first : String)
  | notDifferential (label : String)

namespace LoadReport

def sides (r : LoadReport) : List (String × Side) :=
  (r.label, r.a) :: (r.b.map fun b => (r.label ++ " [backend B]", b)).toList

def violationsOf : String × Side → Option CorrectnessError
  | (name, side) => side.violations.head?.map fun first =>
    .violations name side.violations.length first.display

def errorsOf : String × Side → Option CorrectnessError
  | (name, side) => if 0 < side.errors then some (.errors name side.errors (side.totalOps + side.errors)) else none

def assertCorrect (r : LoadReport) : Except CorrectnessError Unit :=
  match (r.sides.findSome? violationsOf).or (r.sides.findSome? errorsOf) with
  | some e => .error e
  | none => .ok ()

def assertParity (r : LoadReport) : Except ParityError Unit :=
  match r.b, r.parityDiffs.head? with
  | none, _ => .error (.notDifferential r.label)
  | some _, none => .ok ()
  | some _, some first => .error (.diverged r.label r.parityDiffs.length first.display)

end LoadReport
end Load
end Loadtest
