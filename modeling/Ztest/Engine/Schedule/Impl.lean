import Ztest.Engine.Events
import Ztest.Qos.Scheduler.Impl
import Ztest.Resource.Node
import Mathlib.Data.List.Sort

/-!
This module contains the capacity-bounded run loop of `engine/schedule.rs`. The loop is a machine:
`LoopState.start` is everything before the first `select!`, one `Input` is one wake-up of it, and the
environment chooses which arm fires, which test completes with which outcome, which ceiling arrives
and when the cancel flag is raised. An arm that cannot fire is `disabled`, which is no behaviour of
the source.

The flag behind `cfg.cancel` is set by another thread, so an arm that reads it twice may see it
change. The inputs carry these changes (`raise`), the flag never falls.
-/

namespace Engine

open Qos Resource

structure WorkItem where
  binaryId : String
  testName : String
  cls : QosClass
  footprint : Resources
  retries : Nat
  deps : List NodeId
  deriving DecidableEq

def key (item : WorkItem) : String × String := (item.binaryId, item.testName)

def toRequest (item : WorkItem) (sa : String) : Request where
  binaryId := item.binaryId
  testName := item.testName
  sa := sa
  footprint := item.footprint

structure LoopConfig where
  failFast : Bool
  slowAfter : Option Nat
  sa : String
  runId : String
  resources : AList (fun _ : NodeId => NodeState)
  maxInflight : Option Nat
  -- Whether the ceiling channel and the cross-run reservation are there.
  capRx : Bool
  reservation : Bool

def unmetDep (item : WorkItem) (resources : AList (fun _ : NodeId => NodeState))
    : Option SkipReason :=
  go item.deps
where
  go : List NodeId → Option SkipReason
    | [] => none
    | dep :: deps =>
      match resources.lookup dep with
      | some (.failed detail) => some (.dependencyUnavailable s!"{dep.debug}: {detail}")
      | some .blocked =>
        some (.dependencyUnavailable s!"{dep.debug}: blocked by a failed dependency")
      | _ => go deps

def skipReason : RejectReason → SkipReason
  | .exceedsClusterCapacity => .exceedsClusterCapacity
  | .exceedsSaBudget => .exceedsSaBudget

structure Running where
  item : WorkItem
  attempt : Nat
  started : Nat
  slowEmitted : Bool

structure RunningTest where
  name : String
  footprint : Resources
  startedAt : Nat

structure Progress where
  total : Nat
  queued : Nat
  failed : Nat
  running : List RunningTest

structure Report where
  committed : Resources
  demand : Resources
  progress : Progress

structure LoopState where
  stats : RunStats
  sched : Scheduler
  inflight : AList (fun _ : SlotId => Running)
  parked : AList (fun _ : String × String => WorkItem × Nat)
  ready : List (SlotId × WorkItem × Nat)
  futs : List SlotId
  failFastTripped : Bool
  cancelled : Option CancelReason
  cancelFlag : Bool
  origin : Nat
  events : List TestEvent
  report : Option Report

inductive LoopPanic where
  | scheduler (p : Qos.Panic)
  | inflightEntryMissing

abbrev Stop : Type := Run.Stop LoopPanic

namespace LoopState

def emit (s : LoopState) (ev : TestEvent) : LoopState := { s with events := s.events ++ [ev] }

def emitFinished (s : LoopState) (running : Running) (outcome : TestOutcome) : LoopState :=
  s.emit (.testFinished running.item.binaryId running.item.testName outcome.verdict outcome.duration
    running.attempt outcome.output outcome.components)

def skip (s : LoopState) (item : WorkItem) (reason : SkipReason) : LoopState :=
  { s.emit (.testSkipped item.binaryId item.testName reason) with
    stats := { s.stats with skipped := s.stats.skipped + 1 } }

def spawnGranted (s : LoopState) (now : Nat) (slot : SlotId) (item : WorkItem) (attempt : Nat)
    : LoopState :=
  { s.emit (.testStarted item.binaryId item.testName item.cls attempt) with
    futs := s.futs ++ [slot]
    inflight := s.inflight.insert slot ⟨item, attempt, now, false⟩ }

-- No `max_inflight` is `usize::MAX`, more than a map can hold.
def belowCap (cfg : LoopConfig) (running : Nat) : Bool :=
  match cfg.maxInflight with
  | none => true
  | some cap => running < cap

def pump (s : LoopState) (cfg : LoopConfig) (now : Nat) : LoopState :=
  go s s.ready
where
  go (s : LoopState) : List (SlotId × WorkItem × Nat) → LoopState
    | [] => { s with ready := [] }
    | (slot, item, attempt) :: rest =>
      if belowCap cfg s.inflight.entries.length then
        go (s.spawnGranted now slot item attempt) rest
      else
        { s with ready := (slot, item, attempt) :: rest }

def runningTests (s : LoopState) : List RunningTest :=
  (s.inflight.entries.map fun e =>
    ⟨e.2.item.testName, e.2.item.footprint, e.2.started - s.origin⟩).insertionSort
      fun a b => b.startedAt ≤ a.startedAt

def progressOf (s : LoopState) : Progress where
  total := s.stats.total
  queued := s.stats.total - s.stats.finished - s.runningTests.length
  failed := s.stats.failed
  running := s.runningTests

def publishDemand (s : LoopState) (cfg : LoopConfig) : LoopState :=
  if cfg.reservation then
    { s with report := some ⟨s.sched.committed, s.sched.demand, s.progressOf⟩ }
  else
    s

def filed (s : LoopState) (item : WorkItem) (attempt : Nat) (sched : Scheduler)
    : Admission SlotId → LoopState
  | .granted lease => { s with sched, ready := s.ready ++ [(lease, item, attempt)] }
  | .queued => { s with sched, parked := s.parked.insert (key item) (item, attempt) }
  | .rejected reason => { s with sched }.skip item (skipReason reason)

def file (s : LoopState) (cfg : LoopConfig) (item : WorkItem) (attempt : Nat)
    : Except Stop LoopState :=
  match s.sched.request (toRequest item cfg.sa) with
  | .error p => .error (.ended (.scheduler p))
  | .ok (sched, a) => .ok (s.filed item attempt sched a)

def submit (s : LoopState) (cfg : LoopConfig) (item : WorkItem) : Except Stop LoopState :=
  match unmetDep item cfg.resources with
  | some reason => .ok (s.skip item reason)
  | none => s.file cfg item 1

def submitAll (s : LoopState) (cfg : LoopConfig) : List WorkItem → Except Stop LoopState
  | [] => .ok s
  | item :: items =>
    match s.submit cfg item with
    | .ok s => s.submitAll cfg items
    | .error e => .error e

def init (cfg : LoopConfig) (items : List WorkItem) (ceiling : Resources) (cancelFlag : Bool)
    (now : Nat) : LoopState where
  stats := { total := items.length }
  sched := .new ceiling
  inflight := ∅
  parked := ∅
  ready := []
  futs := []
  failFastTripped := false
  cancelled := none
  cancelFlag := cancelFlag
  origin := now
  events := [.runStarted items.length cfg.runId]
  report := none

def start (cfg : LoopConfig) (items : List WorkItem) (ceiling : Resources) (cancelFlag : Bool)
    (now : Nat) : Except Stop LoopState :=
  match (init cfg items ceiling cancelFlag now).submitAll cfg items with
  | .ok s => .ok ((s.pump cfg now).publishDemand cfg)
  | .error e => .error e

def placeGrant (s : LoopState) (g : Admitted) : LoopState :=
  match s.parked.lookup (g.binaryId, g.testName) with
  | some (item, attempt) =>
    { s with
      parked := s.parked.erase (g.binaryId, g.testName)
      ready := s.ready ++ [(g.slotId, item, attempt)] }
  | none => s

def placeGrants (s : LoopState) (grants : List Admitted) : LoopState :=
  grants.foldl placeGrant s

def admitGrants (s : LoopState) (cfg : LoopConfig) (grants : List Admitted) (now : Nat)
    : LoopState :=
  if !s.failFastTripped && !s.cancelFlag then
    (s.placeGrants grants).pump cfg now
  else
    s

def raise (s : LoopState) (flag : Bool) : LoopState := { s with cancelFlag := s.cancelFlag || flag }

def settle (s : LoopState) (cfg : LoopConfig) (running : Running) (outcome : TestOutcome)
    : Except Stop LoopState :=
  if outcome.verdict.isPass then
    let s := s.emitFinished running outcome
    .ok { s with stats := { s.stats with passed := s.stats.passed + 1 } }
  else if outcome.verdict.retryable && running.attempt ≤ running.item.retries
      && !s.failFastTripped && !s.cancelFlag then
    let s := s.emit (.testRetrying running.item.binaryId running.item.testName
      (running.attempt + 1) 0 outcome.verdict outcome.duration)
    s.file cfg running.item (running.attempt + 1)
  else if outcome.verdict = .terminated then
    let s := s.emitFinished running outcome
    .ok { s with stats := { s.stats with terminated := s.stats.terminated + 1 } }
  else
    let s := s.emitFinished running outcome
    .ok { s with
      stats := { s.stats with failed := s.stats.failed + 1 }
      failFastTripped := s.failFastTripped || cfg.failFast }

def slowEvents (s : LoopState) (now after : Nat) : List TestEvent :=
  s.inflight.entries.filterMap fun e =>
    if e.2.slowEmitted && after ≤ now - e.2.started then
      some (.testSlow e.2.item.binaryId e.2.item.testName (now - e.2.started) false e.2.attempt)
    else
      none

def markSlow (s : LoopState) (now after : Nat) : LoopState :=
  { s with
    inflight := s.inflight.mapVals fun _ r =>
      { r with slowEmitted := r.slowEmitted || after ≤ now - r.started } }

/--
One arm of the `select!`. `cancelWake` is the flag raised while the loop waits. `complete` is
`futs.next()` yielding `lease`, its two flags are raises of the cancel flag before the retry gate and
before the admission gate.
-/
inductive Arm where
  | cancelWake
  | complete (lease : SlotId) (outcome : TestOutcome) (raiseRetry raiseAdmit : Bool)
  | ceiling (newCeiling : Resources) (raiseAdmit : Bool)
  | tick

def complete (s : LoopState) (cfg : LoopConfig) (now : Nat) (lease : SlotId)
    (outcome : TestOutcome) (raiseRetry raiseAdmit : Bool) : Except Stop LoopState :=
  if lease ∈ s.futs then
    match s.inflight.lookup lease with
    | none => .error (.ended .inflightEntryMissing)
    | some running =>
      match s.sched.release lease with
      | .error p => .error (.ended (.scheduler p))
      | .ok (sched, grants) =>
        let s := { s with
          sched, futs := s.futs.erase lease, inflight := s.inflight.erase lease }
        match (s.raise raiseRetry).settle cfg running outcome with
        | .error e => .error e
        | .ok s => .ok (((s.raise raiseAdmit).admitGrants cfg grants now).publishDemand cfg)
  else
    .error .disabled

def moveCeiling (s : LoopState) (cfg : LoopConfig) (now : Nat) (newCeiling : Resources)
    (raiseAdmit : Bool) : Except Stop LoopState :=
  if cfg.capRx then
    match s.sched.reconcile newCeiling with
    | .error p => .error (.ended (.scheduler p))
    | .ok (sched, grants) =>
      .ok ((({ s with sched }.raise raiseAdmit).admitGrants cfg grants now).publishDemand cfg)
  else
    .error .disabled

def tick (s : LoopState) (cfg : LoopConfig) (now : Nat) : LoopState :=
  match cfg.slowAfter with
  | none => s
  | some after =>
    let s := s.markSlow now after
    { s with events := s.events ++ s.slowEvents now after }

def loopTop (s : LoopState) : LoopState :=
  if s.cancelled = none && s.cancelFlag then
    { s.emit (.runCancelling .interrupt s.inflight.entries.length) with
      cancelled := some .interrupt }
  else
    s

inductive Input where
  | interrupt
  | select (arm : Arm) (now : Nat)

def runArm (s : LoopState) (cfg : LoopConfig) (arm : Arm) (now : Nat) : Except Stop LoopState :=
  match arm with
  | .cancelWake => if s.cancelled = none then .ok (s.raise true) else .error .disabled
  | .complete lease outcome raiseRetry raiseAdmit =>
    s.complete cfg now lease outcome raiseRetry raiseAdmit
  | .ceiling newCeiling raiseAdmit => s.moveCeiling cfg now newCeiling raiseAdmit
  | .tick => .ok (s.tick cfg now)

def step (cfg : LoopConfig) (s : LoopState) (input : Input) : Except Stop (LoopState × Unit) :=
  match input with
  | .interrupt => .ok ({ s with cancelFlag := true }, ())
  | .select arm now =>
    if s.futs = [] then
      .error .disabled
    else
      (s.loopTop.runArm cfg arm now).map fun s => (s, ())

def finish (s : LoopState) (now : Nat) : LoopState :=
  s.emit (.runFinished s.stats (now - s.origin))

def run (cfg : LoopConfig) (items : List WorkItem) (ceiling : Resources) (cancelFlag : Bool)
    (now : Nat) (inputs : List Input) : Except Stop LoopState :=
  match start cfg items ceiling cancelFlag now with
  | .ok s => Run.exec (step cfg) s inputs
  | .error e => .error e

end LoopState
end Engine
