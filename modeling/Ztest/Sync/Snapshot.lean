import Mathlib.Tactic.Common
import Ztest.Lib.Saturating

/-!
This module contains the snapshot of one tick, the rolling state it is built from and the bounded
history. The columns only a probe's body reads (work, balances, tree roots, notes, scan) are left
out.

It also contains the restart window of the watched components, folded from container samples, and the probes of a
sync run: their taxonomy, their answers and the scheduler state the runner threads across ticks. Instants and
durations are nanoseconds.
-/

namespace Sync

structure ProgressView where
  height : Nat
  target : Option Nat

-- What every observer of a tick meets: a kill is fired before the subject is asked, and a subject that does
-- not answer has no progress.
structure Pulse where
  now : Nat
  faulted : Bool
  progress : Option ProgressView

structure TickEvents where
  lastFaultAt : Option Nat
  restarts : Nat
  restarting : Bool

def TickEvents.default : TickEvents where
  lastFaultAt := none
  restarts := 0
  restarting := false

structure Snapshot where
  seq : Nat
  atInstant : Nat
  height : Nat
  prevHeight : Nat
  target : Option Nat
  sincePrev : Nat
  maxHeightSeen : Nat
  lastProgressAt : Nat
  observedReorg : Bool
  observedReconnect : Bool
  lastFaultAt : Option Nat
  restarts : Nat
  restarting : Bool
  deriving DecidableEq

namespace Snapshot

def reorgDepth (snap : Snapshot) : Nat := snap.maxHeightSeen - snap.height

def progressedWithin (snap : Snapshot) (window : Nat) : Bool :=
  snap.atInstant - snap.lastProgressAt ≤ window

def progressedSinceFault (snap : Snapshot) : Bool :=
  match snap.lastFaultAt with
  | some faultAt => faultAt ≤ snap.lastProgressAt
  | none => true

end Snapshot

structure SnapshotBuilder where
  seq : Nat
  prevHeight : Nat
  prevAt : Nat
  maxHeightSeen : Nat
  lastProgressAt : Nat
  observedReorg : Bool
  observedReconnect : Bool

namespace SnapshotBuilder

def new (startedAt : Nat) : SnapshotBuilder where
  seq := 0
  prevHeight := 0
  prevAt := startedAt
  maxHeightSeen := 0
  lastProgressAt := startedAt
  observedReorg := false
  observedReconnect := false

def opening (b : SnapshotBuilder) (height now : Nat) : SnapshotBuilder :=
  if b.seq = 0 then
    { b with prevHeight := height, prevAt := now, maxHeightSeen := height, lastProgressAt := now }
  else
    b

def build (b : SnapshotBuilder) (p : ProgressView) (now : Nat) (events : TickEvents)
    : SnapshotBuilder × Snapshot :=
  let b := b.opening p.height now
  let lastProgressAt := if b.prevHeight < p.height then now else b.lastProgressAt
  let observedReorg := b.observedReorg || p.height < b.maxHeightSeen
  let maxHeightSeen := Nat.max b.maxHeightSeen p.height
  let snap : Snapshot :=
    { seq := b.seq
      atInstant := now
      height := p.height
      prevHeight := b.prevHeight
      target := p.target
      sincePrev := now - b.prevAt
      maxHeightSeen
      lastProgressAt
      observedReorg
      observedReconnect := b.observedReconnect
      lastFaultAt := events.lastFaultAt
      restarts := events.restarts
      restarting := events.restarting }
  ({ b with
      seq := b.seq + 1
      prevHeight := p.height
      prevAt := now
      maxHeightSeen
      lastProgressAt
      observedReorg },
    snap)

end SnapshotBuilder

structure History where
  buf : List Snapshot
  cap : Nat
  dropped : Nat

namespace History

def new (cap : Nat) : History where
  buf := []
  cap := cap
  dropped := 0

def push (h : History) (snap : Snapshot) : History :=
  if h.buf.length = h.cap then
    { h with buf := h.buf.tail ++ [snap], dropped := h.dropped + 1 }
  else
    { h with buf := h.buf ++ [snap] }

def latest (h : History) : Option Snapshot := h.buf.getLast?

end History

structure ContainerSample where
  restarts : Nat
  ready : Bool

structure RestartWatch where
  baseline : List (Option Nat)
  seen : Nat
  holding : Bool

structure RestartView where
  restarts : Nat
  holding : Bool

namespace RestartWatch

def default : RestartWatch where
  baseline := []
  seen := 0
  holding := false

def openWindow (w : RestartWatch) : RestartWatch := { w with holding := true }

-- `Vec::resize` with `None`.
def resize (baseline : List (Option Nat)) (n : Nat) : List (Option Nat) :=
  baseline.take n ++ List.replicate (n - baseline.length) none

def fold : List (Option Nat) → List (Option ContainerSample) → List (Option Nat) × Nat × Bool
  | base :: bases, none :: samples =>
    let (bases, restarts, down) := fold bases samples
    (base :: bases, restarts, down)
  | base :: bases, some s :: samples =>
    let (bases, restarts, down) := fold bases samples
    let base := base.getD s.restarts
    (some base :: bases, s.restarts - base + restarts, !s.ready || down)
  | bases, _ => (bases, 0, false)

def observe (w : RestartWatch) (samples : List (Option ContainerSample)) (subjectAnswered : Bool)
    : RestartWatch × RestartView :=
  let (baseline, restarts, down) := fold (resize w.baseline samples.length) samples
  let holding := w.holding || w.seen < restarts || down
  let seen := Nat.max w.seen restarts
  let holding := holding && !(holding && !down && subjectAnswered)
  (⟨baseline, seen, holding⟩, ⟨seen, holding⟩)

end RestartWatch

namespace Duration

def max : Nat := (2 ^ 64 - 1) * 1000000000 + 999999999

def fraction (nanos digits : Nat) : String :=
  let padded := List.replicate (digits - (Nat.toDigits 10 nanos).length) '0' ++ Nat.toDigits 10 nanos
  String.ofList (padded.reverse.dropWhile (· == '0')).reverse

def decimal (whole nanos digits : Nat) (unit : String) : String :=
  if nanos = 0 then
    toString whole ++ unit
  else
    toString whole ++ "." ++ fraction nanos digits ++ unit

-- `Debug`, without a precision: the largest unit that leaves a whole part.
def debug (d : Nat) : String :=
  if 1000000000 ≤ d then
    decimal (d / 1000000000) (d % 1000000000) 9 "s"
  else if 1000000 ≤ d then
    decimal (d / 1000000) (d % 1000000) 6 "ms"
  else if 1000 ≤ d then
    decimal (d / 1000) (d % 1000) 3 "µs"
  else
    decimal d 0 0 "ns"

end Duration

structure Violation where
  probe : String
  height : Option Nat
  detail : String
  deriving DecidableEq

inductive Verdict where
  | satisfied
  | pending
  | violated (v : Violation)
  | probeError (e : String)
  deriving DecidableEq

namespace Verdict

def isViolated : Verdict → Bool
  | violated _ => true
  | _ => false

def isProbeError : Verdict → Bool
  | probeError _ => true
  | _ => false

end Verdict

inductive Severity where
  | fatal
  | recorded
  deriving DecidableEq

inductive Class where
  | always
  | eventually
  | sometimes
  | atCompletion
  deriving DecidableEq

inductive Cadence where
  | eachTick
  | every (d : Nat)
  | everyBlocks (n : Nat)
  | window (d : Nat)

structure ProbeSpec where
  name : String
  cls : Class
  severity : Severity
  cadence : Cadence
  after : Option String
  holdFor : Option Nat
  within : Option Nat
  lastFiredSeq : Option Nat
  lastFiredHeight : Nat
  nextDue : Option Nat
  violationStreak : Nat
  lastSatisfied : Option Nat
  everSatisfied : Bool

namespace ProbeSpec

def fresh (spec : ProbeSpec) : ProbeSpec :=
  { spec with
    lastFiredSeq := none
    lastFiredHeight := 0
    nextDue := none
    violationStreak := 0
    lastSatisfied := none
    everSatisfied := false }

def due (spec : ProbeSpec) (height now : Nat) : Bool :=
  match spec.cls with
  | .sometimes | .atCompletion => false
  | .always | .eventually =>
    match spec.cadence with
    | .eachTick | .window _ => true
    | .every _ => spec.nextDue.all (· ≤ now)
    | .everyBlocks n => spec.lastFiredSeq.isNone || n ≤ height - spec.lastFiredHeight

def markFired (spec : ProbeSpec) (seq height now : Nat) : ProbeSpec :=
  { spec with
    lastFiredSeq := some seq
    lastFiredHeight := height
    nextDue :=
      match spec.cadence with
      | .every d => some (now + d)
      | _ => spec.nextDue }

-- `ceilQuotient` is the quotient of two durations in seconds, rounded up: it is taken in `f64`.
def violationThreshold (ceilQuotient : Nat → Nat → Nat) (spec : ProbeSpec) : Nat :=
  match spec.holdFor, spec.cadence with
  | some hold, .every d => if d = 0 then 1 else ceilQuotient hold d
  | _, _ => 1

end ProbeSpec

structure ProbeBuilder where
  name : String
  cls : Class
  severity : Severity
  cadence : Cadence
  after : Option String
  holdFor : Option Nat
  within : Option Nat

def ProbeBuilder.new (name : String) (cls : Class) (severity : Severity) : ProbeBuilder where
  name := name
  cls := cls
  severity := severity
  cadence := if cls = .eventually then .window Duration.max else .eachTick
  after := none
  holdFor := none
  within := none

def ProbeBuilder.check (b : ProbeBuilder) : ProbeSpec where
  name := b.name
  cls := b.cls
  severity := b.severity
  cadence := b.cadence
  after := b.after
  holdFor := b.holdFor
  within := b.within
  lastFiredSeq := none
  lastFiredHeight := 0
  nextDue := none
  violationStreak := 0
  lastSatisfied := none
  everSatisfied := false

theorem ProbeBuilder.check_fresh (b : ProbeBuilder) : b.check.fresh = b.check := rfl

end Sync
