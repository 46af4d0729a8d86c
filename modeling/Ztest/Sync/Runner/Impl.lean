import Mathlib.Data.List.Sort
import Ztest.Lib.Run
import Ztest.Sync.Snapshot

/-!
This module contains the sync engine: the probes judged at a tick and at the finish line, the tick
loop of one phase and the fold of what the phases leave behind. Everything a run meets outside is in
its `World`: the answers of the probes, the readings of the subject, the kubelet, the clock and the
cancellation. Rows, work, segments and the reporter decide no verdict and are left out.
-/

namespace Sync

inductive SyncVerdict where
  | passed
  | failed
  | cancelled
  | timedOut
  | errored
  deriving DecidableEq

def SyncVerdict.isPass : SyncVerdict → Bool
  | passed => true
  | _ => false

inductive FaultKind where
  | partition (a b : String)
  | netem (node : String)
  | isolateP2p (node : String)
  | kill (component : String)

def FaultKind.isKill : FaultKind → Bool
  | kill _ => true
  | _ => false

structure ScheduledFault where
  name : Option String
  offset : Nat
  kind : FaultKind

structure Chaos where
  origin : Nat
  pending : List ScheduledFault
  fired : List (String × Nat)
  lastFaultAt : Option Nat

namespace Chaos

def new (faults : List ScheduledFault) (origin : Nat) : Chaos where
  origin := origin
  pending := (faults.filter (·.kind.isKill)).insertionSort fun a b => a.offset ≤ b.offset
  fired := []
  lastFaultAt := none

def takeDue (c : Chaos) (now : Nat) : Chaos × List ScheduledFault :=
  let due := c.pending.takeWhile fun f => c.origin + f.offset ≤ now
  ({ c with pending := c.pending.drop due.length }, due)

def record (c : Chaos) (fault : ScheduledFault) (now : Nat) : Chaos :=
  { c with
    fired := c.fired ++ (fault.name.map fun name => (name, now)).toList
    lastFaultAt := some now }

def hasFired (c : Chaos) (name : String) : Bool := c.fired.any (·.1 == name)

end Chaos

structure Watched where
  name : String
  container : String

def Watched.answersTo (w : Watched) (name : String) : Bool := w.name == name || w.container == name

def killTarget (watched : List Watched) (component : String) : Except String Watched :=
  match watched.filter (·.answersTo component) with
  | [w] => .ok w
  | [] => .error ("nemesis kill: no component named " ++ component.quote)
  | _ => .error ("nemesis kill: " ++ component.quote ++ " names several pods")

/--
A registered phase. Only `check` registers a probe, with fresh scheduler state.
-/
structure Phase where
  name : String
  probes : List ProbeSpec
  timeout : Option Nat
  stopHeight : Option Nat
  stopAfter : Option Nat
  probes_fresh : ∀ spec ∈ probes, spec.fresh = spec

def Phase.bound (name : String) (probes : List ProbeBuilder) : Phase where
  name := name
  probes := probes.map ProbeBuilder.check
  timeout := none
  stopHeight := none
  stopAfter := none
  probes_fresh := by
    intro spec h
    rw [List.mem_map] at h
    obtain ⟨b, -, rfl⟩ := h
    exact b.check_fresh

structure SyncEngine where
  first : Phase
  rest : List Phase
  throughout : List ProbeSpec
  historyCap : Nat
  faults : List ScheduledFault
  watched : List Watched

structure Tick where
  cancelled : Bool
  now : Nat
  -- The error of the `i`-th kill due at this tick.
  kills : Nat → Option String
  samples : List (Option ContainerSample)
  progress : Except String ProgressView
  failure : Option String
  complete : Bool

-- One round of the retry loop: the clock behind the judgement, and what ends the sleep.
structure Attempt where
  now : Nat
  cancelled : Bool

structure Retry where
  begun : Nat
  attempts : List Attempt

-- What a phase finds at its finish line: the second progress read and the retries of each probe.
structure Finish where
  progress : Except String ProgressView
  now : Nat
  retries : Nat → Retry

inductive Opening where
  | cancelled
  | timedOut
  | buildFailed (e : String)
  | launchFailed (e : String)
  | readyCancelled
  | late (e : String)
  | unmeasured (e : String)
  | launched

def Opening.early : Opening → Option (SyncVerdict × Option String)
  | cancelled => some (.cancelled, none)
  | timedOut => some (.timedOut, none)
  | buildFailed e => some (.errored, some ("build subject: " ++ e))
  | launchFailed e => some (.errored, some ("launch: " ++ e))
  | readyCancelled => some (.cancelled, none)
  | late e => some (.errored, some e)
  | unmeasured e => some (.errored, some e)
  | launched => none

structure Timeline where
  started : Nat
  opening : Opening
  launched : Nat
  ticks : List Tick
  finish : Finish

structure World where
  started : Nat
  -- The error of `ensure_restartable` for the `i`-th scheduled kill.
  restartable : Nat → Option String
  -- The `k`-th answer a probe gives in the run.
  answers : Nat → Verdict
  ceilQuotient : Nat → Nat → Nat
  -- What the `i`-th phase meets.
  timeline : Nat → Timeline

/--
One call of a probe's body: the position of the probe, the snapshot it was given and its answer.
-/
structure Judgement where
  probe : Nat
  snap : Snapshot
  verdict : Verdict

-- `asked` counts through the whole run. The judgements of the phase stand newest first.
structure Bench where
  asked : Nat
  judged : List Judgement
  violations : List Violation

def Bench.judge (answers : Nat → Verdict) (b : Bench) (j : Nat) (snap : Snapshot)
    : Verdict × Bench :=
  let verdict := answers b.asked
  (verdict, { b with asked := b.asked + 1, judged := ⟨j, snap, verdict⟩ :: b.judged })

def Bench.violate (b : Bench) (v : Violation) : Bench :=
  { b with violations := b.violations ++ [v] }

section Eval

variable (answers : Nat → Verdict)

def sometimesStep (snap : Snapshot) (j : Nat) (spec : ProbeSpec) (b : Bench)
    : ProbeSpec × Bench × Option String :=
  if spec.cls = .sometimes ∧ spec.everSatisfied = false then
    match b.judge answers j snap with
    | (.satisfied, b) => ({ spec with everSatisfied := true }, b, none)
    | (.probeError e, b) => (spec, b, some (spec.name ++ ": " ++ e))
    | (.pending, b) | (.violated _, b) => (spec, b, none)
  else
    (spec, b, none)

def evalSometimes (snap : Snapshot) (probes : List ProbeSpec) (b : Bench)
    : List ProbeSpec × Bench × Option String :=
  Sweep.sweep (sometimesStep answers snap) 0 probes b

def judgeUntil (j : Nat) (snap : Snapshot) (retryUntil : Option Nat)
    : List Attempt → Bench → Option (Verdict × Bench)
  | [], _ => none
  | a :: as, b =>
    let (verdict, b) := b.judge answers j snap
    if verdict.isViolated && retryUntil.any (a.now < ·) then
      if a.cancelled then some (verdict, b) else judgeUntil j snap retryUntil as b
    else
      some (verdict, b)

inductive Cut where
  -- The retry loop is still going.
  | unfinished
  | errored (msg : String)

def completionStep (snap : Snapshot) (retries : Nat → Retry) (j : Nat) (spec : ProbeSpec)
    (s : Bench × Bool) : ProbeSpec × (Bench × Bool) × Option Cut :=
  if spec.cls = .atCompletion then
    let retryUntil := spec.within.map ((retries j).begun + ·)
    match judgeUntil answers j snap retryUntil (retries j).attempts s.1 with
    | none => (spec, s, some .unfinished)
    | some (.satisfied, b) | some (.pending, b) => (spec, (b, s.2), none)
    | some (.violated v, b) =>
      (spec, (b.violate { v with probe := spec.name }, s.2 || spec.severity == .fatal), none)
    | some (.probeError e, b) => (spec, (b, s.2), some (.errored (spec.name ++ ": " ++ e)))
  else
    (spec, s, none)

def evalAtCompletion (snap : Snapshot) (retries : Nat → Retry) (probes : List ProbeSpec) (b : Bench)
    : List ProbeSpec × (Bench × Bool) × Option Cut :=
  Sweep.sweep (completionStep answers snap retries) 0 probes (b, false)

-- `Flow::Continue` is no flow.
inductive Flow where
  | failFast
  | abort (msg : String)

def Flow.ofSeverity : Severity → Option Flow
  | .fatal => some failFast
  | .recorded => none

variable (ceilQuotient : Nat → Nat → Nat)

def alwaysStep (snap : Snapshot) (now : Nat) (j : Nat) (spec : ProbeSpec) (b : Bench)
    : ProbeSpec × Bench × Option Flow :=
  if spec.due snap.height now then
    let (verdict, b) := b.judge answers j snap
    let spec := spec.markFired snap.seq snap.height now
    match verdict with
    | .satisfied | .pending => ({ spec with violationStreak := 0 }, b, none)
    | .violated v =>
      let spec := { spec with violationStreak := spec.violationStreak + 1 }
      if spec.violationThreshold ceilQuotient ≤ spec.violationStreak then
        (spec, b.violate { v with probe := spec.name }, Flow.ofSeverity spec.severity)
      else
        (spec, b, none)
    | .probeError e => (spec, b, some (.abort (spec.name ++ ": " ++ e)))
  else
    (spec, b, none)

def stall (spec : ProbeSpec) (height since window : Nat) : Violation where
  probe := spec.name
  height := some height
  detail := "liveness stall: not satisfied for " ++ Duration.debug since ++ " (window "
    ++ Duration.debug window ++ ")"

def ProbeSpec.livenessWindow (spec : ProbeSpec) : Nat :=
  match spec.cadence with
  | .window d => d
  | _ => Duration.max

def ProbeSpec.paused (spec : ProbeSpec) (chaos : Chaos) (snap : Snapshot) : Bool :=
  snap.restarting || !spec.after.all chaos.hasFired

def ProbeSpec.credit (spec : ProbeSpec) (paused : Bool) (now : Nat) : ProbeSpec :=
  if paused || spec.lastSatisfied.isNone then { spec with lastSatisfied := some now } else spec

def checkWindow (snap : Snapshot) (now : Nat) (spec : ProbeSpec) (b : Bench)
    : ProbeSpec × Bench × Option Flow :=
  let since := now - spec.lastSatisfied.getD now
  if spec.livenessWindow < since then
    (spec, b.violate (stall spec snap.height since spec.livenessWindow),
      Flow.ofSeverity spec.severity)
  else
    (spec, b, none)

def eventuallyStep (chaos : Chaos) (snap : Snapshot) (now : Nat) (j : Nat) (spec : ProbeSpec)
    (b : Bench) : ProbeSpec × Bench × Option Flow :=
  if spec.paused chaos snap then
    (spec.credit true now, b, none)
  else
    let spec := spec.credit false now
    match b.judge answers j snap with
    | (.satisfied, b) => ({ spec with lastSatisfied := some now }, b, none)
    | (.probeError e, b) => (spec, b, some (.abort (spec.name ++ ": " ++ e)))
    | (.pending, b) | (.violated _, b) => checkWindow snap now spec b

def tickStep (chaos : Chaos) (snap : Snapshot) (now : Nat) (j : Nat) (spec : ProbeSpec) (b : Bench)
    : ProbeSpec × Bench × Option Flow :=
  match spec.cls with
  | .atCompletion | .sometimes => (spec, b, none)
  | .always => alwaysStep answers ceilQuotient snap now j spec b
  | .eventually => eventuallyStep answers chaos snap now j spec b

def evalTick (chaos : Chaos) (snap : Snapshot) (now : Nat) (probes : List ProbeSpec) (b : Bench)
    : List ProbeSpec × Bench × Option Flow :=
  match evalSometimes answers snap probes b with
  | (probes, b, some msg) => (probes, b, some (.abort msg))
  | (probes, b, none) => Sweep.sweep (tickStep answers ceilQuotient chaos snap now) 0 probes b

end Eval

def creditLiveness (probes : List ProbeSpec) (now : Nat) : List ProbeSpec :=
  probes.map fun spec =>
    if spec.cls = .eventually then { spec with lastSatisfied := some now } else spec

def coverageGaps (probes : List ProbeSpec) : List String :=
  (probes.filter fun spec => spec.cls == .sometimes && !spec.everSatisfied).map (·.name)

structure Ending where
  verdict : SyncVerdict
  error : Option String
  completed : Bool

def Ending.cut (verdict : SyncVerdict) (error : Option String) : Ending where
  verdict := verdict
  error := error
  completed := false

structure PhaseRun where
  probes : List ProbeSpec
  stopHeight : Option Nat
  stopAfter : Option Nat
  restart : RestartWatch
  chaos : Chaos
  builder : SnapshotBuilder
  history : History
  events : TickEvents
  bench : Bench
  fatal : Bool
  final : Option Snapshot

namespace PhaseRun

inductive Stop where
  | ended (s : PhaseRun) (e : Ending)
  | unfinished

def applyFaults (watched : List Watched) (kills : Nat → Option String) (now : Nat)
    : Nat → List ScheduledFault → PhaseRun → PhaseRun × Option String
  | _, [], s => (s, none)
  | i, fault :: faults, s =>
    match fault.kind with
    | .kill component =>
      match killTarget watched component with
      | .error e => (s, some e)
      | .ok _ =>
        match kills i with
        | some e => (s, some ("nemesis kill " ++ component ++ ": " ++ e))
        | none =>
          applyFaults watched kills now (i + 1) faults
            { s with restart := s.restart.openWindow, chaos := s.chaos.record fault now }
    | _ => applyFaults watched kills now i faults s

def fireFaults (watched : List Watched) (s : PhaseRun) (t : Tick) : PhaseRun × Option String :=
  let (chaos, due) := s.chaos.takeDue t.now
  applyFaults watched t.kills t.now 0 due { s with chaos }

-- No reading: the prior state is held, and an open restart window pauses the liveness windows.
def hold (s : PhaseRun) (t : Tick) : PhaseRun :=
  let (restart, view) := s.restart.observe t.samples false
  { s with restart, probes := if view.holding then creditLiveness s.probes t.now else s.probes }

def snapshot (s : PhaseRun) (t : Tick) (p : ProgressView) : PhaseRun × Snapshot :=
  let (restart, view) := s.restart.observe t.samples true
  let events : TickEvents := ⟨s.chaos.lastFaultAt, view.restarts, view.holding⟩
  let (builder, snap) := s.builder.build p t.now events
  let stopHeight :=
    match s.stopAfter with
    | some blocks => some (min (snap.height + blocks) (2 ^ 32 - 1))
    | none => s.stopHeight
  ({ s with
      restart
      events
      builder
      stopHeight
      stopAfter := none
      history := s.history.push snap },
    snap)

/--
The finish line: a second reading, the `sometimes` probes again and the `at_completion` probes. A
failed reading skips all of them.
-/
def judgeFinish (answers : Nat → Verdict) (finish : Finish) (s : PhaseRun)
    : Option (PhaseRun × Option String) :=
  match finish.progress with
  | .error _ => some (s, none)
  | .ok p =>
    let (builder, final) := s.builder.build p finish.now s.events
    let s := { s with builder, final := some final }
    match evalSometimes answers final s.probes s.bench with
    | (probes, bench, some msg) => some ({ s with probes, bench }, some msg)
    | (probes, bench, none) =>
      match evalAtCompletion answers final finish.retries probes bench with
      | (_, _, some .unfinished) => none
      | (probes, (bench, _), some (.errored msg)) => some ({ s with probes, bench }, some msg)
      | (probes, (bench, anyFatal), none) =>
        some ({ s with probes, bench, fatal := s.fatal || anyFatal }, none)

def complete (s : PhaseRun) (error : Option String) : Stop :=
  let gaps := coverageGaps s.probes
  let verdict :=
    if error.isSome then
      .errored
    else if s.bench.violations.isEmpty && gaps.isEmpty then
      .passed
    else
      .failed
  .ended { s with fatal := s.fatal || !gaps.isEmpty } ⟨verdict, error, true⟩

def tick (watched : List Watched) (w : World) (deadline : Option Nat) (finish : Finish) (s : PhaseRun)
    (t : Tick) : Except Stop (PhaseRun × Unit) :=
  if t.cancelled then
    .error (.ended s (.cut .cancelled none))
  else if deadline.any (· ≤ t.now) then
    .error (.ended s (.cut .timedOut none))
  else
    match s.fireFaults watched t with
    | (s, some e) => .error (.ended s (.cut .errored (some e)))
    | (s, none) =>
      match t.failure, t.progress with
      | some msg, _ => .error (.ended s (.cut .failed (some msg)))
      | none, .error _ => .ok (s.hold t, ())
      | none, .ok p =>
        let (s, snap) := s.snapshot t p
        match evalTick w.answers w.ceilQuotient s.chaos snap t.now s.probes s.bench with
        | (probes, bench, some .failFast) =>
          .error (.ended { s with probes, bench, fatal := true } (.cut .failed none))
        | (probes, bench, some (.abort msg)) =>
          .error (.ended { s with probes, bench } (.cut .errored (some msg)))
        | (probes, bench, none) =>
          let s := { s with probes, bench }
          if s.stopHeight.any (· ≤ snap.height) || t.complete then
            match s.judgeFinish w.answers finish with
            | none => .error .unfinished
            | some (s, error) => .error (s.complete error)
          else
            .ok (s, ())

end PhaseRun

structure PhaseOutcome where
  name : String
  verdict : SyncVerdict
  ticks : Nat
  violations : Nat
  coverageGaps : List String
  error : Option String
  restarts : Nat

/--
What a phase leaves behind. `completed`, `stopHeight`, `final` and `judged` are kept from the
`PhaseRun` to speak about what was checked.
-/
structure PhaseResult where
  summary : PhaseOutcome
  violations : List Violation
  dropped : Nat
  target : Option Nat
  proceed : Bool
  completed : Bool
  stopHeight : Option Nat
  final : Option Snapshot
  judged : List Judgement

def PhaseResult.early (phase : Phase) (verdict : SyncVerdict) (error : Option String)
    : PhaseResult where
  summary :=
    { name := phase.name
      verdict
      ticks := 0
      violations := 0
      coverageGaps := []
      error
      restarts := 0 }
  violations := []
  dropped := 0
  target := phase.stopHeight
  proceed := false
  completed := false
  stopHeight := phase.stopHeight
  final := none
  judged := []

structure Shared where
  chaos : Chaos
  asked : Nat

namespace PhaseRun

def new (phase : Phase) (probes : List ProbeSpec) (historyCap launched : Nat) (shared : Shared)
    : PhaseRun where
  probes := probes
  stopHeight := phase.stopHeight
  stopAfter := phase.stopAfter
  restart := .default
  chaos := shared.chaos
  builder := .new launched
  history := .new historyCap
  events := .default
  bench := ⟨shared.asked, [], []⟩
  fatal := false
  final := none

def result (phase : Phase) (s : PhaseRun) (ending : Ending) : PhaseResult where
  summary :=
    { name := phase.name
      verdict := ending.verdict
      ticks := s.builder.seq
      violations := s.bench.violations.length
      coverageGaps := coverageGaps s.probes
      error := ending.error
      restarts := s.events.restarts }
  violations := s.bench.violations
  dropped := s.history.dropped
  target := s.stopHeight.or (s.history.latest.bind (·.target))
  proceed := ending.completed && !s.fatal && ending.error.isNone
  completed := ending.completed
  stopHeight := s.stopHeight
  final := s.final
  judged := s.bench.judged

end PhaseRun

structure SyncOutcome where
  verdict : SyncVerdict
  violations : List Violation
  coverageGaps : List String
  error : Option String
  ticks : Nat
  droppedSnapshots : Nat
  target : Option Nat
  phases : List PhaseOutcome

def SyncOutcome.errorOutcome (msg : String) : SyncOutcome where
  verdict := .errored
  violations := []
  coverageGaps := []
  error := some msg
  ticks := 0
  droppedSnapshots := 0
  target := none
  phases := []

def fold (results : List PhaseResult) : SyncOutcome where
  verdict := ((results.map (·.summary.verdict)).find? fun v => !v.isPass).getD .passed
  violations := results.flatMap (·.violations)
  coverageGaps := results.flatMap (·.summary.coverageGaps)
  error := results.findSome? (·.summary.error)
  ticks := (results.map (·.summary.ticks)).sum
  droppedSnapshots := (results.map (·.dropped)).sum
  target := results.head?.bind (·.target)
  phases := results.map (·.summary)

namespace SyncEngine

def phased (first : Phase) (rest : List Phase) (throughout : List ProbeBuilder) : SyncEngine where
  first := first
  rest := rest
  throughout := throughout.map ProbeBuilder.check
  historyCap := 20000
  faults := []
  watched := []

def phases (eng : SyncEngine) : List Phase := eng.first :: eng.rest

def probes (eng : SyncEngine) (phase : Phase) : List ProbeSpec :=
  eng.throughout.map ProbeSpec.fresh ++ phase.probes

def preflightFaults (eng : SyncEngine) (w : World)
    : Nat → List ScheduledFault → Except String Unit
  | _, [] => .ok ()
  | i, fault :: faults =>
    match fault.kind with
    | .kill component =>
      match killTarget eng.watched component with
      | .error e => .error e
      | .ok _ =>
        match w.restartable i with
        | some e => .error ("nemesis kill: " ++ e)
        | none => eng.preflightFaults w (i + 1) faults
    | _ => eng.preflightFaults w i faults

-- A phase still in flight, at a tick or in a retry, has no result yet.
def runPhase (eng : SyncEngine) (w : World) (i : Nat) (shared : Shared) (phase : Phase)
    : Option (PhaseResult × Shared) :=
  let timeline := w.timeline i
  match timeline.opening.early with
  | some (verdict, error) => some (.early phase verdict error, shared)
  | none =>
    let deadline := phase.timeout.map (timeline.started + ·)
    let s := PhaseRun.new phase (eng.probes phase) eng.historyCap timeline.launched shared
    match Run.exec (PhaseRun.tick eng.watched w deadline timeline.finish) s timeline.ticks with
    | .error (.ended s ending) => some (s.result phase ending, ⟨s.chaos, s.bench.asked⟩)
    | .error .unfinished => none
    | .ok _ => none

def runPhases (eng : SyncEngine) (w : World) : Nat → Shared → List Phase → Option (List PhaseResult)
  | _, _, [] => some []
  | i, shared, phase :: rest =>
    match eng.runPhase w i shared phase with
    | none => none
    | some (r, shared) =>
      if r.proceed then
        (eng.runPhases w (i + 1) shared rest).map (r :: ·)
      else
        some [r]

def run (eng : SyncEngine) (w : World) : Option (SyncOutcome × List PhaseResult) :=
  let shared : Shared := ⟨.new eng.faults w.started, 0⟩
  match eng.preflightFaults w 0 shared.chaos.pending with
  | .error e => some (.errorOutcome e, [])
  | .ok _ =>
    match eng.runPhases w 0 shared eng.phases with
    | none => none
    | some results => some (fold results, results)

end SyncEngine
end Sync
