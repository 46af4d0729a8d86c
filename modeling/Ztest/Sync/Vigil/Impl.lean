import Mathlib.Algebra.BigOperators.Fin
import Ztest.Sync.Runner.Impl

/-!
This module contains the restart window and one `eventually` probe through the ticks of a phase, as
`PhaseRun.tick` drives them, and what a reader of the ticks makes of them: which containers were seen
to restart, whether an outage is still open and since when a probe has to be satisfied.
-/

namespace Sync
namespace Vigil

-- A tick as the window and the probe meet it.
structure Beat (n : Nat) extends Pulse where
  chaos : Chaos
  samples : Fin n → Option ContainerSample
  verdict : Verdict

structure Entry (n : Nat) where
  beat : Beat n
  held : Bool
  armed : Bool

-- The ticks stand newest first.
structure State (n : Nat) where
  restart : RestartWatch
  builder : SnapshotBuilder
  spec : ProbeSpec
  past : List (Entry n)

variable {n : Nat}

namespace State

def start (n : Nat) (b : ProbeBuilder) (startedAt : Nat) : State n where
  restart := .default
  builder := .new startedAt
  spec := b.check
  past := []

variable (v : State n) (b : Beat n)

def watch : RestartWatch × RestartView :=
  (if b.faulted then v.restart.openWindow else v.restart).observe (List.ofFn b.samples) b.progress.isSome

def armed : Bool := v.spec.after.all b.chaos.hasFired

def entry : Entry n := ⟨b, (v.watch b).2.holding, v.armed b⟩

def turn : SnapshotBuilder × ProbeSpec × Bench × Option Flow :=
  match b.progress with
  | none =>
    let credited := (v.watch b).2.holding && v.spec.cls == .eventually
    (v.builder, if credited then { v.spec with lastSatisfied := some b.now } else v.spec, ⟨0, [], []⟩, none)
  | some p =>
    let events : TickEvents := ⟨b.chaos.lastFaultAt, (v.watch b).2.restarts, (v.watch b).2.holding⟩
    let (builder, snap) := v.builder.build p b.now events
    (builder, eventuallyStep (fun _ => b.verdict) b.chaos snap b.now 0 v.spec ⟨0, [], []⟩)

def records : Bool := !(v.turn b).2.2.1.violations.isEmpty

def step : Except Flow (State n × Unit) :=
  match v.turn b with
  | (builder, spec, _, none) => .ok (⟨(v.watch b).1, builder, spec, v.entry b :: v.past⟩, ())
  | (_, _, _, some flow) => .error flow

end State

-- The restart counts of a container that could be read, newest first.
def counts (i : Fin n) (es : List (Entry n)) : List Nat :=
  es.filterMap fun e => (e.beat.samples i).map (·.restarts)

def largest (cs : List Nat) : Nat := cs.foldr max 0

def gained (cs : List Nat) : Nat := largest cs - cs.getLast?.getD 0

def total (es : List (Entry n)) : Nat := ∑ i, gained (counts i es)

def Unready (b : Beat n) (i : Fin n) : Prop := ∃ x, b.samples i = some x ∧ x.ready = false

def Restarted (b : Beat n) (es : List (Entry n)) (i : Fin n) : Prop :=
  ∃ x, b.samples i = some x ∧ counts i es ≠ [] ∧ largest (counts i es) < x.restarts

/--
The first sign of an outage: a kill, a container that is not Ready or one that has restarted.
-/
def Event (b : Beat n) (es : List (Entry n)) : Prop :=
  b.faulted = true ∨ ∃ i, Unready b i ∨ Restarted b es i

def Closing (b : Beat n) : Prop :=
  b.progress.isSome = true ∧ ∀ i, ∃ x, b.samples i = some x ∧ x.ready = true

/--
An outage has shown and no tick since has seen every container Ready and the subject answer.
-/
def Open : List (Entry n) → Prop
  | [] => False
  | e :: es => (Event e.beat es ∨ Open es) ∧ ¬ Closing e.beat

def Entry.satisfied (e : Entry n) : Bool := e.beat.progress.isSome && e.beat.verdict == .satisfied

/--
The latest tick at which the probe was satisfied, the window was held or the fault the probe waits for
had not fired, or else the first tick.
-/
def anchor : List (Entry n) → Nat
  | [] => 0
  | e :: es => if e.satisfied || e.held || !e.armed || es.isEmpty then e.beat.now else anchor es

end Vigil
end Sync
