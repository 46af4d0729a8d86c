import Ztest.Lib.Run
import Ztest.Qos.Resources

/-!
This module contains a detached launch: `ztest sync start` from its reserve on (`start`, `launch_driver`,
`await_driver_running` and `abandon_launch` in `cli/src/sync/mod.rs`, `hand_off` and `release` in
`qos/ledger.rs`), and the driver pod that takes over (`adopt` in `qos/ledger.rs`, `drive` in
`sync/facade.rs`, `write_report` in `sync/detached.rs`). Every request is a step of its own and none fails.
The profiler and what it owns are left out.
-/

namespace Sync
namespace Launch

open Qos (Resources)

-- `holderIdentity`: the lease id of `start`, or the driver's pod name.
inductive Holder where
  | start
  | driver
  deriving DecidableEq

structure Lease where
  holder : Holder
  reserve : Resources

inductive Phase where
  | pending
  | running
  | succeeded
  | failed
  deriving DecidableEq

-- What the API server has of the driver pod. The phase lags behind the process.
structure Pod where
  phase : Phase
  deleting : Bool

def Pod.terminal (p : Pod) : Bool := p.phase = .succeeded || p.phase = .failed

-- The record of a launch, whose launch half is not read here.
structure Record (ρ : Type) where
  report : Option ρ

inductive Start where
  | reserved
  | created
  | recorded
  | handingOff
  -- `abandon_launch`
  | deletePod
  | deleteNamespace
  | deleteRecord
  | release
  | released
  | handedOff
  deriving DecidableEq

inductive Stage where
  | absent
  | booted
  | read (reserve : Resources)
  | holding (reserve : Resources)
  | finishing (reserve : Resources)
  | exited
  deriving DecidableEq

structure Driver (ρ : Type) where
  stage : Stage
  adopted : Bool
  report : Option ρ

structure State (ρ : Type) where
  reserve : Resources
  lease : Option Lease
  start : Start
  pod : Option Pod
  driver : Driver ρ
  record : Option (Record ρ)

inductive Event (ρ : Type) where
  -- `start`
  | createPod
  | writeLaunch
  | pollRunning
  | pollFailed
  | handedOff
  | driverDied
  | deletePod
  | deleteNamespace
  | deleteRecord
  | release
  | renewStart
  -- the driver
  | boot
  | adoptGet
  | adoptWrite
  | renewDriver
  | writeReport (report : ρ)
  | exit
  -- the kubelet
  | phaseRunning
  | phaseEnded (succeeded : Bool)
  | removePod

def Stage.alive : Stage → Bool
  | .absent => false
  | .exited => false
  | _ => true

-- What the stage renews the lease at.
def Stage.renews : Stage → Option Resources
  | .holding reserve => some reserve
  | .finishing reserve => some reserve
  | _ => none

-- `start` still owns its reservation, and the renew task with it.
def Start.holds : Start → Bool
  | .released => false
  | .handedOff => false
  | _ => true

namespace State

variable {ρ : Type}

def init (reserve : Resources) : State ρ where
  reserve := reserve
  lease := some ⟨.start, reserve⟩
  start := .reserved
  pod := none
  driver := ⟨.absent, false, none⟩
  record := none

def terminate (s : State ρ) : State ρ := { s with pod := s.pod.map fun p => { p with deleting := true } }

def startStep (s : State ρ) : Event ρ → Option (State ρ)
  | .createPod => if s.start = .reserved then some { s with start := .created, pod := some ⟨.pending, false⟩ } else none
  -- A server-side apply: it creates the record, and leaves the report to its own manager.
  | .writeLaunch =>
    if s.start = .created then some { s with start := .recorded, record := some (s.record.getD ⟨none⟩) } else none
  -- `await_driver_running`
  | .pollRunning =>
    if s.start = .recorded ∧ s.pod.any (fun p => p.phase = .running) then some { s with start := .handingOff } else none
  | .pollFailed =>
    if s.start = .recorded ∧ s.pod.any (fun p => p.phase = .pending || p.phase = .failed) then
      some { s with start := .deletePod }
    else
      none
  -- The two watches of `hand_off`.
  | .handedOff =>
    if s.start = .handingOff ∧ s.lease.any (fun l => l.holder ≠ .start) then some { s with start := .handedOff } else none
  | .driverDied =>
    if s.start = .handingOff ∧ s.pod.all Pod.terminal then some { s with start := .deletePod } else none
  | .deletePod => if s.start = .deletePod then some { s.terminate with start := .deleteNamespace } else none
  -- The driver pod is owned by the namespace.
  | .deleteNamespace => if s.start = .deleteNamespace then some { s.terminate with start := .deleteRecord } else none
  | .deleteRecord => if s.start = .deleteRecord then some { s with start := .release, record := none } else none
  | .release => if s.start = .release then some { s with start := .released, lease := none } else none
  | .renewStart => if s.start.holds then some { s with lease := some ⟨.start, s.reserve⟩ } else none
  | _ => none

def setStage (s : State ρ) (stage : Stage) : State ρ := { s with driver := { s.driver with stage } }

def adoptGet (s : State ρ) : State ρ :=
  match s.lease with
  | some lease => s.setStage (.read lease.reserve)
  -- "lease .. gone before adoption"
  | none => s.setStage .exited

-- A merge patch: it fails when the record does not exist, and the verdict is dropped.
def writeReport (s : State ρ) (reserve : Resources) (report : ρ) : State ρ :=
  { s with
    driver := { s.driver with stage := .finishing reserve, report := some report }
    record := s.record.map fun _ => ⟨some report⟩ }

def driverStep (s : State ρ) : Event ρ → Option (State ρ)
  | .boot =>
    if s.driver.stage = .absent ∧ s.pod.any (fun p => p.phase = .pending) then some (s.setStage .booted) else none
  | .adoptGet => if s.driver.stage = .booted then some s.adoptGet else none
  | .adoptWrite =>
    match s.driver.stage with
    | .read reserve =>
      some { s with
        lease := some ⟨.driver, reserve⟩
        driver := { s.driver with stage := .holding reserve, adopted := true } }
    | _ => none
  | .renewDriver => s.driver.stage.renews.map fun reserve => { s with lease := some ⟨.driver, reserve⟩ }
  | .writeReport report =>
    match s.driver.stage with
    | .holding reserve => some (s.writeReport reserve report)
    | _ => none
  | .exit => if s.driver.stage.alive then some (s.setStage .exited) else none
  | _ => none

def setPhase (s : State ρ) (phase : Phase) : State ρ := { s with pod := s.pod.map fun p => { p with phase } }

def kubeletStep (s : State ρ) : Event ρ → Option (State ρ)
  | .phaseRunning => if s.driver.stage.alive then some (s.setPhase .running) else none
  | .phaseEnded succeeded =>
    if s.driver.stage = .exited then some (s.setPhase (if succeeded then .succeeded else .failed))
    -- The pod failed before a process started, and none will.
    else if s.driver.stage = .absent ∧ !succeeded then some (s.setPhase .failed)
    else none
  | .removePod =>
    if s.driver.stage.alive = false ∧ s.pod.any (·.deleting) then some { s with pod := none } else none
  | _ => none

def step (s : State ρ) (event : Event ρ) : Except Run.Disabled (State ρ × Unit) :=
  match ((s.startStep event).or (s.driverStep event)).or (s.kubeletStep event) with
  | some s' => .ok (s', ())
  | none => .error .disabled

end State
end Launch
end Sync
