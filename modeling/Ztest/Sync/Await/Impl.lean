import Ztest.Materialize.Watch.Impl

/-!
This module contains the wait for the driver pod of a sync (`await_driver_running` of `cli/sync/mod.rs`) and
the deadline policy of every other wait (`ReadyWatch` of `pod_status.rs`).
-/

namespace Sync
namespace Await

open Materialize.Watch (Nanos Condition secs)

structure Terminated where
  reason : Option String
  exitCode : Int

-- The reason a container waits with, and how it terminated.
structure ContainerState where
  waiting : Option (Option String)
  terminated : Option Terminated

structure ContainerStatus where
  name : String
  state : Option ContainerState
  lastState : Option ContainerState

structure PodStatus where
  phase : Option String
  reason : Option String
  conditions : Option (List Condition)
  containerStatuses : Option (List ContainerStatus)

namespace PodStatus

-- What the predicates on placement and images read.
def base (s : PodStatus) : Materialize.Watch.PodStatus where
  phase := s.phase
  conditions := s.conditions
  containerStatuses := s.containerStatuses.map fun containers => containers.map fun c =>
    c.state.map fun state => ⟨state.waiting, state.terminated.map Terminated.exitCode⟩

def isReady (s : PodStatus) : Bool :=
  (s.conditions.map fun cs => cs.any fun c => c.type = "Ready" ∧ c.status = "True").getD false

def isRunning (s : PodStatus) : Bool := s.phase = some "Running"

def isScheduled (s : PodStatus) : Bool := s.base.isScheduled

def scheduleBlocker (s : PodStatus) : Option String := s.base.scheduleBlocker

def imageError (s : PodStatus) : Option String := s.base.imageError

def faultOf (c : ContainerStatus) : Option String :=
  let waiting := c.state.bind (·.waiting)
  if waiting.bind id = some "CrashLoopBackOff" then
    some (c.name ++ ": CrashLoopBackOff")
  else
    let terminated := (c.state.bind (·.terminated)).or (c.lastState.bind (·.terminated))
    if terminated.bind (·.reason) = some "OOMKilled" then some (c.name ++ ": OOMKilled") else none

def fault (s : PodStatus) : Option String :=
  if s.phase = some "Failed" then
    some (s.reason.getD "pod entered Failed phase")
  else
    s.containerStatuses.bind fun containers => containers.findSome? faultOf

end PodStatus

def pendingTimeout : Nanos := Materialize.Watch.PodStatus.pendingTimeout

def imagePullGrace : Nanos := Materialize.Watch.PodStatus.imagePullGrace

def pullErrorIsTerminal (reason : String) (firstSeen now : Nanos) : Bool :=
  Materialize.Watch.PodStatus.pullErrorIsTerminal reason firstSeen now imagePullGrace

inductive Verdict where
  | ready
  | waiting
  | unschedulable (reason : String) (elapsed : Nanos)
  | faulted (reason : String)
  | pullFailed (reason : String)
  | readyTimeout (after : Nanos)

structure ReadyWatch where
  readyTimeout : Nanos
  unscheduledSince : Option Nanos
  runningSince : Option Nanos
  pullErrorSince : Option Nanos

namespace ReadyWatch

def new (readyTimeout : Nanos) : ReadyWatch := ⟨readyTimeout, none, none, none⟩

-- The part of `observe` after the image check.
def observeRunning (w : ReadyWatch) (status : PodStatus) (now : Nanos) : ReadyWatch × Verdict :=
  if status.isRunning then
    let since := w.runningSince.getD now
    let w := { w with runningSince := some since }
    if w.readyTimeout ≤ now - since then (w, .readyTimeout w.readyTimeout) else (w, .waiting)
  else
    (w, .waiting)

-- The part of `observe` after the placement.
def observePlaced (w : ReadyWatch) (status : PodStatus) (now : Nanos) : ReadyWatch × Verdict :=
  match status.fault with
  | some reason => (w, .faulted reason)
  | none =>
    match status.imageError with
    | some reason =>
      let first := w.pullErrorSince.getD now
      let w := { w with pullErrorSince := some first }
      if pullErrorIsTerminal reason first now then (w, .pullFailed reason) else w.observeRunning status now
    | none => observeRunning { w with pullErrorSince := none } status now

def observe (w : ReadyWatch) (status : PodStatus) (now : Nanos) : ReadyWatch × Verdict :=
  if status.isReady then
    (w, .ready)
  else if status.isScheduled then
    w.observePlaced status now
  else
    let since := w.unscheduledSince.getD now
    let w := { w with unscheduledSince := some since }
    if pendingTimeout ≤ now - since then
      (w, .unschedulable (status.scheduleBlocker.getD "no PodScheduled condition") (now - since))
    else
      w.observePlaced status now

end ReadyWatch

def formatSpan (d : Nanos) : String :=
  let s := d / secs 1
  if s < 60 then toString s ++ "s"
  else if s < 3600 then toString (s / 60) ++ "m"
  else if s % 3600 = 0 then toString (s / 3600) ++ "h"
  else
    let m := s % 3600 / 60
    toString (s / 3600) ++ "h" ++ (if m < 10 then "0" else "") ++ toString m ++ "m"

inductive Outcome where
  | running
  | unschedulable (reason : String) (elapsed : Nanos)
  | faulted (reason : String)
  | imageError (reason : String)
  deriving DecidableEq

def Outcome.text : Outcome → Option String
  | .running => none
  | .unschedulable reason elapsed =>
    some ("sync driver pod unschedulable after " ++ formatSpan elapsed ++ ": " ++ reason)
  | .faulted reason => some ("sync driver pod failed to start: " ++ reason)
  | .imageError reason => some ("sync driver pod image error: " ++ reason)

-- What `get` answers at an instant: `none` when there is no such pod.
structure Reading where
  now : Nanos
  status : Option PodStatus

-- A status that shows no unplaced pod past its deadline.
def checkStarted (started now : Nanos) (since : Option Nanos) (status : PodStatus)
    : Except Outcome (Option Nanos × Unit) :=
  match status.fault with
  | some reason => .error (.faulted reason)
  | none =>
    match status.imageError with
    | some reason => if pullErrorIsTerminal reason started now then .error (.imageError reason) else .ok (since, ())
    | none => .ok (since, ())

/--
One turn of the loop of `await_driver_running`, whose state is `unscheduled_since`.
-/
def await (started : Nanos) (since : Option Nanos) (r : Reading) : Except Outcome (Option Nanos × Unit) :=
  match r.status with
  | none => .ok (since, ())
  | some status =>
    if status.isRunning then
      .error .running
    else if status.isScheduled then
      checkStarted started r.now since status
    else
      let first := since.getD r.now
      if pendingTimeout ≤ r.now - first then
        .error (.unschedulable (status.scheduleBlocker.getD "no PodScheduled condition") (r.now - first))
      else
        checkStarted started r.now (some first) status

end Await
end Sync
