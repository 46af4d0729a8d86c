import Ztest.Lib.Run
import Mathlib.Logic.Function.Basic

/-!
This module contains the publishing of a seed volume by any number of runs, `materialize/mod.rs`. The
puller Job of the volume has one name, which is the lock: a machine whose inputs are the API steps of
the runs, their crashes and the transitions of the Job itself. One `act` is one API call of one run,
what the run does between two calls touches nothing shared. A call that waits is `disabled` until what
it waits for is there.

Deleting a Job and freeing its name is one step. The lookups of pod logs that only feed an error
message are left out.
-/

namespace Materialize

inductive JobCondition where
  | complete
  | failed
  deriving DecidableEq

/--
A puller Job. `uid` tells apart the Jobs the name denotes one after the other, `creator` is the run
that created it, neither is read by a run.
-/
structure Job where
  uid : Nat
  creator : Nat
  condition : Option JobCondition := none
  succeeded : Nat := 0

def isJobFinished (j : Job) : Bool := j.condition.isSome

def succeeded (j : Job) : Bool := j.succeeded > 0

inductive PublishErr where
  | storage
  | snapshotMissing
  | env
  | pullerStuck
  | orphanedPuller
  | pullerFailed
  | changedHands
  deriving DecidableEq

def publishAttempts : Nat := 3

/--
Where a run stands in `publish`: the call it makes next. `lap` counts the turns of the loop. The `uid`
of an owner is that of the Job it created, the `uid` of `reapDelete` that of the Job it looked up; the
calls themselves only carry the name.
-/
inductive Pc where
  | idle
  | probe (lap : Nat)
  | create (lap : Nat)
  | reapGet (lap : Nat)
  | reapDelete (lap : Nat) (uid : Nat)
  | recreate (lap : Nat)
  | awaitFinished (uid : Nat)
  | stuck (uid : Nat)
  | verdict (uid : Nat)
  | ownDelete (uid : Nat)
  | markReady
  | awaitSettled (lap : Nat)
  | labelRead (lap : Nat)
  | returned
  | crashed
  deriving DecidableEq

-- The run is on its way to a create.
def Pc.preCreate : Pc → Bool
  | .probe _ => true
  | .create _ => true
  | .reapGet _ => true
  | .reapDelete _ _ => true
  | .recreate _ => true
  | _ => false

inductive Event where
  | created (r uid : Nat)
  | completed (uid : Nat)
  | failed (uid : Nat)
  | deleted (r : Nat) (j : Job)
  | readySet (r : Nat)
  | result (r : Nat) (res : Except PublishErr Unit)
  -- A call failed, or the watcher gave the pull up.
  | trouble (r : Nat)

structure State where
  job : Option Job
  ready : Bool
  nextUid : Nat
  runs : Nat → Pc
  trace : List Event

inductive Reply where
  | ok
  | missing
  | failed
  deriving DecidableEq

namespace State

def init : State where
  job := none
  ready := false
  nextUid := 0
  runs _ := .idle
  trace := []

def log (s : State) (ev : Event) : State := { s with trace := s.trace ++ [ev] }

def goto (s : State) (r : Nat) (pc : Pc) : State := { s with runs := Function.update s.runs r pc }

def return_ (s : State) (r : Nat) (res : Except PublishErr Unit) : State :=
  (s.log (.result r res)).goto r .returned

-- A call of `r` failed, and `r` ends with `e`.
def fatal (s : State) (r : Nat) (e : PublishErr) : State := (s.log (.trouble r)).return_ r (.error e)

def createJob (s : State) (r : Nat) : State :=
  let s := { s with job := some { uid := s.nextUid, creator := r }, nextUid := s.nextUid + 1 }
  (s.log (.created r (s.nextUid - 1))).goto r (.awaitFinished (s.nextUid - 1))

def deleteJob (s : State) (r : Nat) : State :=
  match s.job with
  | none => s
  | some j => { s with job := none }.log (.deleted r j)

def takeOver (s : State) (r lap : Nat) : State :=
  if lap + 1 < publishAttempts then
    s.goto r (.probe (lap + 1))
  else
    s.return_ r (.error .changedHands)

-- `materialize` up to the create, and its second create.
def actClaim (s : State) (r : Nat) (reply : Reply) : Pc → Except Run.Disabled State
  | .probe lap =>
    match reply with
    | .ok => .ok (s.goto r (.create lap))
    | .missing => .ok (s.fatal r .snapshotMissing)
    | .failed => .ok (s.fatal r .storage)
  | .create lap =>
    if reply = .ok then
      match s.job with
      | none => .ok (s.createJob r)
      | some _ => .ok (s.goto r (.reapGet lap))
    else
      .ok (s.fatal r .env)
  | .reapGet lap =>
    if reply = .ok then
      match s.job with
      | none => .ok (s.goto r (.recreate lap))
      | some j =>
        if isJobFinished j then
          .ok (s.goto r (.reapDelete lap j.uid))
        else
          .ok (s.goto r (.awaitSettled lap))
    else
      .ok ((s.log (.trouble r)).goto r (.awaitSettled lap))
  | .reapDelete lap _ =>
    if reply = .ok then
      .ok ((s.deleteJob r).goto r (.recreate lap))
    else
      .ok ((s.log (.trouble r)).goto r (.awaitSettled lap))
  | .recreate _ =>
    if reply = .ok then
      match s.job with
      | none => .ok (s.createJob r)
      | some _ => .ok (s.return_ r (.error .env))
    else
      .ok (s.fatal r .env)
  | _ => .error .disabled

-- The rest of `materialize` and `mark_ready`.
def actOwn (s : State) (r : Nat) (reply : Reply) : Pc → Except Run.Disabled State
  | .awaitFinished uid =>
    if reply = .ok then
      match s.job with
      | none => .error .disabled
      | some j => if isJobFinished j then .ok (s.goto r (.verdict uid)) else .error .disabled
    else
      .ok (s.fatal r .env)
  | .stuck _ =>
    if reply = .ok then
      .ok ((s.deleteJob r).return_ r (.error .pullerStuck))
    else
      .ok (s.fatal r .pullerStuck)
  | .verdict uid =>
    if reply = .ok then
      if s.job.any succeeded then
        .ok (s.goto r (.ownDelete uid))
      else
        .ok (s.return_ r (.error .pullerFailed))
    else
      .ok (s.fatal r .env)
  | .ownDelete _ =>
    if reply = .ok then
      .ok ((s.deleteJob r).goto r .markReady)
    else
      .ok ((s.log (.trouble r)).goto r .markReady)
  | .markReady =>
    if reply = .ok then
      .ok (({ s with ready := true }.log (.readySet r)).return_ r (.ok ()))
    else
      .ok (s.fatal r .env)
  | _ => .error .disabled

def actWait (s : State) (r : Nat) (reply : Reply) : Pc → Except Run.Disabled State
  | .awaitSettled lap =>
    if reply = .ok then
      match s.job with
      | none => .ok (s.goto r (.labelRead lap))
      | some j =>
        if isJobFinished j then
          if succeeded j then
            .ok (s.goto r .markReady)
          else
            .ok (s.return_ r (.error .pullerFailed))
        else
          .error .disabled
    else
      .ok (s.fatal r .env)
  | .labelRead lap =>
    if reply = .ok then
      if s.ready then .ok (s.return_ r (.ok ())) else .ok (s.takeOver r lap)
    else
      .ok (s.fatal r .env)
  | _ => .error .disabled

def act (s : State) (r : Nat) (reply : Reply) : Except Run.Disabled State :=
  let pc := s.runs r
  if pc.preCreate then
    s.actClaim r reply pc
  else
    match pc with
    | .awaitSettled _ => s.actWait r reply pc
    | .labelRead _ => s.actWait r reply pc
    | _ => s.actOwn r reply pc

-- `watch_puller` gives the pull up: an owner deletes the Job, a waiter only reports it.
def stall (s : State) (r : Nat) : Except Run.Disabled State :=
  match s.runs r with
  | .awaitFinished uid => .ok ((s.log (.trouble r)).goto r (.stuck uid))
  | .awaitSettled _ => .ok (s.fatal r .orphanedPuller)
  | _ => .error .disabled

def finishJob (s : State) (condition : JobCondition) : Except Run.Disabled State :=
  match s.job with
  | none => .error .disabled
  | some j =>
    if isJobFinished j then
      .error .disabled
    else
      match condition with
      | .complete =>
        .ok ({ s with job := some { j with condition := some .complete, succeeded := 1 } }.log
          (.completed j.uid))
      | .failed =>
        .ok ({ s with job := some { j with condition := some .failed } }.log (.failed j.uid))

inductive Input where
  | start (r : Nat)
  | act (r : Nat) (reply : Reply)
  | stall (r : Nat)
  | crash (r : Nat)
  | finish (condition : JobCondition)

def next (s : State) : Input → Except Run.Disabled State
  | .start r => if s.runs r = .idle then .ok (s.goto r (.probe 0)) else .error .disabled
  | .act r reply => s.act r reply
  | .stall r => s.stall r
  | .crash r => .ok (s.goto r .crashed)
  | .finish condition => s.finishJob condition

def step (s : State) (input : Input) : Except Run.Disabled (State × Unit) :=
  (s.next input).map fun s => (s, ())

end State
end Materialize
