import Ztest.Lib.Run
import Ztest.Lib.Saturating
import Mathlib.Data.List.Basic

/-!
This module contains `watch_puller` of `materialize/progress.rs` and the predicates of `pod_status.rs`
that it uses: a machine whose inputs are the listings of the puller Job's pods, what the followed log
gives and the readings of the clock. It aborts with the stall that `watch_puller` returns.
-/

namespace Materialize
namespace Watch

abbrev Bytes := List UInt8

-- An `Instant` and a `Duration` in nanoseconds.
abbrev Nanos := Nat

def secs (n : Nat) : Nanos := n * 1000000000

structure Condition where
  type : String
  status : String
  reason : Option String
  message : Option String

structure ContainerState where
  waiting : Option (Option String)
  terminated : Option Int

structure PodStatus where
  phase : Option String
  conditions : Option (List Condition)
  -- Each with its `state`.
  containerStatuses : Option (List (Option ContainerState))

structure Pod where
  name : Option String
  status : Option PodStatus

namespace PodStatus

def default : PodStatus := ⟨none, none, none⟩

def pendingTimeout : Nanos := secs (5 * 60)

def imagePullGrace : Nanos := secs 90

def isPending (s : PodStatus) : Bool := s.phase.getD "Pending" = "Pending"

def isScheduled (s : PodStatus) : Bool :=
  (s.conditions.map fun cs => cs.any fun c => c.type = "PodScheduled" ∧ c.status = "True").getD false

def scheduleBlocker (s : PodStatus) : Option String :=
  (s.conditions.bind (·.find? fun c => c.type = "PodScheduled" ∧ c.status ≠ "True")).bind fun c =>
    match c.reason, c.message with
    | some r, some m => some (r ++ ": " ++ m)
    | some r, none => some r
    | none, some m => some m
    | none, none => none

def stuck : List String := ["ImagePullBackOff", "ErrImagePull", "InvalidImageName"]

def imageError (s : PodStatus) : Option String :=
  s.containerStatuses.bind fun containers => containers.findSome? fun state =>
    ((state.bind (·.waiting)).bind id).filter (· ∈ stuck)

def pullErrorIsTerminal (reason : String) (firstSeen now grace : Nanos) : Bool :=
  reason = "InvalidImageName" ∨ grace ≤ now - firstSeen

def exitCode (s : PodStatus) : Option Int :=
  s.containerStatuses.bind fun containers => containers.findSome? fun state => state.bind (·.terminated)

end PodStatus

def reattachBackfillSecs : Nat := 10

def maxRecord : Nat := 64 * 1024

def stallWindow : Nanos := secs (15 * 60)

inductive Stall where
  | unschedulable (reason : String) (elapsed : Nanos)
  | imagePull (reason : String)
  | noProgress (transferred total : UInt64)
  | finalizing (total : UInt64)

def Stall.ran : Stall → Bool
  | .noProgress .. | .finalizing .. => true
  | .unschedulable .. | .imagePull .. => false

structure StartWatch where
  unscheduledSince : Option Nanos
  pullErrorSince : Option Nanos

namespace StartWatch

def default : StartWatch := ⟨none, none⟩

def observeImage (w : StartWatch) (status : PodStatus) (now : Nanos) : StartWatch × Option Stall :=
  match status.imageError with
  | some reason =>
    let first := w.pullErrorSince.getD now
    ({ w with pullErrorSince := some first },
      if PodStatus.pullErrorIsTerminal reason first now PodStatus.imagePullGrace then some (.imagePull reason)
      else none)
  | none => ({ w with pullErrorSince := none }, none)

def observe (w : StartWatch) (status : PodStatus) (now : Nanos) : StartWatch × Option Stall :=
  if status.isScheduled then
    w.observeImage status now
  else
    let since := w.unscheduledSince.getD now
    let w := { w with unscheduledSince := some since }
    if PodStatus.pendingTimeout ≤ now - since then
      (w, some (.unschedulable (status.scheduleBlocker.getD "no PodScheduled condition") (now - since)))
    else
      w.observeImage status now

end StartWatch

structure Liveness where
  base : UInt64
  transferred : UInt64
  total : UInt64
  verified : Option Bytes
  idleSince : Nanos

namespace Liveness

def new (total : UInt64) (now : Nanos) : Liveness := ⟨0, 0, total, none, now⟩

def nextAttempt (c : Liveness) : Liveness := { c with base := c.transferred, verified := none }

def observe (c : Liveness) (count : UInt64) (now : Nanos) : Liveness :=
  let absolute := c.base.saturatingAdd count
  if absolute ≤ c.transferred then c else { c with transferred := absolute, idleSince := now }

def observeVerified (c : Liveness) (relpath : Bytes) (now : Nanos) : Liveness :=
  if ∃ last ∈ c.verified, relpath ≤ last then c else { c with verified := some relpath, idleSince := now }

def shown (c : Liveness) : UInt64 := min c.transferred c.total

def remaining (c : Liveness) (now : Nanos) : Nanos := stallWindow - (now - c.idleSince)

def expired (c : Liveness) (now : Nanos) : Bool := c.remaining now = 0

def stall (c : Liveness) : Stall :=
  if c.verified.isSome ∨ c.total ≤ c.transferred then .finalizing c.total
  else .noProgress c.transferred c.total

end Liveness

structure Attempt where
  name : String
  ended : Bool
  resuming : Bool

-- `serde_json::Value`, as far as a stats record is read. `u64` is a number that `as_u64` accepts.
inductive Value where
  | object (fields : List (String × Value))
  | u64 (n : UInt64)
  | other

def Value.get (key : String) : Value → Option Value
  | .object fields => fields.lookup key
  | _ => none

def Value.asU64 : Value → Option UInt64
  | .u64 n => some n
  | _ => none

/--
`serde_json::from_slice`.
-/
abbrev Json := Bytes → Option Value

def statsBytes (fromSlice : Json) (record : Bytes) : Option UInt64 :=
  (((fromSlice record).bind (Value.get "stats")).bind (Value.get "bytes")).bind Value.asU64

-- `: OK`
def okSuffix : Bytes := [58, 32, 79, 75]

-- A relpath is not empty and does not start with a brace.
def verifiedPath (record : Bytes) : Option Bytes :=
  if okSuffix <:+ record then
    some (record.take (record.length - okSuffix.length)) |>.filter fun p => p ≠ [] ∧ p.head? ≠ some 123
  else
    none

inductive Row where
  | note (text : String)
  | bytes (shown total : UInt64)
  | finalizing

def failureNote (pod : Pod) : Option String :=
  match pod.status.bind (·.exitCode) with
  | some code => if code ≠ 0 then some ("pull failed (exit " ++ toString code ++ ")") else none
  | none => none

def settle (pod : Pod) : Row :=
  match failureNote pod with
  | some note => .note note
  | none => .finalizing

def waitingReason (status : PodStatus) : Option String :=
  ((status.containerStatuses.bind List.head?).bind fun state => state.bind (·.waiting)).bind id

def preRunNote (pod : Pod) : String :=
  match pod.status with
  | none => "scheduling puller"
  | some status =>
    match status.imageError with
    | some err => "puller image: " ++ err
    | none =>
      match waitingReason status with
      | some reason =>
        if reason = "ContainerCreating" ∨ reason = "PodInitializing" then "starting puller"
        else "puller " ++ reason
      | none => "scheduling puller"

def pullerPod (listing : Option (List Pod)) : Option Pod := listing.bind List.getLast?

/--
Where `follow` stands on the log of a pod: the records of the chunk it read last that it has yet to
handle, and the bytes after the last newline.
-/
structure Follow where
  pod : Pod
  name : String
  sinceSeconds : Option Nat
  opened : Bool
  queue : List Bytes
  pending : Bytes

structure Look where
  now : Nanos
  name : String
  status : PodStatus

structure Read where
  now : Nanos
  pod : String
  record : Bytes

/--
The last four fields are for the proofs: the last reading of the clock, every look at a pod, every
record and the records since the last `next_attempt`.
-/
structure State where
  total : UInt64
  start : StartWatch
  clock : Option Liveness
  attempt : Option Attempt
  follow : Option Follow
  now : Nanos
  looks : List Look
  reads : List Read
  here : List Read

def State.init (total : UInt64) (now : Nanos) : State := ⟨total, .default, none, none, none, now, [], [], []⟩

inductive Event where
  -- One turn of the loop up to `follow`: the listing (`none` when the request fails), the clock where
  -- a pending pod is observed or the transfer's clock starts, and where that is checked.
  | look (listing : Option (List Pod)) (now later : Nanos)
  -- Whether the log stream opens.
  | opened (ok : Bool)
  | chunk (bytes : Bytes)
  -- The next record of the chunk is handled.
  | record (now : Nanos)
  | eof
  | dropped
  -- The read ran into its timeout.
  | timeout (now : Nanos)

abbrev Stop : Type := Run.Stop Stall

namespace State

variable (fromSlice : Json)

-- The pod has another name than the one that was followed.
def turn (s : State) (name : String) : State × List Row :=
  match s.attempt with
  | some a =>
    if a.name ≠ name then
      ({ s with clock := s.clock.map Liveness.nextAttempt, attempt := none, here := [] }, [.note "resuming pull"])
    else
      (s, [])
  | none => (s, [])

def ended (s : State) : Bool := s.attempt.any (·.ended)

def backfill (s : State) : Option Nat :=
  s.attempt.bind fun a => if a.resuming then some reattachBackfillSecs else none

def running (s : State) (pod : Pod) (name : String) (now later : Nanos) : Except Stop (State × List Row) :=
  let clock := s.clock.getD (.new s.total now)
  let s := { s with clock := some clock, now := later }
  if clock.expired later then
    .error (.ended clock.stall)
  else if s.ended then
    .ok (s, [settle pod])
  else
    .ok ({ s with follow := some ⟨pod, name, s.backfill, false, [], []⟩ }, [])

def waiting (s : State) (pod : Pod) (status : PodStatus) (now : Nanos) : Except Stop (State × List Row) :=
  match s.start.observe status now with
  | (_, some stall) => .error (.ended stall)
  | (start, none) => .ok ({ s with start, now }, [.note (preRunNote pod)])

def see (s : State) (l : Look) : State := { s with looks := s.looks ++ [l] }

def look (s : State) (listing : Option (List Pod)) (now later : Nanos) : Except Stop (State × List Row) :=
  match pullerPod listing with
  | none => .ok ({ s with now }, [.note "scheduling puller"])
  | some pod =>
    match pod.name with
    | none => .ok ({ s with now }, [])
    | some name =>
      let status := pod.status.getD .default
      let turned := s.turn name
      let t := turned.1.see ⟨now, name, status⟩
      let next := if status.isPending then t.waiting pod status now else t.running pod name now later
      next.map fun r => (r.1, turned.2 ++ r.2)

def reattach (s : State) (name : String) : State × List Row :=
  ({ s with follow := none, attempt := some ⟨name, false, true⟩ }, [.note "re-attaching to puller"])

def finish (s : State) (f : Follow) : State × List Row :=
  ({ s with follow := none, attempt := some ⟨f.name, true, false⟩ }, [settle f.pod])

-- `\n` ends a record.
def receive (f : Follow) (bytes : Bytes) : Follow :=
  let runs := (f.pending ++ bytes).splitOn 10
  let pending := runs.getLastD []
  { f with queue := runs.dropLast, pending := if maxRecord < pending.length then [] else pending }

def handle (c : Liveness) (record : Bytes) (now : Nanos) : Liveness × List Row :=
  match statsBytes fromSlice record with
  | some done =>
    let c := c.observe done now
    (c, [.bytes c.shown c.total])
  | none =>
    match verifiedPath record with
    | some relpath => (c.observeVerified relpath now, if c.verified.isNone then [.note "verifying"] else [])
    | none => (c, [])

def read (s : State) (f : Follow) (c : Liveness) (record : Bytes) (now : Nanos) : State :=
  { s with
    clock := some (handle fromSlice c record now).1
    follow := some { f with queue := f.queue.tail }
    now
    reads := s.reads ++ [⟨now, f.name, record⟩]
    here := s.here ++ [⟨now, f.name, record⟩] }

def step (s : State) : Event → Except Stop (State × List Row)
  | .look listing now later =>
    if s.follow = none ∧ s.now ≤ now ∧ now ≤ later then s.look listing now later else .error .disabled
  | .opened ok =>
    match s.follow with
    | some f =>
      if f.opened then .error .disabled
      else if ok then .ok ({ s with follow := some { f with opened := true } }, [.note "transferring"])
      else .ok (s.reattach f.name)
    | none => .error .disabled
  | .chunk bytes =>
    match s.follow with
    | some f =>
      if f.opened ∧ f.queue = [] ∧ bytes ≠ [] then .ok ({ s with follow := some (receive f bytes) }, [])
      else .error .disabled
    | none => .error .disabled
  | .record now =>
    match s.follow, s.clock with
    | some f, some c =>
      match f.queue with
      | record :: _ =>
        if s.now ≤ now then .ok (s.read fromSlice f c record now, (handle fromSlice c record now).2)
        else .error .disabled
      | [] => .error .disabled
    | _, _ => .error .disabled
  | .eof =>
    match s.follow with
    | some f => if f.opened ∧ f.queue = [] then .ok (s.finish f) else .error .disabled
    | none => .error .disabled
  | .dropped =>
    match s.follow with
    | some f => if f.opened ∧ f.queue = [] then .ok (s.reattach f.name) else .error .disabled
    | none => .error .disabled
  | .timeout now =>
    match s.follow, s.clock with
    | some f, some c =>
      if f.opened ∧ f.queue = [] ∧ s.now ≤ now ∧ c.expired now then .error (.ended c.stall)
      else .error .disabled
    | _, _ => .error .disabled

end State
end Watch
end Materialize
