import Ztest.Lib.Run
import Mathlib.Logic.Function.Basic

/-!
This module contains the build slot (`Builder` in `resource/impls/buildkit.rs`): one pod name that any
number of runs take in turn. A delete request names the pod, and `delete_and_await` then waits for the
object that it hit. Leases expire of crashed runs only.
-/

namespace Resource
namespace BuildSlot

structure Pod where
  uid : Nat
  -- The run-id label.
  creator : Nat
  deleting : Bool

inductive Pc where
  -- `await_build_slot`
  | start
  | sawHolder (uid creator : Nat)
  | waiting (uid : Nat)
  | reaping (uid : Nat)
  | reaped (hit : Option Nat)
  -- `acquire`, past the slot
  | free
  | reserved
  | created (uid : Nat)
  | holding (uid : Nat)
  -- `release`
  | releasing (uid : Nat)
  | deleted (hit : Option Nat)
  | finished
  | crashed
  deriving DecidableEq

structure Run where
  pc : Pc
  -- There is an unexpired lease of the run.
  lease : Bool

structure State where
  pod : Option Pod
  nextUid : Nat
  runs : Nat → Run

def State.init : State := ⟨none, 0, fun _ => ⟨.start, false⟩⟩

inductive Event where
  | getHolder (r : Nat)
  | getLease (r : Nat)
  | slotFreed (r : Nat)
  | reap (r : Nat)
  | reapedGone (r : Nat)
  | reserve (r : Nat)
  | create (r : Nat)
  | ready (r : Nat)
  -- The pod failed, or was not ready in time.
  | notReady (r : Nat)
  | release (r : Nat)
  | delete (r : Nat)
  | releaseLease (r : Nat)
  -- Or an API error that ends the run, which leaves its lease to lapse.
  | crash (r : Nat)
  | expire (r : Nat)
  -- The object is removed once its containers have stopped.
  | removePod

namespace State

def set (s : State) (r : Nat) (run : Run) : State := { s with runs := Function.update s.runs r run }

def setPc (s : State) (r : Nat) (pc : Pc) : State := s.set r { s.runs r with pc }

def gone (s : State) (uid : Nat) : Bool := s.pod.all fun p => p.uid ≠ uid

def hitGone (s : State) (hit : Option Nat) : Bool := hit.all s.gone

def deletePod (s : State) : State := { s with pod := s.pod.map fun p => { p with deleting := true } }

def getHolder (s : State) (r : Nat) : State :=
  match s.pod with
  | none => s.setPc r .free
  | some p => s.setPc r (.sawHolder p.uid p.creator)

def createPod (s : State) (r : Nat) : State :=
  match s.pod with
  | none =>
    { s.setPc r (.created s.nextUid) with pod := some ⟨s.nextUid, r, false⟩, nextUid := s.nextUid + 1 }
  -- Lost the create race to a peer: the reservation goes, and the loop starts over.
  | some _ => s.set r ⟨.start, false⟩

def act (s : State) : Event → Option State
  | .getHolder r => if (s.runs r).pc = .start then some (s.getHolder r) else none
  | .getLease r =>
    match (s.runs r).pc with
    | .sawHolder uid creator => some (s.setPc r (if (s.runs creator).lease then .waiting uid else .reaping uid))
    | _ => none
  | .slotFreed r =>
    match (s.runs r).pc with
    | .waiting uid => if s.gone uid then some (s.setPc r .free) else none
    | _ => none
  | .reap r =>
    match (s.runs r).pc with
    | .reaping _ => some (s.deletePod.setPc r (.reaped (s.pod.map Pod.uid)))
    | _ => none
  | .reapedGone r =>
    match (s.runs r).pc with
    | .reaped hit => if s.hitGone hit then some (s.setPc r .free) else none
    | _ => none
  | .reserve r => if (s.runs r).pc = .free then some (s.set r ⟨.reserved, true⟩) else none
  | .create r => if (s.runs r).pc = .reserved then some (s.createPod r) else none
  | .ready r =>
    match (s.runs r).pc with
    | .created uid => some (s.setPc r (.holding uid))
    | _ => none
  | .notReady r =>
    match (s.runs r).pc with
    | .created uid => some (s.setPc r (.releasing uid))
    | _ => none
  | .release r =>
    match (s.runs r).pc with
    | .holding uid => some (s.setPc r (.releasing uid))
    | _ => none
  | .delete r =>
    match (s.runs r).pc with
    | .releasing _ => some (s.deletePod.setPc r (.deleted (s.pod.map Pod.uid)))
    | _ => none
  | .releaseLease r =>
    match (s.runs r).pc with
    | .deleted hit => if s.hitGone hit then some (s.set r ⟨.finished, false⟩) else none
    | _ => none
  | .crash r => some (s.setPc r .crashed)
  | .expire r => if (s.runs r).pc = .crashed then some (s.set r ⟨.crashed, false⟩) else none
  | .removePod => if s.pod.any (·.deleting) then some { s with pod := none } else none

def step (s : State) (event : Event) : Except Run.Disabled (State × Unit) :=
  match s.act event with
  | some s' => .ok (s', ())
  | none => .error .disabled

end State
end BuildSlot
end Resource
