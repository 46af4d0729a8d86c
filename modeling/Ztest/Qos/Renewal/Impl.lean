import Ztest.Lib.AList
import Ztest.Lib.Run
import Ztest.Qos.Lease
import Ztest.Qos.Resources

/-!
This module contains the life of leases on the API server (`Inner::write`, `Inner::delete`,
`Reservation::release`, `drive` and `sweep_expired` in `qos/ledger.rs`): any number of reservations that
write, renew and release their lease, and any number of peers that sweep expired ones. A request that was
sent is answered some time later. One that its sender no longer waits for can still reach the server.
-/

namespace Qos
namespace Renewal

-- `writer` is the reservation whose request it was, in the order of their acquires. It is not on the object.
structure Lease where
  reserve : Resources
  renewTime : Nat
  writer : Nat

def isExpired (renewTime now : Nat) : Bool := Qos.isExpired (some renewTime) (some leaseDuration) now

inductive Phase where
  | acquiring
  | holding
  -- `release` has aborted the renew task, its delete is on the way.
  | releasing
  | released
  | crashed
  deriving DecidableEq

structure Write where
  reserve : Resources
  renewTime : Nat

structure Reservation where
  id : String
  phase : Phase
  -- Every write is awaited, so that there is one request on the way at most.
  outgoing : Option Write

inductive Sweep where
  | idle
  | started (now : Nat)
  -- The leases left to delete, by name, with the `renewTime` they were listed with.
  | deleting (expired : List (String × Nat))
  deriving DecidableEq

structure State where
  clock : Nat
  leases : AList fun _ : String => Lease
  count : Nat
  reservations : Nat → Reservation
  sweeps : Nat → Sweep

def State.init (clock : Nat) : State where
  clock := clock
  leases := ∅
  count := 0
  reservations := fun _ => ⟨"", .crashed, none⟩
  sweeps := fun _ => .idle

inductive Event where
  | tick (seconds : Nat)
  -- The caller of `acquire` is done with any earlier reservation of the id.
  | acquire (id : String)
  | send (k : Nat) (reserve : Resources)
  | acquired (k : Nat)
  | land (k : Nat)
  | lose (k : Nat)
  | abort (k : Nat)
  -- The server deletes the lease, or answers that there is none.
  | delete (k : Nat)
  -- The delete fails, of which `release` only warns.
  | deleteFailed (k : Nat)
  | crash (k : Nat)
  | sweepNow (j : Nat)
  | sweepList (j : Nat)
  | sweepDelete (j : Nat)
  | sweepFailed (j : Nat)

def Phase.writes : Phase → Bool
  | .acquiring => true
  | .holding => true
  | _ => false

namespace State

def put (s : State) (k : Nat) (r : Reservation) : State :=
  { s with reservations := Function.update s.reservations k r }

def setSweep (s : State) (j : Nat) (sweep : Sweep) : State := { s with sweeps := Function.update s.sweeps j sweep }

def acquire (s : State) (id : String) : Option State :=
  if ∀ k < s.count, (s.reservations k).id = id → (s.reservations k).phase = .released then
    some { s.put s.count ⟨id, .acquiring, none⟩ with count := s.count + 1 }
  else
    none

def send (s : State) (k : Nat) (reserve : Resources) : Option State :=
  let r := s.reservations k
  if k < s.count ∧ r.phase.writes ∧ r.outgoing = none then
    some (s.put k { r with outgoing := some ⟨reserve, s.clock⟩ })
  else
    none

-- A server-side apply: it recreates what it does not find.
def land (s : State) (k : Nat) : Option State :=
  let r := s.reservations k
  r.outgoing.map fun w =>
    { s.put k { r with outgoing := none } with leases := s.leases.insert r.id ⟨w.reserve, w.renewTime, k⟩ }

-- The timeout of `acquire` comes between two of its writes, `release` at any moment.
def abort (s : State) (k : Nat) : Option State :=
  let r := s.reservations k
  if k < s.count ∧ (r.phase = .holding ∨ r.phase = .acquiring ∧ r.outgoing = none) then
    some (s.put k { r with phase := .releasing })
  else
    none

def delete (s : State) (k : Nat) (failed : Bool) : Option State :=
  let r := s.reservations k
  if k < s.count ∧ r.phase = .releasing then
    some { s.put k { r with phase := .released } with leases := if failed then s.leases else s.leases.erase r.id }
  else
    none

def expired (s : State) (now : Nat) : List (String × Nat) :=
  (s.leases.entries.filter fun e => isExpired e.2.renewTime now).map fun e => (e.1, e.2.renewTime)

def sweepStep (s : State) : Event → Option State
  | .sweepNow j => if s.sweeps j = .idle then some (s.setSweep j (.started s.clock)) else none
  | .sweepList j =>
    match s.sweeps j with
    | .started now => some (s.setSweep j (.deleting (s.expired now)))
    | _ => none
  | .sweepDelete j =>
    match s.sweeps j with
    | .deleting ((name, _) :: rest) => some { s.setSweep j (.deleting rest) with leases := s.leases.erase name }
    | .deleting [] => some (s.setSweep j .idle)
    | _ => none
  | .sweepFailed j =>
    match s.sweeps j with
    | .deleting (_ :: rest) => some (s.setSweep j (.deleting rest))
    | _ => none
  | _ => none

def act (s : State) : Event → Option State
  | .tick seconds => some { s with clock := s.clock + seconds }
  | .acquire id => s.acquire id
  | .send k reserve => s.send k reserve
  | .acquired k =>
    let r := s.reservations k
    if k < s.count ∧ r.phase = .acquiring ∧ r.outgoing = none then some (s.put k { r with phase := .holding }) else none
  | .land k => s.land k
  | .lose k =>
    let r := s.reservations k
    r.outgoing.map fun _ => s.put k { r with outgoing := none }
  | .abort k => s.abort k
  | .delete k => s.delete k false
  | .deleteFailed k => s.delete k true
  | .crash k =>
    let r := s.reservations k
    if k < s.count ∧ r.phase ≠ .released then some (s.put k { r with phase := .crashed }) else none
  | event => s.sweepStep event

def step (s : State) (event : Event) : Except Run.Disabled (State × Unit) :=
  match s.act event with
  | some s' => .ok (s', ())
  | none => .error .disabled

end State
end Renewal
end Qos
