import Ztest.Lib.AList
import Ztest.Lib.Run
import Ztest.Qos.Resources

/-!
This module contains the pure admission core of `qos/scheduler.rs`: one arrival ordered queue over
one whole-cluster capacity figure. A Rust `assert!` is a `Panic` in `Except`, so that a run which
would abort the process is visible as such.

Arrival numbers and lease handles are `u64` counters in the source. They are `Nat` here, which agrees
with the source for the first `2 ^ 64` requests (`Scheduler.counters_le_length`).
-/

namespace Qos

inductive RejectReason where
  | exceedsClusterCapacity
  | exceedsSaBudget
  deriving DecidableEq

inductive Admission (τ : Type) where
  | granted (slot : τ)
  | queued
  | rejected (reason : RejectReason)

/--
The single-request admission decision, `none` being an unlimited budget. Rejections are checked
against the maxima, the queue/fit split against the live remainder.
-/
def decide (available committed saUsage : Resources) (saBudget : Option Resources)
    (footprint : Resources) : Admission Unit :=
  if !footprint.fitsWithin available then
    .rejected .exceedsClusterCapacity
  else if saBudget.any fun budget => !footprint.fitsWithin budget then
    .rejected .exceedsSaBudget
  else if !footprint.fitsWithin (available.saturatingSub committed) then
    .queued
  else if saBudget.any fun budget => !footprint.fitsWithin (budget.saturatingSub saUsage) then
    .queued
  else
    .granted ()

structure SlotId where
  id : Nat
  deriving DecidableEq

structure Request where
  binaryId : String
  testName : String
  sa : String
  footprint : Resources
  deriving DecidableEq

structure Admitted where
  slotId : SlotId
  binaryId : String
  testName : String

structure Lease where
  binaryId : String
  testName : String
  sa : String
  footprint : Resources
  deriving DecidableEq

structure Pending where
  seq : Nat
  req : Request
  deriving DecidableEq

structure Scheduler where
  available : Resources
  committed : Resources
  leases : AList (fun _ : SlotId => Lease)
  queue : List Pending
  saBudgets : AList (fun _ : String => Resources)
  saUsage : AList (fun _ : String => Resources)
  nextSeq : Nat
  nextSlotId : Nat
  deriving DecidableEq

inductive Panic where
  | queueOutOfOrder
  | freshEnqueueAdmittedMany
  | admitDoesNotFit
  deriving DecidableEq

def Request.lease (req : Request) : Lease where
  binaryId := req.binaryId
  testName := req.testName
  sa := req.sa
  footprint := req.footprint

namespace Scheduler

def new (available : Resources) : Scheduler where
  available := available
  committed := .zero
  leases := ∅
  queue := []
  saBudgets := ∅
  saUsage := ∅
  nextSeq := 0
  nextSlotId := 0

def setSaBudget (s : Scheduler) (sa : String) (budget : Resources) : Scheduler :=
  { s with saBudgets := s.saBudgets.insert sa budget }

def free (s : Scheduler) : Resources := s.available.saturatingSub s.committed

def ceiling (s : Scheduler) : Resources := s.available

def demand (s : Scheduler) : Resources :=
  s.queue.foldl (fun acc p => acc.saturatingAdd p.req.footprint) s.committed

def queueLen (s : Scheduler) : Nat := s.queue.length

def activeLeases (s : Scheduler) : Nat := s.leases.entries.length

def saUsageOf (s : Scheduler) (sa : String) : Resources := (s.saUsage.lookup sa).getD .zero

def decideFor (s : Scheduler) (req : Request) : Admission Unit :=
  decide s.available s.committed (s.saUsageOf req.sa) (s.saBudgets.lookup req.sa) req.footprint

def fitsNow (s : Scheduler) (req : Request) : Bool :=
  match s.decideFor req with
  | .granted () => true
  | _ => false

def take (s : Scheduler) (req : Request) : Scheduler :=
  { s with
    nextSlotId := s.nextSlotId + 1
    committed := s.committed.saturatingAdd req.footprint
    saUsage := s.saUsage.insert req.sa ((s.saUsageOf req.sa).saturatingAdd req.footprint)
    leases := s.leases.insert ⟨s.nextSlotId⟩ req.lease }

def admitRequest (s : Scheduler) (req : Request) : Except Panic (Scheduler × Admitted) :=
  if req.footprint.fitsWithin (s.available.saturatingSub s.committed) then
    .ok (s.take req, ⟨⟨s.nextSlotId⟩, req.binaryId, req.testName⟩)
  else
    .error .admitDoesNotFit

def schedulePass (s : Scheduler) : Except Panic (Scheduler × List Admitted) :=
  if s.queue.IsChain (fun p q => p.seq < q.seq) then
    go { s with queue := [] } s.queue [] []
  else
    .error .queueOutOfOrder
where
  go (s : Scheduler) (entries : List Pending) (grants : List Admitted) (stillQueued : List Pending)
      : Except Panic (Scheduler × List Admitted) :=
    match entries with
    | [] => .ok ({ s with queue := stillQueued }, grants)
    | entry :: rest =>
      if s.fitsNow entry.req then
        match s.admitRequest entry.req with
        | .ok (s, grant) => go s rest (grants ++ [grant]) stillQueued
        | .error e => .error e
      else
        go s rest grants (stillQueued ++ [entry])

def enqueue (s : Scheduler) (req : Request) : Scheduler :=
  { s with
    nextSeq := s.nextSeq + 1
    queue := s.queue ++ [⟨s.nextSeq, req⟩] }

def request (s : Scheduler) (req : Request) : Except Panic (Scheduler × Admission SlotId) :=
  match s.decideFor req with
  | .rejected reason => .ok (s, .rejected reason)
  | _ =>
    match (s.enqueue req).schedulePass with
    | .error e => .error e
    | .ok (s, grants) =>
      if grants.length ≤ 1 then
        match grants.find? fun g => g.binaryId == req.binaryId && g.testName == req.testName with
        | some g => .ok (s, .granted g.slotId)
        | none => .ok (s, .queued)
      else
        .error .freshEnqueueAdmittedMany

def giveBack (s : Scheduler) (slotId : SlotId) (lease : Lease) : Scheduler :=
  { s with
    leases := s.leases.erase slotId
    committed := s.committed.saturatingSub lease.footprint
    saUsage :=
      match s.saUsage.lookup lease.sa with
      | some usage =>
        if usage.saturatingSub lease.footprint = .zero then
          s.saUsage.erase lease.sa
        else
          s.saUsage.insert lease.sa (usage.saturatingSub lease.footprint)
      | none => s.saUsage }

def release (s : Scheduler) (slotId : SlotId) : Except Panic (Scheduler × List Admitted) :=
  match s.leases.lookup slotId with
  | none => .ok (s, [])
  | some lease => (s.giveBack slotId lease).schedulePass

def disconnect (s : Scheduler) (slotId : SlotId) : Except Panic (Scheduler × List Admitted) :=
  s.release slotId

def reconcile (s : Scheduler) (newAvailable : Resources)
    : Except Panic (Scheduler × List Admitted) :=
  { s with available := newAvailable }.schedulePass

inductive Op where
  | setSaBudget (sa : String) (budget : Resources)
  | request (req : Request)
  | release (slotId : SlotId)
  | disconnect (slotId : SlotId)
  | reconcile (newAvailable : Resources)

inductive Reply where
  | unit
  | admission (a : Admission SlotId)
  | grants (gs : List Admitted)

def apply (s : Scheduler) (op : Op) : Except Panic (Scheduler × Reply) :=
  match op with
  | .setSaBudget sa budget => .ok (s.setSaBudget sa budget, .unit)
  | .request req => (s.request req).map fun (s, a) => (s, .admission a)
  | .release slotId => (s.release slotId).map fun (s, gs) => (s, .grants gs)
  | .disconnect slotId => (s.disconnect slotId).map fun (s, gs) => (s, .grants gs)
  | .reconcile newAvailable => (s.reconcile newAvailable).map fun (s, gs) => (s, .grants gs)

end Scheduler
end Qos
