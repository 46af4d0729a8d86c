import Mathlib.Data.List.Sort
import Ztest.Lib.AList
import Ztest.Lib.Run
import Ztest.Qos.Resources

/-!
This module contains the pure part of `qos/ledger.rs`: what a listing of the leases and a listing of
the pods say about the capacity that is left, and the policy that sizes an elastic reservation.

A cluster is healthy runs beside one run that polls in `acquire`. A healthy run keeps the pods that hold
capacity within the reservation written on its lease, at every moment: a step that would break this is
`disabled`. The polling run lists the leases and then the pods, two snapshots with any number of steps of
the others in between.
-/

namespace Qos
namespace Ledger

inductive LeaseKind where
  | run
  | build
  | sync
  | claim
  deriving DecidableEq

structure Lease where
  reserve : Resources
  kind : LeaseKind

abbrev Listing := List (String × Lease)

def listingOf (leases : AList (fun _ : String => Lease)) : Listing :=
  leases.entries.map fun e => (e.1, e.2)

def reservationOf (lease : Lease) : Resources := .new lease.reserve.cpuMilli lease.reserve.memBytes 0 0

def sumReservations (leases : Listing) (exclude : String) : Resources :=
  (leases.filter (·.1 ≠ exclude)).foldl (fun acc l => acc.saturatingAdd (reservationOf l.2)) .zero

def leaseOf (leases : Listing) (pod : Pod) : Option String :=
  pod.runId.filter fun run => run ∈ leases.map (·.1)

structure Usage where
  unreserved : Resources
  byRun : AList (fun _ : String => Resources)

def Usage.addPod (leases : Listing) (usage : Usage) (pod : Pod) : Usage :=
  match leaseOf leases pod with
  | some run =>
    { usage with
      byRun := usage.byRun.insert run
        (((usage.byRun.lookup run).getD .zero).saturatingAdd (podFootprint pod)) }
  | none => { usage with unreserved := usage.unreserved.saturatingAdd (podFootprint pod) }

def splitUsage (pods : List Pod) (leases : Listing) : Usage :=
  (pods.filter podHoldsCapacity).foldl (Usage.addPod leases) ⟨.zero, ∅⟩

structure Violation where
  run : String
  usage : Resources
  cap : Resources

def reservedOf (leases : Listing) (run : String) : Resources :=
  match leases.reverse.find? (·.1 = run) with
  | some l => reservationOf l.2
  | none => .zero

-- The runs are visited in the order of their names.
def assertInvariant (leases : Listing) (pods : List Pod) : Except Violation Unit :=
  go ((splitUsage pods leases).byRun.entries.insertionSort fun a b => a.1 ≤ b.1)
where
  go : List (Sigma fun _ : String => Resources) → Except Violation Unit
    | [] => .ok ()
    | ⟨run, usage⟩ :: rest =>
      if usage.fitsWithin (reservedOf leases run) then
        go rest
      else
        .error ⟨run, usage, reservedOf leases run⟩

def gib : UInt64 := 1024 * 1024 * 1024

def minViable : Resources := .new 2000 (4 * gib) 0 0

inductive Reserve where
  | elastic
  | fixed (r : Resources)

namespace Reserve

def threshold : Reserve → Resources
  | elastic => minViable
  | fixed r => r

def amount : Reserve → Resources → Resources
  | elastic, slice => slice
  | fixed r, _ => r

end Reserve

def headroom (allocatable : Resources) (leases : Listing) (pods : List Pod) (id : String)
    : Resources :=
  (allocatable.saturatingSub (splitUsage pods leases).unreserved).saturatingSub
    (sumReservations leases id)

def poll (allocatable budget : Resources) (want : Reserve) (id : String) (leases : Listing)
    (pods : List Pod) : Except Violation (Option Resources) :=
  match assertInvariant leases pods with
  | .error v => .error v
  | .ok () =>
    let slice := budget.min (headroom allocatable leases pods id)
    if want.threshold.fitsWithin slice then
      .ok (some (want.amount slice))
    else
      .ok none

def fairReserve (allocatable nonZtest others : Resources) (activeRuns : UInt64)
    (budget committed demand : Resources) : Resources :=
  let n := max activeRuns 1
  let usable := allocatable.saturatingSub nonZtest
  let fair := Resources.new (usable.cpuMilli / n) (usable.memBytes / n) (usable.diskBps / n)
    (usable.diskIops / n)
  let want := (demand.min fair).min budget
  let headroom := usable.saturatingSub others
  (want.min headroom).max committed

def activeRuns (leases : Listing) : UInt64 :=
  .ofNat (leases.filter (·.2.kind ≠ .claim)).length

def reserveFromState (leases : Listing) (pods : List Pod) (id : String)
    (allocatable budget committed demand : Resources) : Resources :=
  fairReserve allocatable (splitUsage pods leases).unreserved (sumReservations leases id)
    (activeRuns leases) budget committed demand

structure Demand where
  committed : Resources
  demand : Resources
  deriving DecidableEq

def Demand.default : Demand := ⟨.zero, .zero⟩

inductive Tick where
  | idle
  | renewing
  | demandRead (d : Demand)
  | leasesListed (d : Demand) (live : Listing)
  | writing (live : Listing) (target : Resources)
  | publishing (target : Resources)

namespace Tick

-- A fixed reservation, and an elastic one before the engine's first report, only renews.
def readDemand (want : Reserve) (d : Demand) : Tick :=
  match want with
  | .fixed _ => .renewing
  | .elastic => if d = .default then .renewing else .demandRead d

def listLeases (d : Demand) : Option Listing → Tick
  | some live => .leasesListed d live
  | none => .idle

def listPods (id : String) (allocatable budget : Resources) (d : Demand) (live : Listing)
    : Option (List Pod) → Tick
  | some pods =>
    .writing live (reserveFromState live pods id allocatable budget d.committed d.demand)
  | none => .idle

end Tick

def runUsage (pods : List Pod) (run : String) : Resources :=
  ((pods.filter podHoldsCapacity).filter (·.runId = some run)).foldl
    (fun acc p => acc.saturatingAdd (podFootprint p)) .zero

structure Cluster where
  leases : AList (fun _ : String => Lease)
  pods : List Pod
  -- The leases as the polling run listed them, until it has listed the pods.
  listed : Option Listing

namespace Cluster

abbrev Stop : Type := Run.Stop Violation

def listing (c : Cluster) : Listing := listingOf c.leases

def writeLease (c : Cluster) (id : String) (reserve : Resources) (kind : LeaseKind)
    : Except Stop Cluster :=
  if (runUsage c.pods id).fitsWithin (reservationOf ⟨reserve, kind⟩) then
    .ok { c with leases := c.leases.insert id ⟨reserve, kind⟩ }
  else
    .error .disabled

-- A release, or the sweep of a lease that expired.
def deleteLease (c : Cluster) (id : String) : Cluster := { c with leases := c.leases.erase id }

def createPod (c : Cluster) (pod : Pod) : Except Stop Cluster :=
  match pod.runId with
  | none => .ok { c with pods := c.pods ++ [pod] }
  | some run =>
    match c.leases.lookup run with
    | none => .error .disabled
    | some lease =>
      if (runUsage (c.pods ++ [pod]) run).fitsWithin (reservationOf lease) then
        .ok { c with pods := c.pods ++ [pod] }
      else
        .error .disabled

def deletePod (c : Cluster) (pod : Pod) : Cluster := { c with pods := c.pods.erase pod }

def settlePod (c : Cluster) (pod : Pod) (succeeded : Bool) : Cluster :=
  { c with
    pods := c.pods.replace pod
      { pod with phase := some (if succeeded then .succeeded else .failed) } }

def listLeases (c : Cluster) : Cluster := { c with listed := some c.listing }

def listPods (c : Cluster) : Except Stop Cluster :=
  match c.listed with
  | none => .error .disabled
  | some live =>
    match assertInvariant live c.pods with
    | .ok () => .ok { c with listed := none }
    | .error v => .error (.ended v)

inductive Act where
  | writeLease (id : String) (reserve : Resources) (kind : LeaseKind)
  | deleteLease (id : String)
  | createPod (pod : Pod)
  | deletePod (pod : Pod)
  | settlePod (pod : Pod) (succeeded : Bool)
  | listLeases
  | listPods

def act (c : Cluster) : Act → Except Stop Cluster
  | .writeLease id reserve kind => c.writeLease id reserve kind
  | .deleteLease id => .ok (c.deleteLease id)
  | .createPod pod => c.createPod pod
  | .deletePod pod => .ok (c.deletePod pod)
  | .settlePod pod succeeded => .ok (c.settlePod pod succeeded)
  | .listLeases => .ok c.listLeases
  | .listPods => c.listPods

def step (c : Cluster) (a : Act) : Except Stop (Cluster × Unit) := (c.act a).map fun c => (c, ())

end Cluster
end Ledger
end Qos
