import Ztest.Qos.Ledger.Impl

/-!
This module contains any number of runs that share one ledger. Each run is a process executing
`acquire`, then `drive`, then `release` of `qos/ledger.rs`. Every await of the source is a step of
its own, so the steps of different runs interleave freely, and every list and write call may fail.

Leases do not expire here, so a sweep deletes nothing. The pods of a run exist while it holds its
lease, all other pods stay as they are.

What the listings add up to counts in CPU and memory, the two `Dim.indexed` dimensions, and a saturating sum is
the exact one cut off at the largest `UInt64`.
-/

namespace Qos

def Dim.indexed : Dim → Bool
  | .cpuMilli => true
  | .memBytes => true
  | _ => false

namespace Ledger

inductive Pc where
  | polling
  | leasesListed (live : Listing)
  | reserving (live : Listing) (reserve : Resources)
  | parking
  | driving (prev : Resources) (tick : Tick)
  | ended

structure Client where
  want : Reserve
  budget : Resources
  kind : LeaseKind
  pc : Pc

structure Fleet where
  allocatable : Resources
  leases : AList (fun _ : String => Lease)
  pods : List Pod
  clients : AList (fun _ : String => Client)

namespace Fleet

def listing (s : Fleet) : Listing := listingOf s.leases

def setPc (s : Fleet) (id : String) (client : Client) (pc : Pc) : Fleet :=
  { s with clients := s.clients.insert id { client with pc } }

def putLease (s : Fleet) (id : String) (reserve : Resources) (kind : LeaseKind) : Fleet :=
  { s with leases := s.leases.insert id ⟨reserve, kind⟩ }

def dropLease (s : Fleet) (id : String) : Fleet := { s with leases := s.leases.erase id }

def launch (s : Fleet) (id : String) (want : Reserve) (budget : Resources) (kind : LeaseKind)
    : Option Fleet :=
  -- A run id is fresh: no pod carries it yet.
  if s.pods.any (·.runId = some id) then
    none
  else
    some { s with clients := s.clients.insert id ⟨want, budget, kind, .polling⟩ }

def listLeases (s : Fleet) (id : String) (client : Client) (ok : Bool) : Option Fleet :=
  match client.pc with
  | .polling => some (s.setPc id client (if ok then .leasesListed s.listing else .ended))
  | .driving prev (.demandRead d) =>
    some (s.setPc id client (.driving prev (.listLeases d (if ok then some s.listing else none))))
  | _ => none

-- The pod listing, and what is computed from the two listings before the next await.
def listPods (s : Fleet) (id : String) (client : Client) (ok : Bool) : Option Fleet :=
  match client.pc with
  | .leasesListed live =>
    if ok then
      match poll s.allocatable client.budget client.want id live s.pods with
      | .error _ => some (s.setPc id client .ended)
      | .ok (some reserve) => some (s.setPc id client (.reserving live reserve))
      | .ok none => some (s.setPc id client .parking)
    else
      some (s.setPc id client .ended)
  | .driving prev (.leasesListed d live) =>
    some (s.setPc id client (.driving prev (.listPods id s.allocatable client.budget d live
      (if ok then some s.pods else none))))
  | _ => none

def write (s : Fleet) (id : String) (client : Client) (ok : Bool) : Option Fleet :=
  match client.pc with
  | .reserving _ reserve =>
    if ok then
      some ((s.putLease id reserve client.kind).setPc id client (.driving reserve .idle))
    else
      some (s.setPc id client .ended)
  | .parking =>
    if ok then
      some ((s.putLease id .zero .claim).setPc id client .polling)
    else
      some (s.setPc id client .polling)
  | .driving prev .renewing =>
    if ok then
      some ((s.putLease id prev client.kind).setPc id client (.driving prev .idle))
    else
      some (s.setPc id client (.driving prev .idle))
  | .driving prev (.writing _ target) =>
    if ok then
      some ((s.putLease id (target.max prev) client.kind).setPc id client
        (.driving prev (.publishing target)))
    else
      some (s.setPc id client (.driving prev .idle))
  | _ => none

def readDemand (s : Fleet) (id : String) (client : Client) (d : Demand) : Option Fleet :=
  match client.pc with
  | .driving prev .idle => some (s.setPc id client (.driving prev (.readDemand client.want d)))
  | _ => none

def publish (s : Fleet) (id : String) (client : Client) : Option Fleet :=
  match client.pc with
  | .driving _ (.publishing target) => some (s.setPc id client (.driving target .idle))
  | _ => none

-- `release` at any point of a tick, and the timeout of `acquire`. The delete may fail.
def leave (s : Fleet) (id : String) (client : Client) (ok : Bool) : Option Fleet :=
  if s.pods.any fun p => p.runId = some id && podHoldsCapacity p then
    none
  else
    match client.pc with
    | .parking => some ((if ok then s.dropLease id else s).setPc id client .ended)
    | .driving _ _ => some ((if ok then s.dropLease id else s).setPc id client .ended)
    | _ => none

def createPod (s : Fleet) (id : String) (client : Client) (pod : Pod) : Option Fleet :=
  match client.pc with
  | .driving _ _ =>
    if pod.runId = some id then
      some { s with pods := s.pods ++ [pod] }
    else
      none
  | _ => none

def deletePod (s : Fleet) (id : String) (pod : Pod) : Option Fleet :=
  if pod ∈ s.pods ∧ pod.runId = some id then
    some { s with pods := s.pods.erase pod }
  else
    none

inductive Act where
  | launch (want : Reserve) (budget : Resources) (kind : LeaseKind)
  | listLeases (ok : Bool)
  | listPods (ok : Bool)
  | write (ok : Bool)
  | readDemand (d : Demand)
  | publish
  | leave (ok : Bool)
  | createPod (pod : Pod)
  | deletePod (pod : Pod)

def act (s : Fleet) (id : String) (client : Client) : Act → Option Fleet
  | .launch _ _ _ => none
  | .listLeases ok => s.listLeases id client ok
  | .listPods ok => s.listPods id client ok
  | .write ok => s.write id client ok
  | .readDemand d => s.readDemand id client d
  | .publish => s.publish id client
  | .leave ok => s.leave id client ok
  | .createPod pod => s.createPod id client pod
  | .deletePod pod => s.deletePod id pod

def step (s : Fleet) (input : String × Act) : Except Unit (Fleet × Unit) :=
  let result :=
    match s.clients.lookup input.1, input.2 with
    | none, .launch want budget kind => s.launch input.1 want budget kind
    | some client, a => s.act input.1 client a
    | none, _ => none
  match result with
  | some s => .ok (s, ())
  | none => .error ()

def init (allocatable : Resources) (pods : List Pod) : Fleet where
  allocatable := allocatable
  leases := ∅
  pods := pods
  clients := ∅

end Fleet

variable {leases : Listing} {pods : List Pod} {id : String} {d : Dim}

theorem map_listingOf (m : AList (fun _ : String => Lease)) : (listingOf m).map (·.1) = m.keys := by
  unfold listingOf AList.keys List.keys
  rw [List.map_map]
  rfl

theorem mem_of_mem_listingOf {m : AList (fun _ : String => Lease)} {l : String × Lease}
    (h : l ∈ listingOf m)
    : l.1 ∈ m := by
  rw [AList.mem_keys, ← map_listingOf]
  exact List.mem_map_of_mem h

theorem reservedOf_listingOf {m : AList (fun _ : String => Lease)} {lease : Lease}
    (h : m.lookup id = some lease)
    : reservedOf (listingOf m) id = reservationOf lease := by
  have hmem : (id, lease) ∈ listingOf m := by
    unfold listingOf
    rw [List.mem_map]
    exact ⟨⟨id, lease⟩, AList.mem_lookup_iff.mp h, rfl⟩
  unfold reservedOf
  split
  . next l hfind =>
    have hid : l.1 = id := by simpa using List.find?_some hfind
    have hl : l ∈ listingOf m := by simpa using List.mem_of_find?_eq_some hfind
    unfold listingOf at hl
    rw [List.mem_map] at hl
    obtain ⟨e, he, rfl⟩ := hl
    have hlookup : m.lookup e.1 = some e.2 := AList.mem_lookup_iff.mpr he
    rw [show e.1 = id from hid, h] at hlookup
    cases hlookup
    rfl
  . next hfind =>
    rw [List.find?_eq_none] at hfind
    have hno := hfind (id, lease) (List.mem_reverse.mpr hmem)
    simp at hno

theorem amt_reservationOf (hd : d.indexed = true) (lease : Lease)
    : (reservationOf lease).amt d = lease.reserve.amt d := by
  cases d <;> first | rfl | cases hd

theorem amt_sumReservations (leases : Listing) (exclude : String) (d : Dim)
    : (sumReservations leases exclude).amt d
        =
      min ((leases.filter (·.1 ≠ exclude)).map fun l => (reservationOf l.2).amt d).sum
        (2 ^ 64 - 1) := by
  unfold sumReservations
  rw [Resources.amt_foldl_saturatingAdd (fun l : String × Lease => reservationOf l.2)]
  simp

def unleased (pods : List Pod) (leases : Listing) : List Pod :=
  (pods.filter podHoldsCapacity).filter fun p => leaseOf leases p = none

theorem unreserved_splitUsage (pods : List Pod) (leases : Listing)
    : (splitUsage pods leases).unreserved
        =
      (unleased pods leases).foldl (fun acc p => acc.saturatingAdd (podFootprint p)) .zero := by
  suffices hgo : ∀ (l : List Pod) (usage : Usage),
      (l.foldl (Usage.addPod leases) usage).unreserved
        =
      (l.filter fun p => leaseOf leases p = none).foldl
        (fun acc p => acc.saturatingAdd (podFootprint p)) usage.unreserved from hgo _ _
  intro l
  induction l with
  | nil =>
    intro usage
    rfl
  | cons p l ih =>
    intro usage
    rw [List.foldl_cons, ih]
    unfold Usage.addPod
    cases hlease : leaseOf leases p with
    | none => simp [hlease]
    | some run => simp [hlease]

def footprints (pods : List Pod) (d : Dim) : Nat := (pods.map fun p => (podFootprint p).amt d).sum

theorem amt_unreserved (pods : List Pod) (leases : Listing) (d : Dim)
    : (splitUsage pods leases).unreserved.amt d
        =
      min (footprints (unleased pods leases) d) (2 ^ 64 - 1) := by
  rw [unreserved_splitUsage, Resources.amt_foldl_saturatingAdd]
  simp [footprints]

theorem footprints_le_of_sublist {l l' : List Pod} (h : l.Sublist l') (d : Dim)
    : footprints l d ≤ footprints l' d := by
  unfold footprints
  apply List.Sublist.sum_le_sum
  . exact h.map _
  . exact fun _ _ => Nat.zero_le _

theorem amt_headroom (allocatable : Resources) (leases : Listing) (pods : List Pod) (id : String)
    (d : Dim)
    : (headroom allocatable leases pods id).amt d
        =
      allocatable.amt d - (splitUsage pods leases).unreserved.amt d
        - (sumReservations leases id).amt d := by
  unfold headroom
  rw [Resources.amt_saturatingSub, Resources.amt_saturatingSub]

theorem amt_reserveFromState_le (leases : Listing) (pods : List Pod) (id : String)
    (allocatable budget committed demand : Resources) (d : Dim)
    : (reserveFromState leases pods id allocatable budget committed demand).amt d
        ≤ max ((headroom allocatable leases pods id).amt d) (committed.amt d) := by
  unfold reserveFromState fairReserve headroom
  simp only [Resources.amt_max, Resources.amt_min]
  omega

theorem committed_le_reserveFromState (leases : Listing) (pods : List Pod) (id : String)
    (allocatable budget committed demand : Resources) (d : Dim)
    : committed.amt d
        ≤ (reserveFromState leases pods id allocatable budget committed demand).amt d := by
  unfold reserveFromState fairReserve
  simp only [Resources.amt_max]
  omega

theorem poll_some {allocatable budget : Resources} {want : Reserve} {reserve : Resources}
    (h : poll allocatable budget want id leases pods = .ok (some reserve)) (d : Dim)
    : reserve.amt d ≤ (headroom allocatable leases pods id).amt d := by
  unfold poll at h
  split at h
  . cases h
  . simp only at h
    split at h
    . next hfits =>
      cases h
      have hslice := Resources.fitsWithin_iff.mp hfits d
      rw [Resources.amt_min] at hslice
      cases want with
      | elastic =>
        show (budget.min _).amt d ≤ _
        rw [Resources.amt_min]
        omega
      | fixed r =>
        show r.amt d ≤ _
        have : r.amt d ≤ _ := hslice
        omega
    . cases h

end Ledger
end Qos
