import Ztest.Qos.Ledger.Fleet

/-!
This module is about the sum of all reservations. `acquire` and `drive` read the ledger and write it
in two steps, with nothing in between that holds the other runs back. What they write fits the room
they saw, so the sum stays within the cluster as long as no peer grew since the listing.
-/

namespace Qos
namespace Ledger
namespace Fleet

variable {s s' : Fleet} {id : String} {client : Client} {d : Dim}

def reserved (s : Fleet) (d : Dim) : Nat := s.leases.weight fun _ l => l.reserve.amt d

def foreign (s : Fleet) : List Pod :=
  s.pods.filter fun p => podHoldsCapacity p && p.runId.all (· ∉ s.clients)

def foreignUsage (s : Fleet) (d : Dim) : Nat := min (footprints s.foreign d) (2 ^ 64 - 1)

def room (s : Fleet) (live : Listing) (id : String) (d : Dim) : Nat :=
  s.allocatable.amt d - s.foreignUsage d - (sumReservations live id).amt d

def TickOk (s : Fleet) (id : String) (lease : Lease) : Tick → Prop
  | .idle => True
  | .renewing => True
  | .demandRead dm => ∀ d, d.indexed = true → dm.committed.amt d ≤ lease.reserve.amt d
  | .leasesListed dm live =>
    (∀ d, d.indexed = true → dm.committed.amt d ≤ lease.reserve.amt d)
      ∧ ∀ l ∈ live, l.1 ∈ s.clients
  | .writing live target =>
    ∀ d, d.indexed = true → target.amt d ≤ max (s.room live id d) (lease.reserve.amt d)
  | .publishing target => ∀ d, d.indexed = true → target.amt d ≤ lease.reserve.amt d

def PcOk (s : Fleet) (id : String) : Pc → Prop
  | .polling => True
  | .leasesListed live => ∀ l ∈ live, l.1 ∈ s.clients
  | .reserving live reserve => ∀ d, d.indexed = true → reserve.amt d ≤ s.room live id d
  | .parking => True
  | .driving prev tick => ∃ lease, s.leases.lookup id = some lease
      ∧ (∀ d, d.indexed = true → prev.amt d ≤ lease.reserve.amt d) ∧ s.TickOk id lease tick
  | .ended => True

def Pc.isDriving : Pc → Bool
  | .driving _ _ => true
  | _ => false

structure Inv (s : Fleet) : Prop where
  names : ∀ id ∈ s.leases, id ∈ s.clients
  clients : ∀ id client, s.clients.lookup id = some client → s.PcOk id client.pc
  -- A pod that holds capacity is covered by the lease of its run.
  owned : ∀ p ∈ s.pods, podHoldsCapacity p = true → ∀ id client, p.runId = some id →
    s.clients.lookup id = some client → Pc.isDriving client.pc = true
  bound : ∀ d, d.indexed = true → s.reserved d + s.foreignUsage d ≤ s.allocatable.amt d

-- The other runs' reservations add up to no more than when `id` listed them.
def PeersWithin (s : Fleet) (live : Listing) (id : String) : Prop :=
  ∀ d, d.indexed = true →
    (sumReservations s.listing id).amt d ≤ (sumReservations live id).amt d

/--
At a write the other runs have not grown since the listing it rests on, and the committed footprint
a tick reads is within what the run's own lease holds.
-/
def NoPeerGrew (s : Fleet) (input : String × Act) : Prop :=
  ∀ client, s.clients.lookup input.1 = some client →
    match input.2, client.pc with
    | .write true, .reserving live _ => s.PeersWithin live input.1
    | .write true, .driving _ (.writing live _) => s.PeersWithin live input.1
    | .readDemand dm, .driving _ .idle => client.want = .elastic →
      ∀ lease, s.leases.lookup input.1 = some lease →
        ∀ d, d.indexed = true → dm.committed.amt d ≤ lease.reserve.amt d
    | _, _ => True

theorem sum_listing (s : Fleet) (id : String) (hd : d.indexed = true)
    : ((s.listing.filter (·.1 ≠ id)).map fun l => (reservationOf l.2).amt d).sum
        =
      (s.leases.erase id).weight fun _ l => l.reserve.amt d := by
  unfold AList.weight listing listingOf
  rw [AList.entries_erase_eq_filter, List.filter_map, List.map_map]
  apply congrArg List.sum
  apply List.map_congr_left
  intro e _
  exact amt_reservationOf hd e.2

theorem reserved_eq {lease : Lease} (h : s.leases.lookup id = some lease) (d : Dim)
    : s.reserved d = lease.reserve.amt d + (s.leases.erase id).weight fun _ l => l.reserve.amt d :=
  AList.weight_erase_of_lookup _ h

theorem Inv.amt_sumReservations_listing (h : s.Inv) (id : String) (hd : d.indexed = true)
    : (sumReservations s.listing id).amt d
        =
      (s.leases.erase id).weight fun _ l => l.reserve.amt d := by
  rw [amt_sumReservations, sum_listing s id hd]
  have hle := AList.weight_erase_le (fun _ l => l.reserve.amt d) id s.leases
  have hbound := h.bound d hd
  have hmax := s.allocatable.amt_le d
  unfold reserved at hbound
  omega

theorem Inv.bound_putLease {live : Listing} {r : Resources} {kind : LeaseKind} (h : s.Inv)
    (hpeers : s.PeersWithin live id) (hd : d.indexed = true) (hr : r.amt d ≤ s.room live id d)
    : (s.putLease id r kind).reserved d + s.foreignUsage d ≤ s.allocatable.amt d := by
  have hsum := h.amt_sumReservations_listing id hd
  have hwithin := hpeers d hd
  have hle := AList.weight_erase_le (fun _ l => l.reserve.amt d) id s.leases
  have hbound := h.bound d hd
  unfold reserved putLease
  rw [AList.weight_insert]
  unfold reserved at hbound
  unfold room at hr
  simp only at hsum hle hbound ⊢
  omega

theorem Inv.bound_putLease_of_le {lease : Lease} {r : Resources} {kind : LeaseKind} (h : s.Inv)
    (hlease : s.leases.lookup id = some lease) (hd : d.indexed = true)
    (hr : r.amt d ≤ lease.reserve.amt d)
    : (s.putLease id r kind).reserved d + s.foreignUsage d ≤ s.allocatable.amt d := by
  have hbound := h.bound d hd
  rw [reserved_eq hlease] at hbound
  unfold reserved putLease
  rw [AList.weight_insert]
  simp only at hbound ⊢
  omega

theorem foreignUsage_le_unreserved {live : Listing} (h : ∀ l ∈ live, l.1 ∈ s.clients) (d : Dim)
    : s.foreignUsage d ≤ (splitUsage s.pods live).unreserved.amt d := by
  rw [amt_unreserved]
  unfold foreignUsage
  have hsub : s.foreign.Sublist (unleased s.pods live) := by
    unfold foreign unleased
    rw [List.filter_filter]
    apply List.monotone_filter_right
    intro p hp
    simp only [Bool.and_eq_true, Option.all_eq_true, decide_eq_true_eq] at hp ⊢
    refine ⟨?_, hp.1⟩
    unfold leaseOf
    rw [Option.filter_eq_none_iff]
    intro run hrun
    simp only [decide_eq_true_eq, List.mem_map, not_exists, not_and]
    intro l hl heq
    apply hp.2 run hrun
    rw [← heq]
    exact h l hl
  have := footprints_le_of_sublist hsub d
  omega

theorem Inv.mem_leases_iff (h : s.Inv) {p : Pod} (hp : p ∈ s.pods) (hholds : podHoldsCapacity p = true)
    {run : String} (hrun : p.runId = some run)
    : run ∈ s.leases ↔ run ∈ s.clients := by
  constructor
  . exact h.names run
  . intro hmem
    rw [← AList.lookup_isSome, Option.isSome_iff_exists] at hmem
    obtain ⟨client, hclient⟩ := hmem
    have hdriving := h.owned p hp hholds run client hrun hclient
    have hok := h.clients run client hclient
    cases hpc : client.pc with
    | driving prev tick =>
      rw [hpc] at hok
      obtain ⟨lease, hlease, _⟩ := hok
      exact AList.mem_of_lookup hlease
    | _ =>
      rw [hpc] at hdriving
      cases hdriving

theorem Inv.unreserved_eq (h : s.Inv) (d : Dim)
    : (splitUsage s.pods s.listing).unreserved.amt d = s.foreignUsage d := by
  rw [amt_unreserved]
  unfold foreignUsage
  have heq : unleased s.pods s.listing = s.foreign := by
    unfold foreign unleased
    rw [List.filter_filter]
    apply List.filter_congr
    intro p hp
    cases hholds : podHoldsCapacity p with
    | false => simp
    | true =>
      unfold leaseOf listing
      rw [map_listingOf]
      cases hrun : p.runId with
      | none => simp
      | some run =>
        have hiff := h.mem_leases_iff hp hholds hrun
        rw [AList.mem_keys] at hiff
        by_cases hmem : run ∈ s.leases.keys
        . simp [Option.filter, hmem, hiff.mp hmem]
        . simp [Option.filter, hmem, hiff.not.mp hmem]
  rw [heq]

-- The step of one run: its own lease and its own place, everything else as it was.
structure Moved (id : String) (s s' : Fleet) : Prop where
  allocatable : s'.allocatable = s.allocatable
  foreign : s'.foreign = s.foreign
  leases : ∀ other, other ≠ id → s'.leases.lookup other = s.leases.lookup other
  clients : ∀ other, other ≠ id → s'.clients.lookup other = s.clients.lookup other
  keeps : ∀ other ∈ s.clients, other ∈ s'.clients

theorem Moved.foreignUsage (h : Moved id s s') (d : Dim) : s'.foreignUsage d = s.foreignUsage d := by
  unfold Fleet.foreignUsage
  rw [h.foreign]

theorem Moved.room (h : Moved id s s') (live : Listing) (other : String) (d : Dim)
    : s'.room live other d = s.room live other d := by
  unfold Fleet.room
  rw [h.allocatable, h.foreignUsage]

theorem Moved.tickOk {other : String} {lease : Lease} {tick : Tick} (h : Moved id s s')
    (hok : s.TickOk other lease tick)
    : s'.TickOk other lease tick := by
  cases tick with
  | leasesListed dm live => exact ⟨hok.1, fun l hl => h.keeps l.1 (hok.2 l hl)⟩
  | writing live target =>
    intro d hd
    rw [h.room]
    exact hok d hd
  | _ => exact hok

theorem Moved.pcOk {other : String} {pc : Pc} (h : Moved id s s')
    (hlease : s'.leases.lookup other = s.leases.lookup other) (hok : s.PcOk other pc)
    : s'.PcOk other pc := by
  cases pc with
  | leasesListed live => exact fun l hl => h.keeps l.1 (hok l hl)
  | reserving live reserve =>
    intro d hd
    rw [h.room]
    exact hok d hd
  | driving prev tick =>
    obtain ⟨lease, hlookup, hprev, htick⟩ := hok
    exact ⟨lease, hlease.trans hlookup, hprev, h.tickOk htick⟩
  | _ => trivial

theorem lookup_setPc (client : Client) (pc : Pc)
    : (s.setPc id client pc).clients.lookup id = some { client with pc } :=
  AList.lookup_insert _

theorem Moved.setPc (hclient : s.clients.lookup id = some client) (pc : Pc)
    {leases : AList (fun _ : String => Lease)}
    (hleases : ∀ other, other ≠ id → leases.lookup other = s.leases.lookup other)
    : Moved id s ({ s with leases }.setPc id client pc) := by
  have hmem : ∀ other, other ∈ s.clients.insert id { client with pc } ↔ other ∈ s.clients := by
    intro other
    rw [AList.mem_insert]
    constructor
    . intro h
      cases h with
      | inl h =>
        subst h
        exact AList.mem_of_lookup hclient
      | inr h => exact h
    . exact .inr
  constructor
  . rfl
  . unfold Fleet.foreign Fleet.setPc
    simp only [hmem]
  . exact hleases
  . intro other hne
    exact AList.lookup_insert_ne hne
  . exact fun other h => (hmem other).mpr h

theorem Inv.move (h : s.Inv) (hmoved : Moved id s s') (hnames : id ∈ s'.leases → id ∈ s'.clients)
    (hown : ∀ client, s'.clients.lookup id = some client → s'.PcOk id client.pc)
    (hpods : ∀ p ∈ s'.pods, p ∈ s.pods ∨ p.runId = some id)
    (howned : ∀ p ∈ s'.pods, podHoldsCapacity p = true → p.runId = some id →
      ∀ client, s'.clients.lookup id = some client → Pc.isDriving client.pc = true)
    (hbound : ∀ d, d.indexed = true → s'.reserved d + s.foreignUsage d ≤ s.allocatable.amt d)
    : s'.Inv := by
  constructor
  . intro other hother
    by_cases heq : other = id
    . subst heq
      exact hnames hother
    . apply hmoved.keeps
      apply h.names
      rw [← AList.lookup_isSome, ← hmoved.leases other heq, AList.lookup_isSome]
      exact hother
  . intro other client hclient
    by_cases heq : other = id
    . subst heq
      exact hown client hclient
    . rw [hmoved.clients other heq] at hclient
      exact hmoved.pcOk (hmoved.leases other heq) (h.clients other client hclient)
  . intro p hp hholds other client hrun hclient
    by_cases heq : other = id
    . subst heq
      exact howned p hp hholds hrun client hclient
    . rw [hmoved.clients other heq] at hclient
      cases hpods p hp with
      | inl hp => exact h.owned p hp hholds other client hrun hclient
      | inr hid =>
        rw [hrun] at hid
        cases hid
        exact absurd rfl heq
  . intro d hd
    rw [hmoved.allocatable, hmoved.foreignUsage]
    exact hbound d hd

theorem stays_of_not_driving {pc pc' : Pc} (h : Pc.isDriving pc = false)
    : Pc.isDriving pc = true → Pc.isDriving pc' = true := by
  rw [h]
  exact fun hfalse => nomatch hfalse

theorem Inv.moveTo {t : Fleet} {pc : Pc} (h : s.Inv) (hclient : s.clients.lookup id = some client)
    (hmoved : Moved id s (t.setPc id client pc)) (hpods : t.pods = s.pods)
    (hok : (t.setPc id client pc).PcOk id pc)
    (howned : ∀ p ∈ s.pods, podHoldsCapacity p = true → p.runId = some id → Pc.isDriving pc = true)
    (hbound : ∀ d, d.indexed = true → t.reserved d + s.foreignUsage d ≤ s.allocatable.amt d)
    : (t.setPc id client pc).Inv := by
  have hkept : ∀ p ∈ (t.setPc id client pc).pods, p ∈ s.pods := by
    intro p hp
    rw [← hpods]
    exact hp
  apply h.move hmoved
  . intro _
    exact hmoved.keeps id (AList.mem_of_lookup hclient)
  . intro client' hclient'
    rw [lookup_setPc] at hclient'
    cases hclient'
    exact hok
  . exact fun p hp => .inl (hkept p hp)
  . intro p hp hholds hrun client' hclient'
    rw [lookup_setPc] at hclient'
    cases hclient'
    exact howned p (hkept p hp) hholds hrun
  . exact hbound

theorem Inv.setPc (h : s.Inv) (hclient : s.clients.lookup id = some client) {pc : Pc}
    (hok : s.PcOk id pc)
    (hdriving : Pc.isDriving client.pc = true → Pc.isDriving pc = true)
    : (s.setPc id client pc).Inv := by
  have hmoved : Moved id s (s.setPc id client pc) := Moved.setPc hclient pc fun _ _ => rfl
  apply h.moveTo hclient hmoved rfl (hmoved.pcOk rfl hok) ?_ h.bound
  intro p hp hholds hrun
  exact hdriving (h.owned p hp hholds id client hrun hclient)

theorem Inv.putLease (h : s.Inv) (hclient : s.clients.lookup id = some client) {r : Resources}
    {kind : LeaseKind} {pc : Pc}
    (hbound : ∀ d, d.indexed = true →
      (s.putLease id r kind).reserved d + s.foreignUsage d ≤ s.allocatable.amt d)
    (hok : (s.putLease id r kind).PcOk id pc)
    (hdriving : Pc.isDriving client.pc = true → Pc.isDriving pc = true)
    : ((s.putLease id r kind).setPc id client pc).Inv := by
  have hmoved : Moved id s ((s.putLease id r kind).setPc id client pc) :=
    Moved.setPc hclient pc fun _ hne => AList.lookup_insert_ne hne
  have hpc : Moved id (s.putLease id r kind) ((s.putLease id r kind).setPc id client pc) :=
    Moved.setPc (s := s.putLease id r kind) hclient pc fun _ _ => rfl
  apply h.moveTo hclient hmoved rfl (hpc.pcOk rfl hok) ?_ hbound
  intro p hp hholds hrun
  exact hdriving (h.owned p hp hholds id client hrun hclient)

theorem Inv.launch {want : Reserve} {budget : Resources} {kind : LeaseKind} (h : s.Inv)
    (hok : s.launch id want budget kind = some s')
    : s'.Inv := by
  unfold Fleet.launch at hok
  split at hok
  . cases hok
  . next hlabel =>
    cases hok
    simp only [List.any_eq_true, decide_eq_true_eq, not_exists, not_and] at hlabel
    have hmoved : Moved id s { s with clients := s.clients.insert id ⟨want, budget, kind, .polling⟩ } := by
      constructor
      . rfl
      . unfold Fleet.foreign
        apply List.filter_congr
        intro p hp
        cases hrun : p.runId with
        | none => rfl
        | some run =>
          have hne : run ≠ id := by
            intro heq
            rw [heq] at hrun
            exact hlabel p hp hrun
          simp [AList.mem_insert, hne]
      . exact fun _ _ => rfl
      . exact fun _ hne => AList.lookup_insert_ne hne
      . exact fun other hother => (AList.mem_insert _).mpr (.inr hother)
    apply h.move hmoved
    . intro _
      exact (AList.mem_insert _).mpr (.inl rfl)
    . intro client hclient
      rw [AList.lookup_insert] at hclient
      cases hclient
      trivial
    . exact fun p hp => .inl hp
    . intro p hp _ hrun
      exact absurd hrun (hlabel p hp)
    . exact h.bound

theorem Inv.listLeases {ok : Bool} (h : s.Inv) (hclient : s.clients.lookup id = some client)
    (hok : s.listLeases id client ok = some s')
    : s'.Inv := by
  have hlive : ∀ l ∈ s.listing, l.1 ∈ s.clients := fun l hl => h.names l.1 (mem_of_mem_listingOf hl)
  have hpc := h.clients id client hclient
  unfold Fleet.listLeases at hok
  split at hok
  . next heq =>
    cases hok
    rw [heq] at hpc
    apply h.setPc hclient
    . cases ok
      . trivial
      . exact hlive
    . exact stays_of_not_driving (by rw [heq]; rfl)
  . next prev dm heq =>
    cases hok
    rw [heq] at hpc
    obtain ⟨lease, hlease, hprev, hcommitted⟩ := hpc
    apply h.setPc hclient
    . cases ok
      . exact ⟨lease, hlease, hprev, trivial⟩
      . exact ⟨lease, hlease, hprev, hcommitted, hlive⟩
    . exact fun _ => rfl
  . cases hok

theorem Inv.listPods {ok : Bool} (h : s.Inv) (hclient : s.clients.lookup id = some client)
    (hok : s.listPods id client ok = some s')
    : s'.Inv := by
  have hpc := h.clients id client hclient
  have hroom : ∀ (live : Listing), (∀ l ∈ live, l.1 ∈ s.clients) → ∀ d,
      (headroom s.allocatable live s.pods id).amt d ≤ s.room live id d := by
    intro live hlive d
    have := foreignUsage_le_unreserved hlive d
    rw [amt_headroom]
    unfold room
    omega
  unfold Fleet.listPods at hok
  split at hok
  . next live heq =>
    rw [heq] at hpc
    have hidle : Pc.isDriving client.pc = false := by rw [heq]; rfl
    split at hok
    . split at hok
      . cases hok
        exact h.setPc hclient trivial (stays_of_not_driving hidle)
      . next reserve hpoll =>
        cases hok
        apply h.setPc hclient ?_ (stays_of_not_driving hidle)
        intro d _
        exact Nat.le_trans (poll_some hpoll d) (hroom live hpc d)
      . cases hok
        exact h.setPc hclient trivial (stays_of_not_driving hidle)
    . cases hok
      exact h.setPc hclient trivial (stays_of_not_driving hidle)
  . next prev dm live heq =>
    rw [heq] at hpc
    obtain ⟨lease, hlease, hprev, hcommitted, hlive⟩ := hpc
    cases hok
    apply h.setPc hclient ?_ fun _ => rfl
    refine ⟨lease, hlease, hprev, ?_⟩
    cases ok with
    | false => trivial
    | true =>
      intro d hd
      have htarget := amt_reserveFromState_le live s.pods id s.allocatable client.budget
        dm.committed dm.demand d
      have := hroom live hlive d
      have := hcommitted d hd
      omega
  . cases hok

theorem lookup_putLease (r : Resources) (kind : LeaseKind)
    : (s.putLease id r kind).leases.lookup id = some ⟨r, kind⟩ :=
  AList.lookup_insert _

theorem Inv.write {ok : Bool} (h : s.Inv) (hclient : s.clients.lookup id = some client)
    (hpeers : s.NoPeerGrew (id, .write ok)) (hok : s.write id client ok = some s')
    : s'.Inv := by
  have hpc := h.clients id client hclient
  have hgrew := hpeers client hclient
  unfold Fleet.write at hok
  split at hok
  . next live reserve heq =>
    rw [heq] at hpc
    have hidle : Pc.isDriving client.pc = false := by rw [heq]; rfl
    split at hok
    . next hyes =>
      cases hok
      subst hyes
      simp only [heq] at hgrew
      apply h.putLease hclient ?_ ?_ (stays_of_not_driving hidle)
      . intro d hd
        exact h.bound_putLease hgrew hd (hpc d hd)
      . exact ⟨_, lookup_putLease reserve client.kind, fun _ _ => Nat.le_refl _, trivial⟩
    . cases hok
      exact h.setPc hclient trivial (stays_of_not_driving hidle)
  . next heq =>
    have hidle : Pc.isDriving client.pc = false := by rw [heq]; rfl
    split at hok
    . cases hok
      apply h.putLease hclient ?_ ?_ (stays_of_not_driving hidle)
      . intro d hd
        have hbound := h.bound d hd
        have hle := AList.weight_erase_le (fun _ l => l.reserve.amt d) id s.leases
        unfold reserved at hbound
        unfold reserved Fleet.putLease
        rw [AList.weight_insert]
        simp only [Resources.amt_zero] at hle hbound ⊢
        omega
      . trivial
    . cases hok
      exact h.setPc hclient trivial (stays_of_not_driving hidle)
  . next prev heq =>
    rw [heq] at hpc
    obtain ⟨lease, hlease, hprev, _⟩ := hpc
    split at hok
    . cases hok
      apply h.putLease hclient ?_ ?_ fun _ => rfl
      . intro d hd
        exact h.bound_putLease_of_le hlease hd (hprev d hd)
      . exact ⟨_, lookup_putLease prev client.kind, fun _ _ => Nat.le_refl _, trivial⟩
    . cases hok
      exact h.setPc hclient ⟨lease, hlease, hprev, trivial⟩ fun _ => rfl
  . next prev live target heq =>
    rw [heq] at hpc
    obtain ⟨lease, hlease, hprev, htarget⟩ := hpc
    split at hok
    . next hyes =>
      cases hok
      subst hyes
      simp only [heq] at hgrew
      apply h.putLease hclient ?_ ?_ fun _ => rfl
      . intro d hd
        -- The larger of target and previous target fits the room, or is covered already.
        by_cases hcovered : (target.max prev).amt d ≤ lease.reserve.amt d
        . exact h.bound_putLease_of_le hlease hd hcovered
        . apply h.bound_putLease hgrew hd
          have hd' := htarget d hd
          have hp := hprev d hd
          rw [Resources.amt_max] at hcovered ⊢
          omega
      . refine ⟨_, lookup_putLease (target.max prev) client.kind, ?_, ?_⟩
        . intro d _
          show prev.amt d ≤ (target.max prev).amt d
          rw [Resources.amt_max]
          omega
        . intro d _
          show target.amt d ≤ (target.max prev).amt d
          rw [Resources.amt_max]
          omega
    . cases hok
      exact h.setPc hclient ⟨lease, hlease, hprev, trivial⟩ fun _ => rfl
  . cases hok

theorem Inv.readDemand {dm : Demand} (h : s.Inv) (hclient : s.clients.lookup id = some client)
    (hcommitted : s.NoPeerGrew (id, .readDemand dm)) (hok : s.readDemand id client dm = some s')
    : s'.Inv := by
  have hpc := h.clients id client hclient
  have hown := hcommitted client hclient
  unfold Fleet.readDemand at hok
  split at hok
  . next prev heq =>
    rw [heq] at hpc
    simp only [heq] at hown
    obtain ⟨lease, hlease, hprev, _⟩ := hpc
    cases hok
    apply h.setPc hclient ?_ fun _ => rfl
    refine ⟨lease, hlease, hprev, ?_⟩
    unfold Tick.readDemand
    split
    . trivial
    . next hwant =>
      split
      . trivial
      . exact hown hwant lease hlease
  . cases hok

theorem Inv.publish (h : s.Inv) (hclient : s.clients.lookup id = some client)
    (hok : s.publish id client = some s')
    : s'.Inv := by
  have hpc := h.clients id client hclient
  unfold Fleet.publish at hok
  split at hok
  . next prev target heq =>
    cases hok
    rw [heq] at hpc
    obtain ⟨lease, hlease, _, htarget⟩ := hpc
    exact h.setPc hclient ⟨lease, hlease, htarget, trivial⟩ fun _ => rfl
  . cases hok

theorem Inv.ended {ok : Bool} (h : s.Inv) (hclient : s.clients.lookup id = some client)
    (hpods : ∀ p ∈ s.pods, podHoldsCapacity p = true → p.runId ≠ some id)
    : ((if ok then s.dropLease id else s).setPc id client .ended).Inv := by
  have hmoved : Moved id s ((if ok then s.dropLease id else s).setPc id client .ended) := by
    cases ok
    . exact Moved.setPc hclient .ended fun _ _ => rfl
    . exact Moved.setPc hclient .ended fun _ hne => AList.lookup_erase_ne hne
  apply h.moveTo hclient hmoved ?_ trivial
  . intro p hp hholds hrun
    exact absurd hrun (hpods p hp hholds)
  . intro d hd
    have hbound := h.bound d hd
    have hle := AList.weight_erase_le (fun _ l => l.reserve.amt d) id s.leases
    cases ok
    . exact hbound
    . refine Nat.le_trans ?_ hbound
      exact Nat.add_le_add_right hle _
  . cases ok <;> rfl

theorem Inv.leave {ok : Bool} (h : s.Inv) (hclient : s.clients.lookup id = some client)
    (hok : s.leave id client ok = some s')
    : s'.Inv := by
  unfold Fleet.leave at hok
  split at hok
  . cases hok
  . next hpods =>
    have hnone : ∀ p ∈ s.pods, podHoldsCapacity p = true → p.runId ≠ some id := by
      intro p hp hholds hrun
      apply hpods
      simp only [List.any_eq_true, Bool.and_eq_true, decide_eq_true_eq]
      exact ⟨p, hp, hrun, hholds⟩
    split at hok
    . cases hok
      exact h.ended hclient hnone
    . cases hok
      exact h.ended hclient hnone
    . cases hok

theorem Inv.setPods {pods : List Pod} (h : s.Inv) (hmem : id ∈ s.clients)
    (hforeign : foreign { s with pods } = s.foreign)
    (hpods : ∀ p ∈ pods, p ∈ s.pods ∨ p.runId = some id)
    (howned : ∀ p ∈ pods, podHoldsCapacity p = true → p.runId = some id →
      ∀ client, s.clients.lookup id = some client → Pc.isDriving client.pc = true)
    : Inv { s with pods } := by
  have hmoved : Moved id s { s with pods } :=
    ⟨rfl, hforeign, fun _ _ => rfl, fun _ _ => rfl, fun _ hother => hother⟩
  apply h.move hmoved
  . exact fun _ => hmem
  . exact fun client hclient => hmoved.pcOk rfl (h.clients id client hclient)
  . exact hpods
  . exact howned
  . exact h.bound

theorem Inv.createPod {pod : Pod} (h : s.Inv) (hclient : s.clients.lookup id = some client)
    (hok : s.createPod id client pod = some s')
    : s'.Inv := by
  have hmem := AList.mem_of_lookup hclient
  unfold Fleet.createPod at hok
  split at hok
  . next prev tick heq =>
    split at hok
    . next hrun =>
      cases hok
      apply h.setPods hmem
      . unfold foreign
        rw [List.filter_append]
        simp [hrun, hmem]
      . intro p hp
        rw [List.mem_append, List.mem_singleton] at hp
        cases hp with
        | inl hp => exact .inl hp
        | inr hp =>
          subst hp
          exact .inr hrun
      . intro p _ _ _ client' hclient'
        cases hclient.symm.trans hclient'
        rw [heq]
        rfl
    . cases hok
  . cases hok

theorem Inv.deletePod {pod : Pod} (h : s.Inv) (hclient : s.clients.lookup id = some client)
    (hok : s.deletePod id pod = some s')
    : s'.Inv := by
  have hmem := AList.mem_of_lookup hclient
  unfold Fleet.deletePod at hok
  split at hok
  . next hpod =>
    cases hok
    apply h.setPods hmem
    . obtain ⟨l₁, l₂, _, hpods, herase⟩ := List.exists_erase_eq hpod.1
      unfold foreign
      simp only [herase]
      rw [hpods, List.filter_append, List.filter_append, List.filter_cons_of_neg]
      simp [hpod.2, hmem]
    . intro p hp
      exact .inl (List.mem_of_mem_erase hp)
    . intro p hp hholds hrun client' hclient'
      exact h.owned p (List.mem_of_mem_erase hp) hholds id client' hrun hclient'
  . cases hok

theorem step_ok {input : String × Act} {r : Unit} (h : s.step input = .ok (s', r))
    : (∃ want budget kind, input.2 = .launch want budget kind
        ∧ s.launch input.1 want budget kind = some s')
      ∨ ∃ client, s.clients.lookup input.1 = some client ∧ s.act input.1 client input.2 = some s' := by
  unfold step at h
  simp only at h
  split at h
  . next result hresult =>
    cases h
    split at hresult
    . next want budget kind _ ha => exact .inl ⟨want, budget, kind, ha, hresult⟩
    . next client hclient => exact .inr ⟨client, hclient, hresult⟩
    . cases hresult
  . cases h

theorem Inv.step {input : String × Act} {r : Unit} (h : s.Inv) (hgrew : s.NoPeerGrew input)
    (hok : s.step input = .ok (s', r))
    : s'.Inv := by
  obtain ⟨id, a⟩ := input
  rcases step_ok hok with ⟨want, budget, kind, _, hlaunch⟩ | ⟨client, hclient, hact⟩
  . exact h.launch hlaunch
  . cases a with
    | launch want budget kind => cases hact
    | listLeases ok => exact h.listLeases hclient hact
    | listPods ok => exact h.listPods hclient hact
    | write ok => exact h.write hclient hgrew hact
    | readDemand dm => exact h.readDemand hclient hgrew hact
    | publish => exact h.publish hclient hact
    | leave ok => exact h.leave hclient hact
    | createPod pod => exact h.createPod hclient hact
    | deletePod pod => exact h.deletePod hclient hact

theorem Inv.init {allocatable : Resources} {pods : List Pod}
    (h : ∀ d, d.indexed = true →
      (splitUsage pods []).unreserved.amt d ≤ allocatable.amt d)
    : (init allocatable pods).Inv := by
  have hforeign : (Fleet.init allocatable pods).foreign = unleased pods [] := by
    unfold foreign unleased
    rw [List.filter_filter]
    apply List.filter_congr
    intro p _
    cases hrun : p.runId with
    | none => simp [leaseOf, hrun, Fleet.init]
    | some run => simp [leaseOf, hrun, Fleet.init]
  constructor
  . intro id hid
    exact absurd hid (AList.notMem_empty id)
  . intro id client hclient
    cases hclient
  . intro p _ _ id client _ hclient
    cases hclient
  . intro d hd
    have := h d hd
    rw [amt_unreserved] at this
    unfold foreignUsage
    rw [hforeign]
    show 0 + _ ≤ allocatable.amt d
    omega

theorem allocatable_act {a : Act} (h : s.act id client a = some s')
    : s'.allocatable = s.allocatable := by
  cases a <;> grind [act, listLeases, listPods, write, readDemand, publish, leave, createPod,
    deletePod, setPc, putLease, dropLease]

theorem allocatable_step {input : String × Act} {r : Unit} (h : s.step input = .ok (s', r))
    : s'.allocatable = s.allocatable := by
  rcases step_ok h with ⟨want, budget, kind, _, hlaunch⟩ | ⟨client, _, hact⟩
  . grind [launch]
  . exact allocatable_act hact

theorem no_overcommit (allocatable : Resources) (pods : List Pod) (inputs : List (String × Act))
    (s : Fleet)
    (hinit : ∀ d, d.indexed = true →
      (splitUsage pods []).unreserved.amt d ≤ allocatable.amt d)
    (halong : Run.Along step NoPeerGrew (init allocatable pods) inputs)
    (hexec : Run.exec step (init allocatable pods) inputs = .ok s)
    : ∀ d, d.indexed = true →
        s.reserved d + (splitUsage s.pods s.listing).unreserved.amt d ≤ allocatable.amt d := by
  have hinv : s.Inv ∧ s.allocatable = allocatable := by
    apply Run.exec_invariant_along (Q := NoPeerGrew)
      (I := fun s => s.Inv ∧ s.allocatable = allocatable) ?_ ⟨Inv.init hinit, rfl⟩ halong hexec
    intro s i s' r h hgrew hstep
    exact ⟨h.1.step hgrew hstep, (allocatable_step hstep).trans h.2⟩
  intro d hd
  rw [hinv.1.unreserved_eq, ← hinv.2]
  exact hinv.1.bound d hd

theorem noPeerGrew_of_other {a : Act} (hwrite : a ≠ .write true) (hread : ∀ dm, a ≠ .readDemand dm)
    : s.NoPeerGrew (id, a) := by
  intro client _
  split
  . next heq _ => exact absurd heq hwrite
  . next heq _ => exact absurd heq hwrite
  . next heq _ => exact absurd heq (hread _)
  . trivial

def foreignPod : Pod := ⟨none, none, some ⟨[⟨3000, 4294967296, false⟩], []⟩⟩

-- The second run acquires in the middle of a tick of the first one, which lists its lease.
def interleaved : List (String × Act) :=
  [("a", .launch .elastic ⟨3000, 4294967296, 0, 0, 0⟩ .run), ("b", .launch (.fixed ⟨1500, 1073741824, 0, 0, 0⟩) ⟨1500, 1073741824, 0, 0, 0⟩ .run),
    ("a", .listLeases true), ("a", .listPods true), ("a", .write true), ("b", .listLeases true),
    ("a", .readDemand ⟨⟨1000, 1073741824, 0, 0, 0⟩, ⟨2500, 2147483648, 0, 0, 0⟩⟩), ("b", .listPods true),
    ("b", .write true), ("a", .listLeases true), ("a", .listPods true), ("a", .write true), ("a", .publish)]

theorem no_overcommit_interleaved
    : ∃ s, Run.exec step (init ⟨8000, 17179869184, 0, 0, 0⟩ [foreignPod]) interleaved = .ok s
        ∧ s.reserved .cpuMilli = 4500
        ∧ s.reserved .cpuMilli + (splitUsage s.pods s.listing).unreserved.amt .cpuMilli ≤ 8000 := by
  have halong : Run.Along step NoPeerGrew (init ⟨8000, 17179869184, 0, 0, 0⟩ [foreignPod]) interleaved := by
    unfold interleaved
    iterate 4 refine Run.along_cons (noPeerGrew_of_other (by simp) (by simp)) rfl ?_
    refine Run.along_cons ?_ rfl ?_
    . rintro client ⟨⟩ d hd
      cases d <;> decide
    refine Run.along_cons (noPeerGrew_of_other (by simp) (by simp)) rfl ?_
    refine Run.along_cons ?_ rfl ?_
    . rintro client ⟨⟩ - lease ⟨⟩ d hd
      cases d <;> decide
    refine Run.along_cons (noPeerGrew_of_other (by simp) (by simp)) rfl ?_
    refine Run.along_cons ?_ rfl ?_
    . rintro client ⟨⟩ d hd
      cases d <;> decide
    iterate 2 refine Run.along_cons (noPeerGrew_of_other (by simp) (by simp)) rfl ?_
    refine Run.along_cons ?_ rfl ?_
    . rintro client ⟨⟩ d hd
      cases d <;> decide
    exact Run.along_cons (noPeerGrew_of_other (by simp) (by simp)) rfl trivial
  refine ⟨_, rfl, rfl, no_overcommit _ _ _ _ ?_ halong rfl .cpuMilli rfl⟩
  intro d _
  cases d <;> decide

-- Two runs list the empty ledger before either writes, and each takes the whole cluster.
theorem concurrent_acquires_overcommit
    : ∃ s, Run.exec step (init ⟨8000, 17179869184, 0, 0, 0⟩ [])
          [("a", .launch .elastic ⟨8000, 17179869184, 0, 0, 0⟩ .run),
            ("b", .launch .elastic ⟨8000, 17179869184, 0, 0, 0⟩ .run),
            ("a", .listLeases true), ("b", .listLeases true),
            ("a", .listPods true), ("b", .listPods true),
            ("a", .write true), ("b", .write true)] = .ok s
        ∧ s.reserved .cpuMilli = 16000 ∧ s.allocatable.amt .cpuMilli = 8000
        ∧ s.allocatable.amt .memBytes < s.reserved .memBytes := by
  refine ⟨_, rfl, rfl, rfl, ?_⟩
  decide

end Fleet
end Ledger
end Qos
