import Ztest.Qos.Scheduler.Lemmas.Basic

/-!
This module shows that the totals of the scheduler, which are maintained incrementally with
saturating arithmetic, are the exact sums over the lease table. The admission test is what keeps the
sums below the 64 bit bound: a footprint that fits the free capacity cannot saturate `committed`, and
the usage of one account is at most `committed`.
-/

namespace Qos
namespace Scheduler

variable {s s' : Scheduler} {req : Request}

def leaseSum (s : Scheduler) (d : Dim) : Nat :=
  s.leases.weight fun _ lease => lease.footprint.amt d

def saLeaseSum (s : Scheduler) (sa : String) (d : Dim) : Nat :=
  s.leases.weight fun _ lease => if lease.sa = sa then lease.footprint.amt d else 0

def Holds (s : Scheduler) (sa : String) : Prop :=
  ∃ slotId lease, s.leases.lookup slotId = some lease ∧ lease.sa = sa

structure Exact (s : Scheduler) : Prop where
  committed : ∀ d, s.committed.amt d = s.leaseSum d
  usage : ∀ sa d, (s.saUsageOf sa).amt d = s.saLeaseSum sa d
  holds : ∀ sa, sa ∈ s.saUsage → s.Holds sa
  slots : ∀ slotId ∈ s.leases, slotId.id < s.nextSlotId

theorem Exact.new (available : Resources) : (new available).Exact := by
  constructor
  . simp [Scheduler.new, leaseSum]
  . simp [Scheduler.new, saLeaseSum, saUsageOf]
  . simp [Scheduler.new]
  . simp [Scheduler.new]

theorem Exact.fresh (h : s.Exact) : (⟨s.nextSlotId⟩ : SlotId) ∉ s.leases := by
  intro hmem
  exact Nat.lt_irrefl _ (h.slots _ hmem)

theorem Exact.saUsageOf_le_committed (h : s.Exact) (sa : String) (d : Dim)
    : (s.saUsageOf sa).amt d ≤ s.committed.amt d := by
  rw [h.usage, h.committed]
  apply AList.weight_mono
  intro _ lease
  split <;> omega

theorem Exact.take (h : s.Exact) (hfits : s.fitsNow req = true) : (s.take req).Exact := by
  have hle : ∀ d, s.committed.amt d + req.footprint.amt d ≤ 2 ^ 64 - 1 := by
    intro d
    have := (fitsNow_iff.mp hfits).1 d
    have := s.available.amt_le d
    have := s.committed.amt_le d
    omega
  constructor
  . intro d
    rw [take_committed, Resources.amt_saturatingAdd_of_le (hle d), leaseSum, take_leases,
      AList.weight_insert_of_notMem _ h.fresh, h.committed, leaseSum]
    simp only [Request.lease]
    omega
  . intro sa d
    rw [saUsageOf_take, saLeaseSum, take_leases, AList.weight_insert_of_notMem _ h.fresh]
    have husage := h.usage sa d
    rw [saLeaseSum] at husage
    split
    . next hsa =>
      have := h.saUsageOf_le_committed sa d
      have := hle d
      rw [Resources.amt_saturatingAdd_of_le (by omega), husage]
      simp only [Request.lease, hsa, if_true]
      omega
    . next hsa =>
      rw [husage]
      simp only [Request.lease, Ne.symm hsa, if_false]
      omega
  . intro sa hsa
    by_cases heq : sa = req.sa
    . exact ⟨_, _, AList.lookup_insert _, heq.symm⟩
    . have hold : sa ∈ s.saUsage := by
        rcases (AList.mem_insert _).mp hsa with h1 | h1
        . exact absurd h1 heq
        . exact h1
      obtain ⟨slotId, lease, hlease, hleaseSa⟩ := h.holds sa hold
      refine ⟨slotId, lease, ?_, hleaseSa⟩
      rw [take_leases, AList.lookup_insert_ne]
      . exact hlease
      . rintro rfl
        exact h.fresh (AList.mem_of_lookup hlease)
  . intro slotId hslot
    simp only [take_leases, AList.mem_insert] at hslot
    rw [take_nextSlotId]
    rcases hslot with rfl | hslot
    . simp
    . have := h.slots slotId hslot
      omega

theorem Exact.pass {entries still : List Pending} {grants : List Admitted} (h : s.Exact)
    (hpass : Pass s entries s' grants still)
    : s'.Exact := by
  induction hpass with
  | nil => exact h
  | grant hfits _ ih => exact ih (h.take hfits)
  | skip _ _ ih => exact ih h

theorem saUsageOf_giveBack (slotId : SlotId) (lease : Lease) (sa : String)
    : (s.giveBack slotId lease).saUsageOf sa
        =
      if sa = lease.sa then (s.saUsageOf sa).saturatingSub lease.footprint else s.saUsageOf sa := by
  have hzero : Resources.zero.saturatingSub lease.footprint = .zero := by
    rw [Resources.eq_zero_iff]
    intro d
    simp
  unfold saUsageOf giveBack
  by_cases hsa : sa = lease.sa
  . subst hsa
    cases husage : s.saUsage.lookup lease.sa with
    | none => simp [husage, hzero]
    | some usage =>
      simp only [Option.getD_some, if_true]
      split
      . next hempty => simp [hempty]
      . simp
  . cases husage : s.saUsage.lookup lease.sa with
    | none => simp [hsa]
    | some usage =>
      simp only [hsa, if_false]
      split
      . rw [AList.lookup_erase_ne hsa]
      . rw [AList.lookup_insert_ne hsa]

theorem mem_saUsage_giveBack {slotId : SlotId} {lease : Lease} {sa : String}
    (h : sa ∈ (s.giveBack slotId lease).saUsage)
    : sa ∈ s.saUsage ∧ (sa = lease.sa → (s.saUsageOf sa).saturatingSub lease.footprint ≠ .zero) := by
  unfold giveBack at h
  cases husage : s.saUsage.lookup lease.sa with
  | none =>
    simp only [husage] at h
    refine ⟨h, ?_⟩
    rintro rfl
    rw [AList.lookup_eq_none] at husage
    exact absurd h husage
  | some usage =>
    simp only [husage] at h
    split at h
    . rw [AList.mem_erase] at h
      exact ⟨h.2, fun heq => absurd heq h.1⟩
    . next hne =>
      rw [AList.mem_insert] at h
      have hmem := AList.mem_of_lookup husage
      constructor
      . rcases h with rfl | h
        . exact hmem
        . exact h
      . rintro rfl
        simpa [saUsageOf, husage] using hne

theorem Exact.giveBack {slotId : SlotId} {lease : Lease} (h : s.Exact)
    (hlease : s.leases.lookup slotId = some lease)
    : (s.giveBack slotId lease).Exact := by
  have hsum : ∀ sa d, (s.saUsageOf sa).amt d
      = (if lease.sa = sa then lease.footprint.amt d else 0)
        + (s.giveBack slotId lease).saLeaseSum sa d := by
    intro sa d
    rw [h.usage]
    exact AList.weight_erase_of_lookup _ hlease
  have husage : ∀ sa d, ((s.giveBack slotId lease).saUsageOf sa).amt d
      = (s.giveBack slotId lease).saLeaseSum sa d := by
    intro sa d
    have := hsum sa d
    rw [saUsageOf_giveBack]
    split
    . next heq =>
      rw [Resources.amt_saturatingSub]
      simp only [heq, if_true] at this ⊢
      omega
    . next hne =>
      simp only [Ne.symm hne, if_false] at this
      omega
  constructor
  . intro d
    have hcommitted : s.committed.amt d
        = lease.footprint.amt d + (s.giveBack slotId lease).leaseSum d := by
      rw [h.committed]
      exact AList.weight_erase_of_lookup _ hlease
    simp only [Scheduler.giveBack, Resources.amt_saturatingSub] at hcommitted ⊢
    omega
  . exact husage
  . intro sa hsa
    obtain ⟨hmem, hne⟩ := mem_saUsage_giveBack hsa
    by_cases heq : sa = lease.sa
    . -- What the account still uses is a positive sum over the remaining leases.
      have hpos : ∃ d, 0 < (s.giveBack slotId lease).saLeaseSum sa d := by
        by_contra hno
        apply hne heq
        rw [Resources.eq_zero_iff]
        intro d
        have hd : ¬ 0 < (s.giveBack slotId lease).saLeaseSum sa d := fun hd => hno ⟨d, hd⟩
        have := husage sa d
        rw [saUsageOf_giveBack, if_pos heq] at this
        omega
      obtain ⟨d, hd⟩ := hpos
      obtain ⟨id', lease', hlookup, hweight⟩ := AList.exists_of_weight_pos hd
      refine ⟨id', lease', hlookup, ?_⟩
      by_contra hsa'
      simp [hsa'] at hweight
    . obtain ⟨id', lease', hlookup, hsa'⟩ := h.holds sa hmem
      refine ⟨id', lease', ?_, hsa'⟩
      have hid : id' ≠ slotId := by
        rintro rfl
        rw [hlease] at hlookup
        cases hlookup
        exact heq hsa'.symm
      rw [← hlookup]
      exact AList.lookup_erase_ne hid
  . intro id' hid
    exact h.slots id' (AList.mem_erase.mp hid).2

theorem Exact.of_eq (h : s.Exact) (hcommitted : s'.committed = s.committed)
    (hleases : s'.leases = s.leases) (husage : s'.saUsage = s.saUsage)
    (hslot : s'.nextSlotId = s.nextSlotId)
    : s'.Exact := by
  constructor
  . intro d
    rw [hcommitted, leaseSum, hleases]
    exact h.committed d
  . intro sa d
    rw [saUsageOf, husage, saLeaseSum, hleases]
    exact h.usage sa d
  . intro sa hsa
    rw [husage] at hsa
    rw [Holds, hleases]
    exact h.holds sa hsa
  . intro slotId hmem
    rw [hleases] at hmem
    rw [hslot]
    exact h.slots slotId hmem

theorem Exact.beforePass {op : Op} {t : Scheduler} (h : s.Exact) (ht : s.beforePass op = some t)
    : t.Exact := by
  rcases beforePass_cases ht with ⟨req, _, rfl⟩ | ⟨slotId, lease, _, hlease, rfl⟩ | ⟨_, _, rfl⟩
  . exact h.of_eq rfl rfl rfl rfl
  . exact h.giveBack hlease
  . exact h.of_eq rfl rfl rfl rfl

theorem Exact.effect {op : Op} (h : s.Exact) (heffect : Effect s op s') : s'.Exact := by
  cases heffect with
  | budget sa budget _ hstate =>
    rw [hstate]
    exact h.of_eq rfl rfl rfl rfl
  | none _ hstate =>
    rw [hstate]
    exact h
  | pass t u grants still hbefore hpass hstate _ =>
    rw [hstate]
    have ht : Exact { t with queue := [] } := (h.beforePass hbefore).of_eq rfl rfl rfl rfl
    exact (ht.pass hpass).of_eq rfl rfl rfl rfl

theorem exact_of_exec {available : Resources} {ops : List Op}
    (hexec : Run.exec apply (new available) ops = .ok s)
    : s.Ordered ∧ s.Exact := by
  apply exec_induction (Exact.new available) ?_ hexec
  intro s op s' _ hs heffect
  exact hs.effect heffect

theorem nextSlotId_beforePass {op : Op} {t : Scheduler} (ht : s.beforePass op = some t)
    : t.nextSlotId = s.nextSlotId := by
  rcases beforePass_cases ht with ⟨_, _, rfl⟩ | ⟨_, _, _, _, rfl⟩ | ⟨_, _, rfl⟩
  all_goals rfl

theorem grantsOf_slotIds (h : s.Ordered) (op : Op)
    : (s.grantsOf op).map (·.slotId.id) = List.range' s.nextSlotId (s.grantsOf op).length := by
  cases hbefore : s.beforePass op with
  | none => simp [grantsOf, hbefore]
  | some t =>
    obtain ⟨u, grants, still, hpass, hok⟩ := schedulePass_eq (h.beforePass hbefore).isChain
    simp only [grantsOf, hbefore, hok]
    rw [hpass.slotIds_eq, ← nextSlotId_beforePass hbefore]

theorem Effect.nextSlotId_eq {op : Op} (heffect : Effect s op s')
    : s'.nextSlotId = s.nextSlotId + (s.grantsOf op).length := by
  cases heffect with
  | budget sa budget hop hstate => simp [hstate, hop, grantsOf, Scheduler.beforePass, setSaBudget]
  | none hbefore hstate => simp [hstate, grantsOf, hbefore]
  | pass t u grants still hbefore hpass hstate hgrants =>
    rw [hstate, hgrants, ← nextSlotId_beforePass hbefore]
    exact hpass.nextSlotId_eq

def issued (s : Scheduler) : List Op → List SlotId
  | [] => []
  | op :: ops =>
    (s.grantsOf op).map (·.slotId)
      ++ match s.apply op with
        | .ok (s', _) => issued s' ops
        | .error _ => []

theorem issued_pairwise (h : s.Ordered) (ops : List Op)
    : (s.issued ops).Pairwise (fun a b => a.id < b.id)
        ∧ ∀ slotId ∈ s.issued ops, s.nextSlotId ≤ slotId.id := by
  induction ops generalizing s with
  | nil => simp [issued]
  | cons op ops ih =>
    -- The grants of one operation take the next ids in a row, the rest of the run takes later ones.
    have hids := grantsOf_slotIds h op
    have hgrants : ((s.grantsOf op).map (·.slotId)).Pairwise (fun a b => a.id < b.id) := by
      rw [← List.pairwise_map (f := SlotId.id), List.map_map]
      show ((s.grantsOf op).map (·.slotId.id)).Pairwise (· < ·)
      rw [hids]
      exact List.pairwise_lt_range'
    have hbounds : ∀ slotId ∈ (s.grantsOf op).map (·.slotId),
        s.nextSlotId ≤ slotId.id ∧ slotId.id < s.nextSlotId + (s.grantsOf op).length := by
      intro slotId hmem
      obtain ⟨g, hg, rfl⟩ := List.mem_map.mp hmem
      have hmem : g.slotId.id ∈ (s.grantsOf op).map (·.slotId.id) := List.mem_map_of_mem hg
      rw [hids, List.mem_range'_1] at hmem
      exact hmem
    unfold issued
    cases happly : s.apply op with
    | error e =>
      simp only [List.append_nil]
      exact ⟨hgrants, fun slotId hmem => (hbounds slotId hmem).1⟩
    | ok res =>
      obtain ⟨s', r⟩ := res
      have heffect := apply_cases h happly
      obtain ⟨hrest, hlater⟩ := ih (h.effect heffect)
      have hnext := heffect.nextSlotId_eq
      simp only
      constructor
      . rw [List.pairwise_append]
        refine ⟨hgrants, hrest, ?_⟩
        intro a ha b hb
        have := hbounds a ha
        have := hlater b hb
        omega
      . intro slotId hmem
        rcases List.mem_append.mp hmem with hmem | hmem
        . exact (hbounds slotId hmem).1
        . have := hlater slotId hmem
          omega

theorem counters_le_length {available : Resources} {ops : List Op}
    (hexec : Run.exec apply (Scheduler.new available) ops = .ok s)
    : s.nextSlotId ≤ s.nextSeq ∧ s.nextSeq ≤ ops.length := by
  have hcount : ∀ {s s' : Scheduler} {op : Op}, Effect s op s' →
      s.nextSlotId + s.queue.length = s.nextSeq →
      s'.nextSlotId + s'.queue.length = s'.nextSeq ∧ s'.nextSeq ≤ s.nextSeq + 1 := by
    intro s s' op heffect hs
    cases heffect with
    | budget sa budget _ hstate =>
      rw [hstate]
      exact ⟨hs, Nat.le_succ _⟩
    | none _ hstate =>
      rw [hstate]
      exact ⟨hs, Nat.le_succ _⟩
    | pass t u grants still hbefore hpass hstate _ =>
      have hslot := hpass.nextSlotId_eq
      have hlength := hpass.length_eq
      have hseq := hpass.frame.2.2
      have ht : t.nextSlotId + t.queue.length = t.nextSeq ∧ t.nextSeq ≤ s.nextSeq + 1 := by
        rcases beforePass_cases hbefore with ⟨req, _, rfl⟩ | ⟨_, _, _, _, rfl⟩ | ⟨_, _, rfl⟩
        . simp only [enqueue, List.length_append, List.length_singleton]
          omega
        . exact ⟨hs, Nat.le_succ _⟩
        . exact ⟨hs, Nat.le_succ _⟩
      rw [hstate]
      simp only at hslot hseq ⊢
      omega
  have hrun : ∀ (ops : List Op) (s₀ : Scheduler), s₀.Ordered →
      s₀.nextSlotId + s₀.queue.length = s₀.nextSeq → Run.exec apply s₀ ops = .ok s →
      s.nextSlotId + s.queue.length = s.nextSeq ∧ s.nextSeq ≤ s₀.nextSeq + ops.length := by
    intro ops
    induction ops with
    | nil =>
      intro s₀ _ hs₀ hexec
      cases hexec
      exact ⟨hs₀, Nat.le_refl _⟩
    | cons op ops ih =>
      intro s₀ hordered hs₀ hexec
      obtain ⟨t, r, happly, hrest⟩ := Run.exec_cons_ok hexec
      have heffect := apply_cases hordered happly
      obtain ⟨ht, hle⟩ := hcount heffect hs₀
      obtain ⟨hs, hle'⟩ := ih t (hordered.effect heffect) ht hrest
      refine ⟨hs, ?_⟩
      simp only [List.length_cons]
      omega
  obtain ⟨hs, hle⟩ := hrun ops (Scheduler.new available) (Ordered.new available) rfl hexec
  simp only [Scheduler.new] at hle
  omega

theorem request_rejected {reason : RejectReason} (h : s.request req = .ok (s', .rejected reason))
    : s' = s := by
  rcases request_ok h with ⟨_, _, _, hs⟩ | ⟨grants, _, _, _, ha⟩
  . exact hs
  . split at ha <;> cases ha

theorem release_unknown {slotId : SlotId} (h : s.leases.lookup slotId = none)
    : s.release slotId = .ok (s, []) := by
  unfold release
  rw [h]

theorem accounting_exact (available : Resources) (ops : List Op) (s : Scheduler)
    (hexec : Run.exec apply (Scheduler.new available) ops = .ok s)
    : (∀ d, s.committed.amt d = s.leaseSum d)
        ∧ (∀ sa d, (s.saUsageOf sa).amt d = s.saLeaseSum sa d)
        ∧ (∀ sa, ¬ s.Holds sa → s.saUsage.lookup sa = none)
        ∧ (∀ sa, (∃ d, s.saLeaseSum sa d ≠ 0) → s.saUsage.lookup sa ≠ none)
        ∧ ((Scheduler.new available).issued ops).Nodup
        ∧ s.queue.Pairwise (fun p q => p.seq < q.seq)
        ∧ (∀ p ∈ s.queue, p.seq < s.nextSeq)
        ∧ (∀ req reason s', s.request req = .ok (s', .rejected reason) → s' = s)
        ∧ (∀ slotId, s.leases.lookup slotId = none →
            s.release slotId = .ok (s, []) ∧ s.disconnect slotId = .ok (s, [])) := by
  obtain ⟨hordered, hexact⟩ := exact_of_exec hexec
  refine ⟨hexact.committed, hexact.usage, ?_, ?_, ?_, hordered.pairwise, hordered.lt_nextSeq, ?_, ?_⟩
  . intro sa hholds
    rw [AList.lookup_eq_none]
    intro hmem
    exact hholds (hexact.holds sa hmem)
  . rintro sa ⟨d, hd⟩ hnone
    apply hd
    rw [← hexact.usage, saUsageOf, hnone]
    simp
  . apply (issued_pairwise (Ordered.new available) ops).1.imp
    rintro a b hlt rfl
    exact Nat.lt_irrefl _ hlt
  . intro req reason s' h
    exact request_rejected h
  . intro slotId h
    exact ⟨release_unknown h, release_unknown h⟩

theorem accounting_exact_two_leases
    : ∃ s, Run.exec apply (Scheduler.new ⟨8000, 16, 0, 0, 0⟩)
          [.request ⟨"bin", "a", "acme", ⟨3000, 6, 0, 0, 0⟩⟩,
            .request ⟨"bin", "b", "acme", ⟨6000, 6, 0, 0, 0⟩⟩,
            .reconcile ⟨9000, 16, 0, 0, 0⟩] = .ok s
        ∧ s.committed.amt .cpuMilli = 9000
        ∧ (s.saUsageOf "acme").amt .memBytes = s.saLeaseSum "acme" .memBytes := by
  refine ⟨_, rfl, by decide, ?_⟩
  exact (accounting_exact ⟨8000, 16, 0, 0, 0⟩
    [.request ⟨"bin", "a", "acme", ⟨3000, 6, 0, 0, 0⟩⟩,
      .request ⟨"bin", "b", "acme", ⟨6000, 6, 0, 0, 0⟩⟩,
      .reconcile ⟨9000, 16, 0, 0, 0⟩] _ rfl).2.1 "acme" .memBytes

-- A footprint of zero leaves an entry that reads zero behind while its lease is active.
theorem usage_entry_of_zero_footprint
    : ¬ ∀ (available : Resources) (ops : List Op) (s : Scheduler),
        Run.exec apply (Scheduler.new available) ops = .ok s →
        ∀ sa, s.saUsage.lookup sa = none ↔ (∀ d, s.saLeaseSum sa d = 0) ∨ ¬ s.Holds sa := by
  intro h
  have hentry := (h .zero [.request ⟨"bin", "a", "acme", .zero⟩] _ rfl "acme").mpr
    (.inl (by intro d; cases d <;> decide))
  revert hentry
  decide

end Scheduler
end Qos
