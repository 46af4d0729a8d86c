import Ztest.Qos.Scheduler.Lemmas.Accounting
import Ztest.Lib.Greedy

/-!
This module shows that admission never overloads the ceiling or a budget. The step from "fits the
saturating remainder" to "the sum stays below the limit" holds in the dimensions where the footprint
is positive, in the others the sum does not move.

A pass of the scheduler is fair to the order of arrival: it is the greedy pass over the queue, where a request is
weighed against the leases that are held and the grants of the pass before it, as unbounded sums.
-/

namespace Qos

def Dim.all : List Dim := [.cpuMilli, .memBytes, .diskBps, .diskIops, .diskBytes]

theorem Dim.mem_all (d : Dim) : d ∈ Dim.all := by
  cases d <;> decide

namespace Scheduler

section Overload

variable {s s' : Scheduler} {req : Request} {entries still : List Pending} {grants : List Admitted}

theorem committed_take_cases (hfits : s.fitsNow req = true) (d : Dim)
    : (s.take req).committed.amt d = s.committed.amt d
        ∨ (s.take req).committed.amt d ≤ s.available.amt d := by
  have hfree := (fitsNow_iff.mp hfits).1 d
  have := s.committed.amt_le d
  rw [take_committed, Resources.amt_saturatingAdd]
  omega

theorem committed_take_le (hfits : s.fitsNow req = true) {d : Dim} (hpos : 0 < req.footprint.amt d)
    : (s.take req).committed.amt d ≤ s.available.amt d := by
  have hfree := (fitsNow_iff.mp hfits).1 d
  rw [take_committed, Resources.amt_saturatingAdd]
  omega

theorem saUsageOf_take_le_of_pos (hfits : s.fitsNow req = true) {budget : Resources}
    (hbudget : budget ∈ s.saBudgets.lookup req.sa) {d : Dim} (hpos : 0 < req.footprint.amt d)
    : ((s.take req).saUsageOf req.sa).amt d ≤ budget.amt d := by
  have hfree := (fitsNow_iff.mp hfits).2 budget hbudget d
  rw [saUsageOf_take, if_pos rfl, Resources.amt_saturatingAdd]
  omega

theorem saUsageOf_take_le (hfits : s.fitsNow req = true) {sa : String} {budget : Resources}
    (hbudget : budget ∈ s.saBudgets.lookup sa) {d : Dim}
    (hle : (s.saUsageOf sa).amt d ≤ budget.amt d)
    : ((s.take req).saUsageOf sa).amt d ≤ budget.amt d := by
  rw [saUsageOf_take]
  split
  . next hsa =>
    subst hsa
    have hfree := (fitsNow_iff.mp hfits).2 budget hbudget d
    rw [Resources.amt_saturatingAdd]
    omega
  . exact hle

namespace Pass

theorem committed_cases (h : Pass s entries s' grants still) (d : Dim)
    : s'.committed.amt d = s.committed.amt d ∨ s'.committed.amt d ≤ s.available.amt d := by
  induction h with
  | nil => simp
  | grant hfits _ ih =>
    have := committed_take_cases hfits d
    rw [take_available] at ih
    omega
  | skip _ _ ih => exact ih

theorem committed_le_available (h : Pass s entries s' grants still) {d : Dim}
    (hle : s.committed.amt d ≤ s.available.amt d)
    : s'.committed.amt d ≤ s.available.amt d := by
  have := h.committed_cases d
  omega

theorem saUsageOf_le_budget (h : Pass s entries s' grants still) {sa : String} {budget : Resources}
    (hbudget : budget ∈ s.saBudgets.lookup sa) {d : Dim}
    (hle : (s.saUsageOf sa).amt d ≤ budget.amt d)
    : (s'.saUsageOf sa).amt d ≤ budget.amt d := by
  induction h with
  | nil => exact hle
  | grant hfits _ ih =>
    apply ih
    . exact hbudget
    . exact saUsageOf_take_le hfits hbudget hle
  | skip _ _ ih => exact ih hbudget hle

theorem lookup_of_lookup (h : Pass s entries s' grants still) (hexact : s.Exact) {slotId : SlotId}
    {lease : Lease} (hlease : s.leases.lookup slotId = some lease)
    : s'.leases.lookup slotId = some lease := by
  induction h with
  | nil => exact hlease
  | grant hfits _ ih =>
    apply ih
    . exact hexact.take hfits
    . rw [take_leases, AList.lookup_insert_ne]
      . exact hlease
      . rintro rfl
        apply hexact.fresh
        apply AList.mem_of_lookup hlease
  | skip _ _ ih => exact ih hexact hlease

theorem grant_within (h : Pass s entries s' grants still) (hexact : s.Exact) {g : Admitted}
    (hg : g ∈ grants)
    : ∃ lease, s'.leases.lookup g.slotId = some lease
        ∧ lease.binaryId = g.binaryId ∧ lease.testName = g.testName
        ∧ ∀ d, 0 < lease.footprint.amt d →
            s'.committed.amt d ≤ s.available.amt d
              ∧ ∀ budget ∈ s.saBudgets.lookup lease.sa,
                  (s'.saUsageOf lease.sa).amt d ≤ budget.amt d := by
  induction h with
  | nil => cases hg
  | @grant s s' entry rest still grants hfits hrest ih =>
    rcases List.mem_cons.mp hg with rfl | hg
    . refine ⟨entry.req.lease, ?_, rfl, rfl, ?_⟩
      . apply hrest.lookup_of_lookup (hexact.take hfits)
        rw [take_leases, AList.lookup_insert]
      . intro d hpos
        constructor
        . apply hrest.committed_le_available
          apply committed_take_le hfits hpos
        . intro budget hbudget
          apply hrest.saUsageOf_le_budget hbudget
          apply saUsageOf_take_le_of_pos hfits hbudget hpos
    . exact ih (hexact.take hfits) hg
  | skip _ _ ih => exact ih hexact hg

end Pass

def ceilingOf (s : Scheduler) (op : Op) : Resources :=
  match op with
  | .reconcile newAvailable => newAvailable
  | _ => s.available

def NotLowered (s : Scheduler) (op : Op) : Prop :=
  s.available.fitsWithin (s.ceilingOf op) = true

def OverFull (d : Dim) (s : Scheduler) (op : Op) : Prop :=
  (s.ceilingOf op).amt d < s.committed.amt d

theorem available_beforePass {op : Op} {t : Scheduler} (h : s.beforePass op = some t)
    : t.available = s.ceilingOf op := by
  rcases beforePass_cases h with ⟨_, rfl, rfl⟩ | ⟨_, _, rfl | rfl, _, rfl⟩ | ⟨_, rfl, rfl⟩
  all_goals rfl

theorem committed_beforePass_le {op : Op} {t : Scheduler} (h : s.beforePass op = some t) (d : Dim)
    : t.committed.amt d ≤ s.committed.amt d := by
  rcases beforePass_cases h with ⟨_, _, rfl⟩ | ⟨_, _, _, _, rfl⟩ | ⟨_, _, rfl⟩
  . simp [enqueue]
  . simp [giveBack]
  . simp

theorem Effect.committed_cases {op : Op} (h : Effect s op s') (d : Dim)
    : s'.committed.amt d ≤ s.committed.amt d
        ∨ s'.committed.amt d ≤ (s.ceilingOf op).amt d := by
  cases h with
  | budget sa budget _ hstate =>
    left
    rw [hstate]
    simp [setSaBudget]
  | none _ hstate =>
    left
    rw [hstate]
  | pass t u grants still hbefore hpass hstate _ =>
    have hle := committed_beforePass_le hbefore d
    have hcases := hpass.committed_cases d
    rw [← available_beforePass hbefore, hstate]
    simp only at hcases ⊢
    omega

theorem Effect.available_eq {op : Op} (h : Effect s op s') : s'.available = s.ceilingOf op := by
  cases h with
  | budget sa budget hop hstate =>
    rw [hstate, hop]
    rfl
  | none hbefore hstate =>
    rw [hstate]
    cases op with
    | reconcile newAvailable => cases hbefore
    | _ => rfl
  | pass t u grants still hbefore hpass hstate _ =>
    rw [hstate, ← available_beforePass hbefore]
    exact hpass.frame.1

theorem Effect.committed_le_available {op : Op} (h : Effect s op s') (hop : NotLowered s op)
    (hle : ∀ d, s.committed.amt d ≤ s.available.amt d) (d : Dim)
    : s'.committed.amt d ≤ s'.available.amt d := by
  have hceiling : s.available.amt d ≤ (s.ceilingOf op).amt d := Resources.fitsWithin_iff.mp hop d
  have hd := hle d
  have hcases := h.committed_cases d
  cases h with
  | budget sa budget _ hstate =>
    rw [hstate]
    exact hd
  | none _ hstate =>
    rw [hstate]
    exact hd
  | pass t u grants still hbefore hpass hstate _ =>
    have havailable : s'.available = s.ceilingOf op := by
      rw [hstate, ← available_beforePass hbefore]
      exact hpass.frame.1
    rw [havailable]
    omega

theorem schedulePass_ne_error {t : Scheduler} (h : t.Ordered) (e : Panic)
    : t.schedulePass ≠ .error e := by
  obtain ⟨u, grants, still, _, hok⟩ := schedulePass_eq h.isChain
  rw [hok]
  simp

theorem apply_error {op : Op} {e : Panic} (h : s.Ordered) (herror : s.apply op = .error e)
    : e = .freshEnqueueAdmittedMany ∧ ∃ req, op = .request req := by
  have hmap : ∀ {α β : Type} {f : α → β} {x : Except Panic α}, x.map f = .error e → x = .error e := by
    intro α β f x hx
    cases x with
    | error e' =>
      cases hx
      rfl
    | ok a => cases hx
  have hrelease : ∀ slotId, s.release slotId ≠ .error e := by
    intro slotId hrel
    unfold release at hrel
    split at hrel
    . cases hrel
    . next lease hlease =>
      have hbefore : s.beforePass (.release slotId) = some (s.giveBack slotId lease) := by
        simp [beforePass, hlease]
      exact schedulePass_ne_error (h.beforePass hbefore) e hrel
  cases op with
  | setSaBudget => cases herror
  | request req =>
    refine ⟨?_, req, rfl⟩
    have hreq := hmap herror
    unfold request at hreq
    split at hreq
    . cases hreq
    . split at hreq
      . next e' hpass =>
        cases hreq
        exact absurd hpass (schedulePass_ne_error (h.enqueue req) _)
      . split at hreq
        . split at hreq <;> cases hreq
        . cases hreq
          rfl
  | release slotId => exact absurd (hmap herror) (hrelease slotId)
  | disconnect slotId => exact absurd (hmap herror) (hrelease slotId)
  | reconcile newAvailable =>
    have hbefore : s.beforePass (.reconcile newAvailable)
        = some { s with available := newAvailable } := rfl
    exact absurd (hmap herror) (schedulePass_ne_error (h.beforePass hbefore) e)

theorem committed_le_of_overFull {d : Dim} {ops : List Op} (hordered : s.Ordered)
    (halong : Run.Along apply (OverFull d) s ops) (hexec : Run.exec apply s ops = .ok s')
    : s'.committed.amt d ≤ s.committed.amt d := by
  have hinv : s'.Ordered ∧ s'.committed.amt d ≤ s.committed.amt d := by
    apply Run.exec_invariant_along
      (I := fun u => u.Ordered ∧ u.committed.amt d ≤ s.committed.amt d) (Q := OverFull d)
      ?_ ⟨hordered, Nat.le_refl _⟩ halong hexec
    rintro u op u' r ⟨hu, hle⟩ hover happly
    have heffect := apply_cases hu happly
    refine ⟨hu.effect heffect, ?_⟩
    have hcases := heffect.committed_cases d
    simp only [OverFull] at hover
    omega
  exact hinv.2

theorem never_overloads (available : Resources) (ops : List Op) (s : Scheduler)
    (hexec : Run.exec apply (Scheduler.new available) ops = .ok s)
    : (∀ op s' r, s.apply op = .ok (s', r) → ∀ g ∈ s.grantsOf op,
          ∃ lease, s'.leases.lookup g.slotId = some lease
            ∧ lease.binaryId = g.binaryId ∧ lease.testName = g.testName
            ∧ ∀ d, 0 < lease.footprint.amt d →
                s'.committed.amt d ≤ s'.available.amt d
                  ∧ ∀ budget ∈ s'.saBudgets.lookup lease.sa,
                      (s'.saUsageOf lease.sa).amt d ≤ budget.amt d)
        ∧ (Run.Along apply NotLowered (Scheduler.new available) ops →
            ∀ d, s.committed.amt d ≤ s.available.amt d)
        ∧ (∀ d ops' s', Run.Along apply (OverFull d) s ops' → Run.exec apply s ops' = .ok s' →
            s'.committed.amt d ≤ s.committed.amt d)
        ∧ ∀ op, s.apply op ≠ .error .admitDoesNotFit := by
  obtain ⟨hordered, hexact⟩ := exact_of_exec hexec
  refine ⟨?_, ?_, ?_, ?_⟩
  . intro op s' r happly g hg
    cases apply_cases hordered happly with
    | budget sa budget hop _ =>
      rw [hop] at hg
      cases hg
    | none hbefore _ =>
      simp only [grantsOf, hbefore] at hg
      cases hg
    | pass t u grants still hbefore hpass hstate hgrants =>
      rw [hgrants] at hg
      have ht : Exact { t with queue := [] } := (hexact.beforePass hbefore).of_eq rfl rfl rfl rfl
      have hgrant := hpass.grant_within ht hg
      obtain ⟨havailable, hbudgets, _⟩ := hpass.frame
      rw [hstate]
      simp only [havailable, hbudgets]
      exact hgrant
  . intro halong
    have hinv : s.Ordered ∧ ∀ d, s.committed.amt d ≤ s.available.amt d := by
      apply Run.exec_invariant_along
        (I := fun u => u.Ordered ∧ ∀ d, u.committed.amt d ≤ u.available.amt d) (Q := NotLowered)
        ?_ ⟨.new available, by simp [Scheduler.new]⟩ halong hexec
      rintro u op u' r ⟨hu, hle⟩ hop happly
      have heffect := apply_cases hu happly
      exact ⟨hu.effect heffect, heffect.committed_le_available hop hle⟩
    exact hinv.2
  . intro d ops' s' halong hexec'
    exact committed_le_of_overFull hordered halong hexec'
  . intro op herror
    have := (apply_error hordered herror).1
    cases this

theorem never_overloads_after_shrink
    : ∃ s, Run.exec apply (Scheduler.new ⟨8000, 16, 0, 0, 0⟩)
          [.request ⟨"bin", "a", "acme", ⟨6000, 6, 0, 0, 0⟩⟩,
            .request ⟨"bin", "b", "acme", ⟨4000, 6, 0, 0, 0⟩⟩,
            .reconcile ⟨4000, 16, 0, 0, 0⟩] = .ok s
        ∧ s.available.amt .cpuMilli < s.committed.amt .cpuMilli
        ∧ s.apply (.release ⟨0⟩) ≠ .error .admitDoesNotFit := by
  refine ⟨_, rfl, by decide, ?_⟩
  exact (never_overloads ⟨8000, 16, 0, 0, 0⟩
    [.request ⟨"bin", "a", "acme", ⟨6000, 6, 0, 0, 0⟩⟩,
      .request ⟨"bin", "b", "acme", ⟨4000, 6, 0, 0, 0⟩⟩,
      .reconcile ⟨4000, 16, 0, 0, 0⟩] _ rfl).2.2.2 (.release ⟨0⟩)

end Overload

section Spec

variable (s : Scheduler)

def footprints (granted : List Pending) (d : Dim) : Nat := (granted.map fun p => p.req.footprint.amt d).sum

def footprintsOf (granted : List Pending) (sa : String) (d : Dim) : Nat :=
  footprints (granted.filter fun p => p.req.sa = sa) d

-- The free capacity and the budget of the account, beside the leases held and `granted`.
def fitsBeside (granted : List Pending) (p : Pending) : Bool :=
  (Dim.all.all fun d => p.req.footprint.amt d ≤ s.available.amt d - (s.leaseSum d + footprints granted d))
    && (s.saBudgets.lookup p.req.sa).all fun budget => Dim.all.all fun d =>
      p.req.footprint.amt d ≤ budget.amt d - (s.saLeaseSum p.req.sa d + footprintsOf granted p.req.sa d)

def referencePass : List Pending × List Pending := Greedy.pass (fitsBeside s) s.queue

-- The grants of these requests, under consecutive slots.
def admittedFrom (slot : Nat) : List Pending → List Admitted
  | [] => []
  | p :: rest => ⟨⟨slot⟩, p.req.binaryId, p.req.testName⟩ :: admittedFrom (slot + 1) rest

/--
What a pass over the queue of `s` leaves and grants.
-/
structure ArrivalFair (s' : Scheduler) (grants : List Admitted) : Prop where
  arrival : s.queue.Pairwise fun p q => p.seq < q.seq
  left : s'.queue = s.referencePass.2
  granted : grants = admittedFrom s.nextSlotId s.referencePass.1
  order : s'.queue.Sublist s.queue
  fair : ∀ q ∈ s.referencePass.1, ∀ p ∈ s'.queue, p.seq < q.seq →
    s.fitsBeside (s.referencePass.1.filter fun g => g.seq < p.seq) p = false

end Spec

variable {s t u : Scheduler} {granted : List Pending}

structure Charged (t : Scheduler) (granted : List Pending) (u : Scheduler) : Prop where
  available : u.available = t.available
  saBudgets : u.saBudgets = t.saBudgets
  committed : ∀ d, u.committed.amt d = t.leaseSum d + footprints granted d
  usage : ∀ sa d, (u.saUsageOf sa).amt d = t.saLeaseSum sa d + footprintsOf granted sa d
  within : ∀ sa d, (u.saUsageOf sa).amt d ≤ u.committed.amt d

theorem Exact.charged (h : t.Exact) : Charged t [] t where
  available := rfl
  saBudgets := rfl
  committed d := h.committed d
  usage sa d := h.usage sa d
  within := h.saUsageOf_le_committed

theorem footprints_append (granted : List Pending) (p : Pending) (d : Dim)
    : footprints (granted ++ [p]) d = footprints granted d + p.req.footprint.amt d := by
  simp [footprints]

theorem footprintsOf_append (granted : List Pending) (p : Pending) (sa : String) (d : Dim)
    : footprintsOf (granted ++ [p]) sa d
        = footprintsOf granted sa d + if p.req.sa = sa then p.req.footprint.amt d else 0 := by
  unfold footprintsOf
  rw [List.filter_append]
  by_cases hsa : p.req.sa = sa
  . simp [hsa, footprints]
  . simp [hsa]

theorem Charged.fitsNow_iff (h : Charged t granted u) (p : Pending) : u.fitsNow p.req = t.fitsBeside granted p := by
  have hdims : ∀ f g : Dim → Nat, (Dim.all.all fun d => f d ≤ g d) = true ↔ ∀ d, f d ≤ g d := by
    intro f g
    simp [List.all_eq_true, Dim.mem_all]
  rw [Bool.eq_iff_iff, Scheduler.fitsNow_iff, h.available, h.saBudgets, fitsBeside, Bool.and_eq_true, hdims]
  simp only [h.committed, h.usage]
  cases t.saBudgets.lookup p.req.sa with
  | none => simp
  | some budget =>
    rw [Option.all_some, hdims]
    simp

theorem Charged.take (h : Charged t granted u) {p : Pending} (hfits : u.fitsNow p.req = true)
    : Charged t (granted ++ [p]) (u.take p.req) := by
  have hle : ∀ d, u.committed.amt d + p.req.footprint.amt d ≤ 2 ^ 64 - 1 := by
    intro d
    have := (Scheduler.fitsNow_iff.mp hfits).1 d
    have := u.available.amt_le d
    have := u.committed.amt_le d
    omega
  refine ⟨h.available, h.saBudgets, ?_, ?_, ?_⟩
  . intro d
    rw [take_committed, Resources.amt_saturatingAdd_of_le (hle d), h.committed, footprints_append]
    omega
  . intro sa d
    have hwithin := h.within sa d
    have hd := hle d
    rw [saUsageOf_take, footprintsOf_append]
    split
    next heq =>
      rw [Resources.amt_saturatingAdd_of_le (by omega), h.usage, if_pos heq.symm]
      omega
    next hne =>
      rw [h.usage, if_neg (Ne.symm hne)]
      omega
  . intro sa d
    have hwithin := h.within sa d
    have hd := hle d
    rw [saUsageOf_take, take_committed, Resources.amt_saturatingAdd_of_le hd]
    split
    next => rw [Resources.amt_saturatingAdd_of_le (by omega)]; omega
    next => omega

theorem Pass.visit {entries still : List Pending} {grants : List Admitted} {u' : Scheduler} (left : List Pending)
    (hpass : Pass u entries u' grants still) (h : Charged t granted u)
    : ∃ new, entries.foldl (Greedy.visit t.fitsBeside) (granted, left) = (granted ++ new, left ++ still)
        ∧ grants = admittedFrom u.nextSlotId new := by
  induction hpass generalizing granted left with
  | nil => exact ⟨[], by simp, rfl⟩
  | @grant u u' entry rest still grants hfits _ ih =>
    rcases ih left (h.take hfits) with ⟨new, hfold, hgrants⟩
    rw [h.fitsNow_iff] at hfits
    refine ⟨entry :: new, ?_, congrArg _ hgrants⟩
    rw [List.foldl_cons, Greedy.visit, if_pos hfits, hfold, List.append_assoc]
    rfl
  | @skip u u' entry rest still grants hfits _ ih =>
    rcases ih (left ++ [entry]) h with ⟨new, hfold, hgrants⟩
    rw [h.fitsNow_iff] at hfits
    refine ⟨new, ?_, hgrants⟩
    rw [List.foldl_cons, Greedy.visit, if_neg (by simp [hfits]), hfold, List.append_assoc]
    rfl

theorem schedulePass_fair (hordered : t.Ordered) (hexact : t.Exact)
    : ∃ s' grants, t.schedulePass = .ok (s', grants) ∧ t.ArrivalFair s' grants := by
  rcases schedulePass_eq hordered.isChain with ⟨u, grants, still, hpass, hok⟩
  have hcharged : Charged t [] { t with queue := [] } :=
    ⟨rfl, rfl, hexact.charged.committed, hexact.charged.usage, hexact.charged.within⟩
  rcases hpass.visit [] hcharged with ⟨new, hfold, hgrants⟩
  have hreference : t.referencePass = (new, still) := hfold
  refine ⟨_, grants, hok, hordered.pairwise, ?_, ?_, hpass.still_sublist, ?_⟩
  . rw [hreference]
  . rw [hreference]
    exact hgrants
  . intro q _ p hp _
    apply Greedy.left_not_fits hordered.pairwise
    rw [show Greedy.pass t.fitsBeside t.queue = (new, still) from hreference]
    exact hp

theorem pass_arrival_fair (available : Resources) (ops : List Op) (s : Scheduler)
    (hexec : Run.exec apply (new available) ops = .ok s)
    : (∀ newAvailable, ∃ s' grants, s.reconcile newAvailable = .ok (s', grants)
          ∧ ArrivalFair { s with available := newAvailable } s' grants)
        ∧
      (∀ slotId lease, s.leases.lookup slotId = some lease →
        ∃ s' grants, s.release slotId = .ok (s', grants) ∧ (s.giveBack slotId lease).ArrivalFair s' grants)
        ∧
      ∀ slotId, s.leases.lookup slotId = none → s.release slotId = .ok (s, []) := by
  rcases exact_of_exec hexec with ⟨hordered, hexact⟩
  refine ⟨?_, ?_, ?_⟩
  . intro newAvailable
    exact schedulePass_fair ⟨hordered.pairwise, hordered.lt_nextSeq⟩ (hexact.of_eq rfl rfl rfl rfl)
  . intro slotId lease hlease
    rcases schedulePass_fair (t := s.giveBack slotId lease) ⟨hordered.pairwise, hordered.lt_nextSeq⟩
      (hexact.giveBack hlease) with ⟨s', grants, hok, hfair⟩
    refine ⟨s', grants, ?_, hfair⟩
    rw [release, hlease]
    exact hok
  . intro slotId hnone
    rw [release, hnone]

-- Of the three requests behind `a`, the second does not fit beside the first, and the third does.
def behindA : List Op :=
  [.request ⟨"bin", "a", "acme", ⟨8000, 6, 0, 0, 0⟩⟩, .request ⟨"bin", "b", "acme", ⟨6000, 6, 0, 0, 0⟩⟩,
    .request ⟨"bin", "c", "acme", ⟨3000, 6, 0, 0, 0⟩⟩, .request ⟨"bin", "d", "acme", ⟨2000, 6, 0, 0, 0⟩⟩]

theorem pass_arrival_fair_after_release
    : ∃ s s' grants lease, Run.exec apply (Scheduler.new ⟨8000, 16, 0, 0, 0⟩) behindA = .ok s
        ∧ s.release ⟨0⟩ = .ok (s', grants) ∧ grants.map (·.testName) = ["b", "d"]
        ∧ (s.giveBack ⟨0⟩ lease).ArrivalFair s' grants := by
  have hgranted : ((Run.exec apply (Scheduler.new ⟨8000, 16, 0, 0, 0⟩) behindA).bind fun s =>
      (s.release ⟨0⟩).map fun r => r.2.map (·.testName)) = .ok ["b", "d"] := by decide +kernel
  rcases Run.bind_ok hgranted with ⟨s, hexec, hmap⟩
  rcases Run.map_ok hmap with ⟨⟨s', grants⟩, hrelease, hnames⟩
  rcases pass_arrival_fair ⟨8000, 16, 0, 0, 0⟩ behindA s hexec with ⟨_, hsome, hnone⟩
  cases hlease : s.leases.lookup ⟨0⟩ with
  | none =>
    rw [hnone ⟨0⟩ hlease] at hrelease
    cases hrelease
    cases hnames
  | some lease =>
    rcases hsome ⟨0⟩ lease hlease with ⟨t, gs, hok, hfair⟩
    rw [hrelease] at hok
    cases hok
    exact ⟨s, s', grants, lease, hexec, hrelease, hnames.symm, hfair⟩

end Scheduler
end Qos
