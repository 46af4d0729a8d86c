import Ztest.Qos.Scheduler.Impl

/-!
This module contains what the functions of the scheduler do, said once: `fitsNow_iff` for the
admission test, `Pass` for the loop of `schedulePass` and `apply_cases` for a whole operation. Later
proofs use these and do not unfold the functions again.
-/

namespace Qos
namespace Scheduler

variable {s s' : Scheduler} {req : Request}

theorem decide_eq_granted_iff {available committed saUsage : Resources}
    {saBudget : Option Resources} {footprint : Resources}
    : decide available committed saUsage saBudget footprint = .granted ()
        ↔
      footprint.fitsWithin (available.saturatingSub committed) = true
        ∧ ∀ budget ∈ saBudget, footprint.fitsWithin (budget.saturatingSub saUsage) = true := by
  -- What fits the remainder of a limit fits the limit, so the two rejections are subsumed.
  have hlimit : ∀ limit used : Resources,
      footprint.fitsWithin (limit.saturatingSub used) = true → footprint.fitsWithin limit = true := by
    intro limit used h
    rw [Resources.fitsWithin_iff] at h ⊢
    intro d
    have := h d
    rw [Resources.amt_saturatingSub] at this
    omega
  unfold decide
  cases saBudget with
  | none =>
    have := hlimit available committed
    simp
    grind
  | some budget =>
    have := hlimit available committed
    have := hlimit budget saUsage
    simp
    grind

theorem fitsNow_eq_true_iff
    : s.fitsNow req = true ↔ s.decideFor req = .granted () := by
  unfold fitsNow
  split <;> simp_all

theorem fitsNow_iff
    : s.fitsNow req = true
        ↔
      (∀ d, req.footprint.amt d ≤ s.available.amt d - s.committed.amt d)
        ∧ ∀ budget ∈ s.saBudgets.lookup req.sa,
            ∀ d, req.footprint.amt d ≤ budget.amt d - (s.saUsageOf req.sa).amt d := by
  rw [fitsNow_eq_true_iff]
  unfold decideFor
  rw [decide_eq_granted_iff]
  simp only [Resources.fitsWithin_iff, Resources.amt_saturatingSub]

theorem admitRequest_of_fitsNow (h : s.fitsNow req = true)
    : s.admitRequest req = .ok (s.take req, ⟨⟨s.nextSlotId⟩, req.binaryId, req.testName⟩) := by
  have hfits : req.footprint.fitsWithin (s.available.saturatingSub s.committed) = true := by
    rw [Resources.fitsWithin_iff]
    intro d
    rw [Resources.amt_saturatingSub]
    exact (fitsNow_iff.mp h).1 d
  unfold admitRequest
  rw [if_pos hfits]

@[simp]
theorem take_available : (s.take req).available = s.available := rfl

@[simp]
theorem take_saBudgets : (s.take req).saBudgets = s.saBudgets := rfl

@[simp]
theorem take_queue : (s.take req).queue = s.queue := rfl

@[simp]
theorem take_nextSeq : (s.take req).nextSeq = s.nextSeq := rfl

@[simp]
theorem take_nextSlotId : (s.take req).nextSlotId = s.nextSlotId + 1 := rfl

@[simp]
theorem take_leases : (s.take req).leases = s.leases.insert ⟨s.nextSlotId⟩ req.lease := rfl

@[simp]
theorem take_committed : (s.take req).committed = s.committed.saturatingAdd req.footprint := rfl

theorem saUsageOf_take (sa : String)
    : (s.take req).saUsageOf sa
        =
      if sa = req.sa then (s.saUsageOf sa).saturatingAdd req.footprint else s.saUsageOf sa := by
  unfold saUsageOf take
  split
  . next h =>
    subst h
    simp [saUsageOf]
  . next h => simp [AList.lookup_insert_ne h]

theorem committed_le_take (d : Dim) : s.committed.amt d ≤ (s.take req).committed.amt d := by
  have := s.committed.amt_le d
  rw [take_committed, Resources.amt_saturatingAdd]
  omega

theorem saUsageOf_le_take (sa : String) (d : Dim)
    : (s.saUsageOf sa).amt d ≤ ((s.take req).saUsageOf sa).amt d := by
  have := (s.saUsageOf sa).amt_le d
  rw [saUsageOf_take]
  split
  . rw [Resources.amt_saturatingAdd]
    omega
  . omega

inductive Pass : Scheduler → List Pending → Scheduler → List Admitted → List Pending → Prop where
  | nil (s : Scheduler) : Pass s [] s [] []
  | grant {s s' : Scheduler} {entry : Pending} {rest still : List Pending} {grants : List Admitted}
    (hfits : s.fitsNow entry.req = true) (hrest : Pass (s.take entry.req) rest s' grants still)
    : Pass s (entry :: rest) s'
        (⟨⟨s.nextSlotId⟩, entry.req.binaryId, entry.req.testName⟩ :: grants) still
  | skip {s s' : Scheduler} {entry : Pending} {rest still : List Pending} {grants : List Admitted}
    (hfits : s.fitsNow entry.req = false) (hrest : Pass s rest s' grants still)
    : Pass s (entry :: rest) s' grants (entry :: still)

theorem schedulePass.go_eq (s : Scheduler) (entries : List Pending) (grants : List Admitted)
    (stillQueued : List Pending)
    : ∃ s' grants' still, Pass s entries s' grants' still
        ∧ schedulePass.go s entries grants stillQueued
            = .ok ({ s' with queue := stillQueued ++ still }, grants ++ grants') := by
  induction entries generalizing s grants stillQueued with
  | nil =>
    refine ⟨s, [], [], .nil s, ?_⟩
    simp [schedulePass.go]
  | cons entry rest ih =>
    unfold schedulePass.go
    cases hfits : s.fitsNow entry.req with
    | true =>
      simp only [if_true, admitRequest_of_fitsNow hfits]
      obtain ⟨s', grants', still, hpass, hgo⟩ := ih (s.take entry.req)
        (grants ++ [⟨⟨s.nextSlotId⟩, entry.req.binaryId, entry.req.testName⟩]) stillQueued
      refine ⟨s', _, still, .grant hfits hpass, ?_⟩
      rw [hgo]
      simp
    | false =>
      simp only [Bool.false_eq_true, if_false]
      obtain ⟨s', grants', still, hpass, hgo⟩ := ih s grants (stillQueued ++ [entry])
      refine ⟨s', grants', _, .skip hfits hpass, ?_⟩
      rw [hgo]
      simp

theorem schedulePass_eq (hqueue : s.queue.IsChain (fun p q => p.seq < q.seq))
    : ∃ s' grants still, Pass { s with queue := [] } s.queue s' grants still
        ∧ s.schedulePass = .ok ({ s' with queue := still }, grants) := by
  obtain ⟨s', grants, still, hpass, hgo⟩ :=
    schedulePass.go_eq { s with queue := [] } s.queue [] []
  refine ⟨s', grants, still, hpass, ?_⟩
  unfold schedulePass
  rw [if_pos hqueue, hgo]
  simp

namespace Pass

variable {entries still : List Pending} {grants : List Admitted}

theorem frame (h : Pass s entries s' grants still)
    : s'.available = s.available ∧ s'.saBudgets = s.saBudgets ∧ s'.nextSeq = s.nextSeq := by
  induction h with
  | nil => simp
  | grant _ _ ih => simpa using ih
  | skip _ _ ih => exact ih

theorem still_sublist (h : Pass s entries s' grants still) : still.Sublist entries := by
  induction h with
  | nil => exact .slnil
  | grant _ _ ih => exact .cons _ ih
  | skip _ _ ih => exact .cons_cons _ ih

theorem committed_le (h : Pass s entries s' grants still) (d : Dim)
    : s.committed.amt d ≤ s'.committed.amt d := by
  induction h with
  | nil => omega
  | grant _ _ ih => exact Nat.le_trans (committed_le_take d) ih
  | skip _ _ ih => exact ih

theorem saUsageOf_le (h : Pass s entries s' grants still) (sa : String) (d : Dim)
    : (s.saUsageOf sa).amt d ≤ (s'.saUsageOf sa).amt d := by
  induction h with
  | nil => omega
  | grant _ _ ih => exact Nat.le_trans (saUsageOf_le_take sa d) ih
  | skip _ _ ih => exact ih

theorem fitsNow_of_fitsNow (h : Pass s entries s' grants still) (hfits : s'.fitsNow req = true)
    : s.fitsNow req = true := by
  obtain ⟨havailable, hbudgets, _⟩ := h.frame
  rw [fitsNow_iff, havailable, hbudgets] at hfits
  rw [fitsNow_iff]
  constructor
  . intro d
    have := hfits.1 d
    have := h.committed_le d
    omega
  . intro budget hbudget d
    have := hfits.2 budget hbudget d
    have := h.saUsageOf_le req.sa d
    omega

theorem still_not_fits (h : Pass s entries s' grants still)
    : ∀ p ∈ still, s'.fitsNow p.req = false := by
  induction h with
  | nil => simp
  | grant _ _ ih => exact ih
  | skip hfits hrest ih =>
    intro p hp
    rcases List.mem_cons.mp hp with rfl | hp
    . by_contra hcontra
      have := hrest.fitsNow_of_fitsNow (Bool.eq_true_of_not_eq_false hcontra)
      rw [hfits] at this
      cases this
    . exact ih p hp

theorem nextSlotId_eq (h : Pass s entries s' grants still)
    : s'.nextSlotId = s.nextSlotId + grants.length := by
  induction h with
  | nil => simp
  | grant _ _ ih =>
    rw [ih]
    simp
    omega
  | skip _ _ ih => exact ih

theorem length_eq (h : Pass s entries s' grants still)
    : grants.length + still.length = entries.length := by
  induction h with
  | nil => simp
  | grant _ _ ih =>
    simp only [List.length_cons]
    omega
  | skip _ _ ih =>
    simp only [List.length_cons]
    omega

theorem slotIds_eq (h : Pass s entries s' grants still)
    : grants.map (·.slotId.id) = List.range' s.nextSlotId grants.length := by
  induction h with
  | nil => simp
  | grant _ _ ih => simp [ih, List.range'_succ]
  | skip _ _ ih => exact ih

end Pass

/--
The state an operation hands to its pass, `none` when it runs none.
-/
def beforePass (s : Scheduler) (op : Op) : Option Scheduler :=
  match op with
  | .setSaBudget _ _ => none
  | .request req =>
    match s.decideFor req with
    | .rejected _ => none
    | _ => some (s.enqueue req)
  | .release slotId => (s.leases.lookup slotId).map (s.giveBack slotId)
  | .disconnect slotId => (s.leases.lookup slotId).map (s.giveBack slotId)
  | .reconcile newAvailable => some { s with available := newAvailable }

def grantsOf (s : Scheduler) (op : Op) : List Admitted :=
  match s.beforePass op with
  | none => []
  | some t =>
    match t.schedulePass with
    | .ok (_, grants) => grants
    | .error _ => []

structure Ordered (s : Scheduler) : Prop where
  pairwise : s.queue.Pairwise (fun p q => p.seq < q.seq)
  lt_nextSeq : ∀ p ∈ s.queue, p.seq < s.nextSeq

theorem Ordered.isChain (h : s.Ordered) : s.queue.IsChain (fun p q => p.seq < q.seq) :=
  h.pairwise.isChain

theorem beforePass_cases {op : Op} {t : Scheduler} (h : s.beforePass op = some t)
    : (∃ req, op = .request req ∧ t = s.enqueue req)
        ∨ (∃ slotId lease, (op = .release slotId ∨ op = .disconnect slotId)
            ∧ s.leases.lookup slotId = some lease ∧ t = s.giveBack slotId lease)
        ∨ ∃ newAvailable, op = .reconcile newAvailable
            ∧ t = { s with available := newAvailable } := by
  cases op with
  | setSaBudget => cases h
  | request req =>
    simp only [beforePass] at h
    split at h
    . cases h
    . cases h
      exact .inl ⟨req, rfl, rfl⟩
  | release slotId =>
    obtain ⟨lease, hlease, rfl⟩ := Option.map_eq_some_iff.mp h
    exact .inr (.inl ⟨slotId, lease, .inl rfl, hlease, rfl⟩)
  | disconnect slotId =>
    obtain ⟨lease, hlease, rfl⟩ := Option.map_eq_some_iff.mp h
    exact .inr (.inl ⟨slotId, lease, .inr rfl, hlease, rfl⟩)
  | reconcile newAvailable =>
    cases h
    exact .inr (.inr ⟨newAvailable, rfl, rfl⟩)

theorem Ordered.enqueue (h : s.Ordered) (req : Request) : (s.enqueue req).Ordered := by
  constructor
  . simp only [Scheduler.enqueue, List.pairwise_append]
    refine ⟨h.pairwise, by simp, ?_⟩
    intro p hp q hq
    rw [List.mem_singleton.mp hq]
    exact h.lt_nextSeq p hp
  . intro p hp
    simp only [Scheduler.enqueue, List.mem_append, List.mem_singleton] at hp ⊢
    rcases hp with hp | rfl
    . have := h.lt_nextSeq p hp
      omega
    . simp

theorem Ordered.beforePass {op : Op} {t : Scheduler} (h : s.Ordered) (ht : s.beforePass op = some t)
    : t.Ordered := by
  rcases beforePass_cases ht with ⟨req, _, rfl⟩ | ⟨slotId, lease, _, _, rfl⟩ | ⟨newAvailable, _, rfl⟩
  . exact h.enqueue req
  . exact ⟨h.pairwise, h.lt_nextSeq⟩
  . exact ⟨h.pairwise, h.lt_nextSeq⟩

theorem Ordered.pass {t u : Scheduler} {grants : List Admitted} {still : List Pending}
    (h : t.Ordered) (hpass : Pass { t with queue := [] } t.queue u grants still)
    : Ordered { u with queue := still } := by
  constructor
  . exact h.pairwise.sublist hpass.still_sublist
  . intro p hp
    simp only [hpass.frame.2.2]
    exact h.lt_nextSeq p (hpass.still_sublist.subset hp)

inductive Effect (s : Scheduler) (op : Op) (s' : Scheduler) : Prop where
  | budget (sa : String) (budget : Resources) (hop : op = .setSaBudget sa budget)
    (hstate : s' = s.setSaBudget sa budget)
  | none (hbefore : s.beforePass op = none) (hstate : s' = s)
  | pass (t u : Scheduler) (grants : List Admitted) (still : List Pending)
    (hbefore : s.beforePass op = some t)
    (hpass : Pass { t with queue := [] } t.queue u grants still)
    (hstate : s' = { u with queue := still }) (hgrants : s.grantsOf op = grants)

theorem effect_of_schedulePass {op : Op} {t : Scheduler} {grants : List Admitted} (h : s.Ordered)
    (hbefore : s.beforePass op = some t) (hok : t.schedulePass = .ok (s', grants))
    : Effect s op s' := by
  obtain ⟨u, grants', still, hpass, heq⟩ := schedulePass_eq (h.beforePass hbefore).isChain
  rw [hok] at heq
  cases heq
  refine .pass t u grants still hbefore hpass rfl ?_
  simp only [grantsOf, hbefore, hok]

theorem request_ok {req : Request} {a : Admission SlotId} (h : s.request req = .ok (s', a))
    : (∃ reason, s.decideFor req = .rejected reason ∧ a = .rejected reason ∧ s' = s)
        ∨ ∃ grants, s.beforePass (.request req) = some (s.enqueue req)
            ∧ (s.enqueue req).schedulePass = .ok (s', grants) ∧ grants.length ≤ 1
            ∧ a = match grants.find? fun g =>
                g.binaryId == req.binaryId && g.testName == req.testName with
                | some g => .granted g.slotId
                | none => .queued := by
  unfold request at h
  unfold beforePass
  split at h
  . next reason hreason =>
    cases h
    exact .inl ⟨reason, hreason, rfl, rfl⟩
  . next hreason =>
    right
    split at h
    . cases h
    . next t grants hpass =>
      split at h
      . next hlength =>
        refine ⟨grants, ?_, ?_, hlength, ?_⟩
        . grind
        . grind
        . grind
      . cases h

theorem release_ok {slotId : SlotId} {grants : List Admitted}
    (h : s.release slotId = .ok (s', grants))
    : (s.leases.lookup slotId = none ∧ s' = s ∧ grants = [])
        ∨ ∃ lease, s.leases.lookup slotId = some lease
            ∧ (s.giveBack slotId lease).schedulePass = .ok (s', grants) := by
  unfold release at h
  split at h
  . next hlease =>
    cases h
    exact .inl ⟨hlease, rfl, rfl⟩
  . next lease hlease => exact .inr ⟨lease, hlease, h⟩

theorem apply_cases {op : Op} {r : Reply} (hordered : s.Ordered) (h : s.apply op = .ok (s', r))
    : Effect s op s' := by
  cases op with
  | setSaBudget sa budget =>
    cases h
    exact .budget sa budget rfl rfl
  | request req =>
    obtain ⟨⟨t, a⟩, hreq, heq⟩ := Run.map_ok h
    cases heq
    rcases request_ok hreq with ⟨reason, hreason, _, rfl⟩ | ⟨grants, hbefore, hok, _, _⟩
    . refine .none ?_ rfl
      simp only [beforePass, hreason]
    . exact effect_of_schedulePass hordered hbefore hok
  | release slotId | disconnect slotId =>
    obtain ⟨⟨t, grants⟩, hrel, heq⟩ := Run.map_ok h
    cases heq
    rcases release_ok hrel with ⟨hlease, rfl, _⟩ | ⟨lease, hlease, hok⟩
    . refine .none ?_ rfl
      simp [beforePass, hlease]
    . refine effect_of_schedulePass hordered ?_ hok
      simp [beforePass, hlease]
  | reconcile newAvailable =>
    obtain ⟨⟨t, grants⟩, hrec, heq⟩ := Run.map_ok h
    cases heq
    exact effect_of_schedulePass hordered rfl hrec

theorem Ordered.new (available : Resources) : (new available).Ordered := by
  constructor <;> simp [Scheduler.new]

theorem Ordered.effect {op : Op} (h : s.Ordered) (heffect : Effect s op s') : s'.Ordered := by
  cases heffect with
  | budget sa budget _ hstate =>
    rw [hstate]
    exact ⟨h.pairwise, h.lt_nextSeq⟩
  | none _ hstate =>
    rw [hstate]
    exact h
  | pass t u grants still hbefore hpass hstate _ =>
    rw [hstate]
    exact (h.beforePass hbefore).pass hpass

theorem exec_induction {I : Scheduler → Prop} {available : Resources} {ops : List Op}
    (hinit : I (Scheduler.new available))
    (hstep : ∀ s op s', s.Ordered → I s → Effect s op s' → I s')
    (hexec : Run.exec apply (Scheduler.new available) ops = .ok s)
    : s.Ordered ∧ I s := by
  apply Run.exec_invariant (I := fun s => s.Ordered ∧ I s) ?_ ⟨.new available, hinit⟩ hexec
  rintro s op s' r ⟨hordered, hs⟩ happly
  have heffect := apply_cases hordered happly
  exact ⟨hordered.effect heffect, hstep s op s' hordered hs heffect⟩

end Scheduler
end Qos
