import Ztest.Qos.Scheduler.Lemmas.Fair

/-!
This module is about work conservation: between two operations no queued request fits, so a fresh
request is the only one its own pass can admit. Every operation that can enlarge the free capacity
runs a pass. `setSaBudget` can enlarge a remaining budget and runs none, which is the one step that
can break the invariant.

A client that never sets a budget has a scheduler that is always work conserving, so a request is answered
by `Filed` and a release or a reconcile by `Rescheduled`: no slot and no waiting request is lost between the
lease table, the queue and the grants.
-/

namespace Qos

def Request.identity (req : Request) : String × String := (req.binaryId, req.testName)

def Admitted.identity (g : Admitted) : String × String := (g.binaryId, g.testName)

namespace Scheduler

section Room

variable {s s' : Scheduler} {req : Request} {entries still : List Pending} {grants : List Admitted}

def WorkConserving (s : Scheduler) : Prop :=
  ∀ p ∈ s.queue, s.fitsNow p.req = false

def Answers (s : Scheduler) (req : Request) (s' : Scheduler) (a : Admission SlotId) : Prop :=
  match a with
  | .rejected _ => s' = s
  | .granted slotId =>
    slotId ∉ s.leases ∧ s'.leases = s.leases.insert slotId req.lease ∧ s'.queue = s.queue
  | .queued => s'.leases = s.leases ∧ s'.queue = s.queue ++ [⟨s.nextSeq, req⟩]

def TruthfulStep (s : Scheduler) (op : Op) : Prop :=
  ∃ s' r, s.apply op = .ok (s', r) ∧ s'.WorkConserving
    ∧ ∀ req a, op = .request req → r = .admission a →
        (s.grantsOf op).length ≤ 1 ∧ Answers s req s' a

-- A new budget leaves every waiting request of its account waiting.
def OpensNoRoom (s : Scheduler) (op : Op) : Prop :=
  match op with
  | .setSaBudget sa budget =>
    ∀ p ∈ s.queue, p.req.sa = sa →
      decide s.available s.committed (s.saUsageOf sa) (some budget) p.req.footprint ≠ .granted ()
  | _ => True

theorem fitsNow_setSaBudget (sa : String) (budget : Resources)
    : (s.setSaBudget sa budget).fitsNow req = true
        ↔
      if req.sa = sa then
        decide s.available s.committed (s.saUsageOf sa) (some budget) req.footprint = .granted ()
      else
        s.fitsNow req = true := by
  rw [fitsNow_eq_true_iff, fitsNow_eq_true_iff]
  unfold decideFor setSaBudget saUsageOf
  split
  . next hsa =>
    subst hsa
    simp
  . next hsa => simp [AList.lookup_insert_ne hsa]

theorem WorkConserving.setSaBudget_iff (h : s.WorkConserving) (sa : String) (budget : Resources)
    : (s.setSaBudget sa budget).WorkConserving ↔ s.OpensNoRoom (.setSaBudget sa budget) := by
  unfold WorkConserving OpensNoRoom
  constructor
  . intro hs p hp hsa hgranted
    have hfits : (s.setSaBudget sa budget).fitsNow p.req = true := by
      rw [fitsNow_setSaBudget, if_pos hsa]
      exact hgranted
    rw [hs p hp] at hfits
    cases hfits
  . intro hs p hp
    by_contra hcontra
    have hfits := (fitsNow_setSaBudget sa budget).mp (Bool.eq_true_of_not_eq_false hcontra)
    split at hfits
    . next hsa => exact hs p hp hsa hfits
    . rw [h p hp] at hfits
      cases hfits

theorem Pass.concat {entry : Pending} (h : Pass s (entries ++ [entry]) s' grants still)
    (hfits : ∀ p ∈ entries, s.fitsNow p.req = false)
    : (s.fitsNow entry.req = true ∧ s' = s.take entry.req
          ∧ grants = [⟨⟨s.nextSlotId⟩, entry.req.binaryId, entry.req.testName⟩] ∧ still = entries)
        ∨ (s.fitsNow entry.req = false ∧ s' = s ∧ grants = [] ∧ still = entries ++ [entry]) := by
  induction entries generalizing still with
  | nil =>
    cases h with
    | grant hentry hrest =>
      cases hrest
      exact .inl ⟨hentry, rfl, rfl, rfl⟩
    | skip hentry hrest =>
      cases hrest
      exact .inr ⟨hentry, rfl, rfl, rfl⟩
  | cons p entries ih =>
    cases h with
    | grant hp _ =>
      rw [hfits p List.mem_cons_self] at hp
      cases hp
    | skip _ hrest =>
      rcases ih hrest (fun q hq => hfits q (List.mem_cons_of_mem _ hq)) with
        ⟨h1, h2, h3, h4⟩ | ⟨h1, h2, h3, h4⟩
      . exact .inl ⟨h1, h2, h3, by rw [h4]⟩
      . exact .inr ⟨h1, h2, h3, by rw [h4]; rfl⟩

theorem WorkConserving.schedulePass_enqueue (h : s.WorkConserving) (hordered : s.Ordered)
    (req : Request)
    : (s.fitsNow req = true ∧ (s.enqueue req).schedulePass
          = .ok ({ s.take req with nextSeq := s.nextSeq + 1 },
              [⟨⟨s.nextSlotId⟩, req.binaryId, req.testName⟩]))
        ∨ (s.fitsNow req = false ∧ (s.enqueue req).schedulePass = .ok (s.enqueue req, [])) := by
  obtain ⟨u, grants, still, hpass, hok⟩ := schedulePass_eq (hordered.enqueue req).isChain
  have hnone : ∀ p ∈ s.queue, { s.enqueue req with queue := [] }.fitsNow p.req = false := h
  rcases Pass.concat hpass hnone with ⟨hfits, rfl, rfl, rfl⟩ | ⟨hfits, rfl, rfl, rfl⟩
  . exact .inl ⟨hfits, hok⟩
  . exact .inr ⟨hfits, hok⟩

theorem decideFor_of_fitsNow (h : s.fitsNow req = true) (reason : RejectReason)
    : s.decideFor req ≠ .rejected reason := by
  rw [fitsNow_eq_true_iff.mp h]
  simp

theorem beforePass_request (h : ∀ reason, s.decideFor req ≠ .rejected reason)
    : s.beforePass (.request req) = some (s.enqueue req) := by
  cases hdecide : s.decideFor req with
  | rejected reason => exact absurd hdecide (h reason)
  | granted _ => simp only [Scheduler.beforePass, hdecide]
  | queued => simp only [Scheduler.beforePass, hdecide]

theorem WorkConserving.request_cases (h : s.WorkConserving) (hordered : s.Ordered) (req : Request)
    : (∃ reason, s.decideFor req = .rejected reason ∧ s.request req = .ok (s, .rejected reason))
        ∨ (s.fitsNow req = true ∧ s.request req
            = .ok ({ s.take req with nextSeq := s.nextSeq + 1 }, .granted ⟨s.nextSlotId⟩))
        ∨ (s.fitsNow req = false ∧ (∀ reason, s.decideFor req ≠ .rejected reason)
            ∧ s.request req = .ok (s.enqueue req, .queued)) := by
  by_cases hrejected : ∃ reason, s.decideFor req = .rejected reason
  . obtain ⟨reason, hreason⟩ := hrejected
    refine .inl ⟨reason, hreason, ?_⟩
    simp only [request, hreason]
  . have hne : ∀ reason, s.decideFor req ≠ .rejected reason := fun r hr => hrejected ⟨r, hr⟩
    right
    rcases h.schedulePass_enqueue hordered req with ⟨hfits, hok⟩ | ⟨hfits, hok⟩
    . refine .inl ⟨hfits, ?_⟩
      unfold request
      split
      . next reason hreason => exact absurd hreason (hne reason)
      . simp [hok]
    . refine .inr ⟨hfits, hne, ?_⟩
      unfold request
      split
      . next reason hreason => exact absurd hreason (hne reason)
      . simp [hok]

theorem WorkConserving.enqueue (h : s.WorkConserving) (hfits : s.fitsNow req = false)
    : (s.enqueue req).WorkConserving := by
  intro p hp
  simp only [Scheduler.enqueue, List.mem_append, List.mem_singleton] at hp
  rcases hp with hp | rfl
  . exact h p hp
  . exact hfits

theorem WorkConserving.take (h : s.WorkConserving) (hfits : s.fitsNow req = true)
    : (s.take req).WorkConserving := by
  intro p hp
  by_contra hcontra
  have hpass : Pass s [⟨0, req⟩] (s.take req)
      [⟨⟨s.nextSlotId⟩, req.binaryId, req.testName⟩] [] := .grant hfits (.nil _)
  have := hpass.fitsNow_of_fitsNow (Bool.eq_true_of_not_eq_false hcontra)
  rw [h p hp] at this
  cases this

theorem WorkConserving.request_truthful (h : s.WorkConserving) (hordered : s.Ordered)
    (hexact : s.Exact) (req : Request)
    : s.TruthfulStep (.request req) := by
  rcases h.request_cases hordered req with ⟨reason, hreason, hok⟩ | ⟨hfits, hok⟩ | ⟨hfits, hne, hok⟩
  . refine ⟨s, .admission (.rejected reason), ?_, h, ?_⟩
    . simp [Scheduler.apply, hok, Except.map]
    . rintro req' a hop hr
      cases hop
      cases hr
      simp [grantsOf, Scheduler.beforePass, hreason, Answers]
  . have hbefore := beforePass_request (decideFor_of_fitsNow hfits)
    refine ⟨{ s.take req with nextSeq := s.nextSeq + 1 }, .admission (.granted ⟨s.nextSlotId⟩),
      ?_, h.take hfits, ?_⟩
    . simp only [Scheduler.apply, hok, Except.map]
    . rintro req' a hop hr
      cases hop
      cases hr
      constructor
      . rcases h.schedulePass_enqueue hordered req with ⟨_, hpass⟩ | ⟨hno, _⟩
        . simp [grantsOf, hbefore, hpass]
        . simp [hfits] at hno
      . exact ⟨hexact.fresh, rfl, rfl⟩
  . have hbefore := beforePass_request hne
    refine ⟨s.enqueue req, .admission .queued, ?_, h.enqueue hfits, ?_⟩
    . simp only [Scheduler.apply, hok, Except.map]
    . rintro req' a hop hr
      cases hop
      cases hr
      constructor
      . rcases h.schedulePass_enqueue hordered req with ⟨hyes, _⟩ | ⟨_, hpass⟩
        . simp [hfits] at hyes
        . simp [grantsOf, hbefore, hpass]
      . exact ⟨rfl, rfl⟩

theorem workConserving_of_schedulePass {t : Scheduler} (h : t.Ordered)
    : ∃ u grants, t.schedulePass = .ok (u, grants) ∧ u.WorkConserving := by
  obtain ⟨u, grants, still, hpass, hok⟩ := schedulePass_eq h.isChain
  exact ⟨_, grants, hok, hpass.still_not_fits⟩

theorem WorkConserving.release_truthful (h : s.WorkConserving) (hordered : s.Ordered)
    (slotId : SlotId)
    : ∃ u grants, s.release slotId = .ok (u, grants) ∧ u.WorkConserving := by
  unfold release
  cases hlease : s.leases.lookup slotId with
  | none => exact ⟨s, [], rfl, h⟩
  | some lease =>
    have hbefore : s.beforePass (.release slotId) = some (s.giveBack slotId lease) := by
      simp [Scheduler.beforePass, hlease]
    exact workConserving_of_schedulePass (hordered.beforePass hbefore)

theorem WorkConserving.truthfulStep_iff (h : s.WorkConserving) (hordered : s.Ordered)
    (hexact : s.Exact) (op : Op)
    : s.TruthfulStep op ↔ s.OpensNoRoom op := by
  cases op with
  | setSaBudget sa budget =>
    rw [← h.setSaBudget_iff]
    constructor
    . rintro ⟨s', r, happly, hs', _⟩
      cases happly
      exact hs'
    . intro hs'
      refine ⟨_, _, rfl, hs', ?_⟩
      intro req a hop
      cases hop
  | request req => simp [OpensNoRoom, h.request_truthful hordered hexact req]
  | release slotId | disconnect slotId =>
    simp only [OpensNoRoom, iff_true]
    obtain ⟨u, grants, hok, hu⟩ := h.release_truthful hordered slotId
    refine ⟨u, .grants grants, ?_, hu, ?_⟩
    . simp only [Scheduler.apply, disconnect, hok, Except.map]
    . intro req a hop
      cases hop
  | reconcile newAvailable =>
    simp only [OpensNoRoom, iff_true]
    have hbefore : s.beforePass (.reconcile newAvailable)
        = some { s with available := newAvailable } := rfl
    obtain ⟨u, grants, hok, hu⟩ := workConserving_of_schedulePass (hordered.beforePass hbefore)
    refine ⟨u, .grants grants, ?_, hu, ?_⟩
    . simp only [Scheduler.apply, reconcile, hok, Except.map]
    . intro req a hop
      cases hop

/--
A run is work conserving with truthful answers throughout exactly when none of its budget changes
opens room for a request that is already waiting.
-/
theorem truthful_iff_opensNoRoom (available : Resources) (ops : List Op)
    : Run.Along apply TruthfulStep (new available) ops
        ↔
      Run.Along apply OpensNoRoom (new available) ops := by
  apply Run.along_iff_along (I := fun s => s.WorkConserving ∧ s.Ordered ∧ s.Exact)
  . rintro s op ⟨hs, hordered, hexact⟩
    exact hs.truthfulStep_iff hordered hexact op
  . rintro s op s' r ⟨_, hordered, hexact⟩ ⟨t, r', happly', ht, _⟩ happly
    rw [happly] at happly'
    cases happly'
    have heffect := apply_cases hordered happly
    exact ⟨ht, hordered.effect heffect, hexact.effect heffect⟩
  . refine ⟨?_, .new available, .new available⟩
    intro p hp
    cases hp

-- Raising the budget of an account at its quota: the waiting request fits and no pass runs, and the
-- next request then trips the assertion of `request`.
theorem raised_budget_breaks_request
    : ¬ Run.Along apply TruthfulStep (new ⟨10, 10, 0, 0, 0⟩)
          [.setSaBudget "acme" ⟨4, 4, 0, 0, 0⟩,
            .request ⟨"bin", "a", "acme", ⟨3, 3, 0, 0, 0⟩⟩,
            .request ⟨"bin", "b", "acme", ⟨3, 3, 0, 0, 0⟩⟩,
            .setSaBudget "acme" ⟨10, 10, 0, 0, 0⟩]
        ∧ Run.exec apply (new ⟨10, 10, 0, 0, 0⟩)
            [.setSaBudget "acme" ⟨4, 4, 0, 0, 0⟩,
              .request ⟨"bin", "a", "acme", ⟨3, 3, 0, 0, 0⟩⟩,
              .request ⟨"bin", "b", "acme", ⟨3, 3, 0, 0, 0⟩⟩,
              .setSaBudget "acme" ⟨10, 10, 0, 0, 0⟩,
              .request ⟨"bin", "c", "acme", ⟨3, 3, 0, 0, 0⟩⟩]
            = .error .freshEnqueueAdmittedMany := by
  constructor
  . intro h
    have hlast := (((h.2 _ _ rfl).2 _ _ rfl).2 _ _ rfl).1
    obtain ⟨s', r, happly, hs', _⟩ := hlast
    cases happly
    have hwaiting := hs' ⟨1, ⟨"bin", "b", "acme", ⟨3, 3, 0, 0, 0⟩⟩⟩ (by decide)
    revert hwaiting
    decide
  . decide

end Room

variable {s s' t u : Scheduler} {req : Request} {entries still : List Pending}
  {grants : List Admitted}

def waiting (s : Scheduler) : List (String × String) := s.queue.map (·.req.identity)

structure Sound (s : Scheduler) : Prop where
  ordered : s.Ordered
  exact : s.Exact
  conserving : s.WorkConserving
  budgets : s.saBudgets = ∅

theorem Sound.new (available : Resources) : (new available).Sound := by
  refine ⟨.new available, .new available, ?_, rfl⟩
  intro p hp
  cases hp

theorem decideFor_of_no_budget (h : s.saBudgets = ∅) (req : Request)
    : s.decideFor req
        =
      if req.footprint.fitsWithin s.available then
        if req.footprint.fitsWithin s.free then .granted () else .queued
      else
        .rejected .exceedsClusterCapacity := by
  unfold decideFor decide free
  rw [h]
  cases req.footprint.fitsWithin s.available <;>
    cases req.footprint.fitsWithin (s.available.saturatingSub s.committed) <;> simp

theorem fitsNow_of_no_budget (h : s.saBudgets = ∅) (req : Request)
    : s.fitsNow req = true ↔ ∀ d, req.footprint.amt d ≤ s.available.amt d - s.committed.amt d := by
  rw [fitsNow_iff, h]
  simp

structure Rescheduled (t u : Scheduler) (grants : List Admitted) : Prop where
  sound : u.Sound
  available : u.available = t.available
  slots : u.leases.keys.Perm (t.leases.keys ++ grants.map (·.slotId))
  waiting : t.waiting.Perm (grants.map (·.identity) ++ u.waiting)
  sublist : u.queue.Sublist t.queue
  fits : ∀ g ∈ grants, ∃ p ∈ t.queue,
    p.req.identity = g.identity ∧ p.req.footprint.fitsWithin t.available = true

theorem keys_take (h : s.Exact) (req : Request)
    : (s.take req).leases.keys.Perm (⟨s.nextSlotId⟩ :: s.leases.keys) := by
  rw [take_leases, AList.keys_insert_of_notMem h.fresh]

namespace Pass

theorem slots_perm (h : Pass s entries s' grants still) (hexact : s.Exact)
    : s'.leases.keys.Perm (s.leases.keys ++ grants.map (·.slotId)) := by
  induction h with
  | nil => simp
  | @grant s s' entry rest still grants hfits _ ih =>
    refine (ih (hexact.take hfits)).trans ?_
    refine ((keys_take hexact entry.req).append_right _).trans ?_
    simp only [List.map_cons, List.cons_append]
    exact List.perm_middle.symm
  | skip _ _ ih => exact ih hexact

theorem waiting_perm (h : Pass s entries s' grants still)
    : (entries.map (·.req.identity)).Perm
        (grants.map (·.identity) ++ still.map (·.req.identity)) := by
  induction h with
  | nil => simp
  | grant _ _ ih =>
    simp only [List.map_cons, List.cons_append]
    exact ih.cons _
  | skip _ _ ih =>
    simp only [List.map_cons]
    exact (ih.cons _).trans List.perm_middle.symm

theorem grants_fit (h : Pass s entries s' grants still)
    : ∀ g ∈ grants, ∃ p ∈ entries,
        p.req.identity = g.identity ∧ p.req.footprint.fitsWithin s.available = true := by
  induction h with
  | nil => simp
  | @grant s s' entry rest still grants hfits _ ih =>
    intro g hg
    rcases List.mem_cons.mp hg with rfl | hg
    . refine ⟨entry, List.mem_cons_self, rfl, ?_⟩
      rw [Resources.fitsWithin_iff]
      intro d
      have := (fitsNow_iff.mp hfits).1 d
      omega
    . obtain ⟨p, hp, hfits⟩ := ih g hg
      exact ⟨p, List.mem_cons_of_mem _ hp, hfits⟩
  | skip _ _ ih =>
    intro g hg
    obtain ⟨p, hp, hfits⟩ := ih g hg
    exact ⟨p, List.mem_cons_of_mem _ hp, hfits⟩

end Pass

theorem schedulePass_rescheduled (hordered : t.Ordered) (hexact : t.Exact)
    (hbudgets : t.saBudgets = ∅)
    : ∃ u grants, t.schedulePass = .ok (u, grants) ∧ Rescheduled t u grants := by
  obtain ⟨u, grants, still, hpass, hok⟩ := schedulePass_eq hordered.isChain
  obtain ⟨havailable, hsaBudgets, _⟩ := hpass.frame
  have ht : Exact { t with queue := [] } := hexact.of_eq rfl rfl rfl rfl
  refine ⟨_, grants, hok, ?_⟩
  constructor
  . refine ⟨hordered.pass hpass, (ht.pass hpass).of_eq rfl rfl rfl rfl, hpass.still_not_fits, ?_⟩
    exact hsaBudgets.trans hbudgets
  . exact havailable
  . exact hpass.slots_perm ht
  . exact hpass.waiting_perm
  . exact hpass.still_sublist
  . exact hpass.grants_fit

theorem Sound.reconcile (h : s.Sound) (newAvailable : Resources)
    : ∃ u grants, s.reconcile newAvailable = .ok (u, grants)
        ∧ Rescheduled { s with available := newAvailable } u grants := by
  apply schedulePass_rescheduled
  . exact ⟨h.ordered.pairwise, h.ordered.lt_nextSeq⟩
  . exact h.exact.of_eq rfl rfl rfl rfl
  . exact h.budgets

theorem Sound.release {slotId : SlotId} (h : s.Sound) (hmem : slotId ∈ s.leases)
    : ∃ t u grants, s.release slotId = .ok (u, grants) ∧ Rescheduled t u grants
        ∧ t.available = s.available ∧ t.queue = s.queue
        ∧ t.leases.keys = s.leases.keys.erase slotId ∧ t.Exact := by
  rw [← AList.lookup_isSome, Option.isSome_iff_exists] at hmem
  obtain ⟨lease, hlease⟩ := hmem
  have hexact := h.exact.giveBack hlease
  obtain ⟨u, grants, hok, hres⟩ := schedulePass_rescheduled (t := s.giveBack slotId lease)
    ⟨h.ordered.pairwise, h.ordered.lt_nextSeq⟩ hexact h.budgets
  refine ⟨s.giveBack slotId lease, u, grants, ?_, hres, rfl, rfl, ?_, hexact⟩
  . simp only [Scheduler.release, hlease, hok]
  . exact AList.keys_erase _ _

inductive Filed (s : Scheduler) (req : Request) : Scheduler → Admission SlotId → Prop where
  | rejected (reason : RejectReason) (hfits : req.footprint.fitsWithin s.available = false)
    : Filed s req s (.rejected reason)
  | granted (u : Scheduler) (slotId : SlotId)
    (hfits : req.footprint.fitsWithin s.available = true)
    (hqueue : u.queue = s.queue) (hslots : u.leases.keys.Perm (slotId :: s.leases.keys))
    : Filed s req u (.granted slotId)
  | queued (u : Scheduler) (p : Pending)
    (hfits : req.footprint.fitsWithin s.available = true) (hreq : p.req = req)
    (hqueue : u.queue = s.queue ++ [p]) (hslots : u.leases = s.leases)
    (hbusy : s.leases.keys ≠ [])
    : Filed s req u .queued

theorem Exact.committed_eq_zero (h : s.Exact) (hleases : s.leases.keys = []) (d : Dim)
    : s.committed.amt d = 0 := by
  rw [h.committed]
  have hentries : s.leases.entries = [] := List.map_eq_nil_iff.mp hleases
  unfold leaseSum AList.weight
  rw [hentries]
  rfl

theorem Sound.fitsNow_of_idle (h : s.Sound) (hleases : s.leases.keys = [])
    (hfits : req.footprint.fitsWithin s.available = true)
    : s.fitsNow req = true := by
  rw [fitsNow_of_no_budget h.budgets]
  intro d
  have := Resources.fitsWithin_iff.mp hfits d
  rw [h.exact.committed_eq_zero hleases]
  omega

theorem Rescheduled.grants_ne_nil_iff (h : Rescheduled t u grants) (hidle : t.leases.keys = [])
    : grants ≠ [] ↔ ∃ p ∈ t.queue, p.req.footprint.fitsWithin t.available = true := by
  constructor
  . intro hne
    obtain ⟨g, hg⟩ := List.exists_mem_of_ne_nil grants hne
    obtain ⟨p, hp, _, hfits⟩ := h.fits g hg
    exact ⟨p, hp, hfits⟩
  . rintro ⟨p, hp, hfits⟩ hnil
    subst hnil
    have hslots : u.leases.keys = [] := by
      have := h.slots
      rw [hidle] at this
      exact this.eq_nil
    -- With no grant the whole queue is still waiting, the fitting request included.
    have hqueue : u.queue = t.queue := by
      apply h.sublist.eq_of_length
      have := h.waiting.length_eq
      simpa [Scheduler.waiting] using this.symm
    rw [← hqueue] at hp
    rw [← h.available] at hfits
    have hnow := h.sound.fitsNow_of_idle hslots hfits
    rw [h.sound.conserving p hp] at hnow
    cases hnow

theorem Sound.request (h : s.Sound) (req : Request)
    : ∃ u a, s.request req = .ok (u, a) ∧ u.Sound ∧ u.available = s.available
        ∧ Filed s req u a := by
  rcases h.conserving.request_cases h.ordered req with
    ⟨reason, hreason, hok⟩ | ⟨hfits, hok⟩ | ⟨hfits, hne, hok⟩
  . refine ⟨s, _, hok, h, rfl, .rejected reason ?_⟩
    rw [decideFor_of_no_budget h.budgets] at hreason
    split at hreason
    . split at hreason <;> cases hreason
    . next hno => simpa using hno
  . refine ⟨_, _, hok, ?_, rfl, .granted _ _ ?_ rfl ?_⟩
    . refine ⟨⟨h.ordered.pairwise, ?_⟩, (h.exact.take hfits).of_eq rfl rfl rfl rfl,
        h.conserving.take hfits, h.budgets⟩
      intro p hp
      exact Nat.lt_succ_of_lt (h.ordered.lt_nextSeq p hp)
    . rw [Resources.fitsWithin_iff]
      intro d
      have := (fitsNow_iff.mp hfits).1 d
      omega
    . exact keys_take h.exact req
  . have hceiling : req.footprint.fitsWithin s.available = true := by
      by_contra hno
      apply hne .exceedsClusterCapacity
      rw [decideFor_of_no_budget h.budgets, if_neg hno]
    refine ⟨_, _, hok, ?_, rfl, .queued _ ⟨s.nextSeq, req⟩ hceiling rfl rfl rfl ?_⟩
    . exact ⟨h.ordered.enqueue req, h.exact.of_eq rfl rfl rfl rfl, h.conserving.enqueue hfits,
        h.budgets⟩
    . intro hidle
      rw [h.fitsNow_of_idle hidle hceiling] at hfits
      cases hfits

end Scheduler
end Qos
