import Ztest.Engine.Schedule.Lemmas.Invariant

/-!
This module is about the end of the loop. The loop ends with its last future, not with its last
parked test, so a test is left unrun exactly when the last running test completes under a ceiling
that no parked test fits (and the completed one is not retried into it).
-/

namespace Engine
namespace LoopState

open Qos

variable {cfg : LoopConfig} {items : List WorkItem} {s s' : LoopState}

def FitsCeiling (s : LoopState) (item : WorkItem) : Prop :=
  item.footprint.fitsWithin s.sched.available = true

def Retriable (running : Running) (outcome : TestOutcome) : Prop :=
  outcome.verdict.retryable = true ∧ running.attempt ≤ running.item.retries

/--
When the last running test completes with tests parked, the ceiling in force has room for one of
them, or for the retry of the completed test.
-/
def KeepsGoing (s : LoopState) (input : Input) : Prop :=
  match input with
  | .select (.complete lease outcome _ _) _ =>
    ∀ running, s.futs = [lease] → s.inflight.lookup lease = some running → s.ready = [] →
      s.parked.keys ≠ [] →
      (∃ k v, s.parked.lookup k = some v ∧ s.FitsCeiling v.1)
        ∨ (Retriable running outcome ∧ s.FitsCeiling running.item)
  | _ => True

theorem Tracked.exists_queued_fits_iff (h : Tracked cfg items s [] [])
    : (∃ p ∈ s.sched.queue, p.req.footprint.fitsWithin s.sched.available = true)
        ↔
      (∃ k v, s.parked.lookup k = some v ∧ s.FitsCeiling v.1) := by
  constructor
  . rintro ⟨p, hp, hfits⟩
    obtain ⟨v, hv, hreq⟩ := h.requests p hp
    rw [hreq] at hfits
    exact ⟨_, v, hv, hfits⟩
  . rintro ⟨k, v, hv, hfits⟩
    have hk : k ∈ s.sched.waiting := by
      have := h.waiting.mem_iff.mp (AList.mem_keys.mp (AList.mem_of_lookup hv))
      simpa using this
    unfold Scheduler.waiting at hk
    rw [List.mem_map] at hk
    obtain ⟨p, hp, rfl⟩ := hk
    obtain ⟨v', hv', hreq⟩ := h.requests p hp
    rw [hv] at hv'
    cases hv'
    refine ⟨p, hp, ?_⟩
    rw [hreq]
    exact hfits

theorem retried_iff {running : Running} {outcome : TestOutcome} (hopen : Open s)
    : s.Retried running outcome ↔ Retriable running outcome := by
  unfold Retried Retriable
  rw [hopen.failFastTripped, hopen.cancelFlag]
  simp

theorem Tracked.settle_idle {grants : List Admitted} {running : Running} {outcome : TestOutcome}
    (h : Tracked cfg items s grants [running.item]) (hitems : (items.map key).Nodup)
    (hopen : Open s) (hsettle : s.settle cfg running outcome = .ok s')
    : (s'.sched.leases.keys = []
        ↔
      s.sched.leases.keys = [] ∧ ¬ (Retriable running outcome ∧ s.FitsCeiling running.item))
    ∧ (s'.sched.leases.keys = [] → s'.parked = s.parked) := by
  rcases settle_cases s cfg with ⟨hretried, heq⟩ | ⟨hretried, stats, tripped, _, heq⟩
  . have hretry := (retried_iff hopen).mp hretried
    have hemit : Tracked cfg items (s.emitRetrying running outcome) grants [running.item] :=
      h.emit rfl
    obtain ⟨sched, a, hok, hfiled, _, _⟩ := hemit.file hitems (running.attempt + 1)
    rw [heq, hok] at hsettle
    cases hsettle
    cases hfiled with
    | rejected reason hfits =>
      refine ⟨?_, fun _ => rfl⟩
      have hno : ¬ s.FitsCeiling running.item := Bool.eq_false_iff.mp hfits
      simp only [hno, and_false, not_false_eq_true, and_true]
      rfl
    | granted _ slotId hfits _ hslots =>
      have hne : sched.leases.keys ≠ [] := by
        intro hnil
        rw [hnil] at hslots
        exact absurd hslots.symm.eq_nil (by simp)
      refine ⟨⟨fun hnil => absurd hnil hne, ?_⟩, fun hnil => absurd hnil hne⟩
      exact fun hidle => absurd ⟨hretry, hfits⟩ hidle.2
    | queued _ p hfits _ _ hslots hbusy =>
      have hne : sched.leases.keys ≠ [] := by
        rw [hslots]
        exact hbusy
      refine ⟨⟨fun hnil => absurd hnil hne, ?_⟩, fun hnil => absurd hnil hne⟩
      exact fun hidle => absurd ⟨hretry, hfits⟩ hidle.2
  . rw [heq] at hsettle
    cases hsettle
    have hno := (retried_iff hopen).not.mp hretried
    refine ⟨?_, fun _ => rfl⟩
    simp only [hno, false_and, not_false_eq_true, and_true]
    rfl

theorem LoopInv.futs_eq_nil_iff (h : LoopInv cfg items s) (hcap : cfg.maxInflight ≠ some 0)
    : s.futs = [] ↔ s.sched.leases.keys = [] := by
  constructor
  . intro hfuts
    have hinflight : s.inflight.keys = [] := by
      have := h.tracked.futs
      rw [hfuts] at this
      exact this.symm.eq_nil
    have hready : s.ready = [] := by
      by_contra hne
      have hlength : s.inflight.entries.length = 0 := by
        have := congrArg List.length hinflight
        simpa [AList.keys, List.keys] using this
      have hfull := h.full hne
      rw [hlength] at hfull
      unfold belowCap at hfull
      split at hfull
      . cases hfull
      . next cap hmax =>
        simp only [decide_eq_false_iff_not, Nat.not_lt, Nat.le_zero] at hfull
        subst hfull
        exact hcap hmax
    have hslots := h.tracked.slots
    rw [hinflight, readySlots, hready] at hslots
    exact hslots.eq_nil
  . intro hleases
    have hslots := h.tracked.slots
    rw [hleases] at hslots
    have hinflight : s.inflight.keys = [] := by
      have := hslots.symm.eq_nil
      simp only [List.append_eq_nil_iff] at this
      exact this.1.1
    have hfuts := h.tracked.futs
    rw [hinflight] at hfuts
    exact hfuts.eq_nil

theorem LoopInv.complete_idle {now : Nat} {lease : SlotId} {outcome : TestOutcome}
    {raiseRetry raiseAdmit : Bool} {running : Running} (h : LoopInv cfg items s)
    (hitems : (items.map key).Nodup) (hrunning : s.inflight.lookup lease = some running)
    (hok : s.complete cfg now lease outcome raiseRetry raiseAdmit = .ok s') (hopen : Open s')
    : (s'.sched.leases.keys = []
        ↔
      s.sched.leases.keys.erase lease = []
        ∧ ¬ (∃ k v, s.parked.lookup k = some v ∧ s.FitsCeiling v.1)
        ∧ ¬ (Retriable running outcome ∧ s.FitsCeiling running.item))
    ∧ (s'.sched.leases.keys = [] → s'.parked = s.parked) := by
  obtain ⟨running', sched, grants, u, hmem, hrunning', hrelease, hsettle, rfl⟩ := complete_ok hok
  cases hrunning.symm.trans hrunning'
  obtain ⟨_, t, sched', grants', hrunning'', hrelease', hres, havailable, hqueue, hslots, _,
    htracked⟩ := h.tracked.release hmem
  cases hrunning.symm.trans hrunning''
  cases hrelease.symm.trans hrelease'
  have hu : Open u := (hopen.of_frame (publishDemand_frame _ _)).of_admitGrants.of_raise
  have hreleased := settle_ok_open hsettle hu
  obtain ⟨hidle, hparked⟩ := (htracked.raise raiseRetry).settle_idle hitems hreleased hsettle
  have hsched : (((u.raise raiseAdmit).admitGrants cfg grants now).publishDemand cfg).sched
      = u.sched := by
    rw [(publishDemand_frame _ _).sched, (admitGrants_frame _ _ _ _).sched]
    rfl
  have hcore : sched.leases.keys = []
      ↔ s.sched.leases.keys.erase lease = []
        ∧ ¬ (∃ k v, s.parked.lookup k = some v ∧ s.FitsCeiling v.1) := by
    rw [← hslots, ← h.tracked.exists_queued_fits_iff, ← hqueue, ← havailable]
    constructor
    . intro hnil
      have hboth := hres.slots
      rw [hnil] at hboth
      have hempty := hboth.symm.eq_nil
      rw [List.append_eq_nil_iff] at hempty
      refine ⟨hempty.1, ?_⟩
      rw [← hres.grants_ne_nil_iff hempty.1]
      simpa using hempty.2
    . rintro ⟨hnil, hno⟩
      rw [← hres.grants_ne_nil_iff hnil, not_not] at hno
      have hboth := hres.slots
      rw [hnil, hno] at hboth
      exact hboth.eq_nil
  have havail : sched.available = s.sched.available := hres.available.trans havailable
  rw [hsched]
  constructor
  . rw [hidle]
    show sched.leases.keys = [] ∧ _ ↔ _
    rw [hcore, and_assoc]
    unfold FitsCeiling LoopState.raise LoopState.released
    simp only [havail]
  . intro hnil
    -- No slot is held, so nothing was granted, and no retry was parked either.
    have hgrants : grants = [] := by
      have hboth := hres.slots
      rw [show sched.leases.keys = [] from (hidle.mp hnil).1] at hboth
      have hempty := hboth.symm.eq_nil
      rw [List.append_eq_nil_iff] at hempty
      simpa using hempty.2
    subst hgrants
    rw [admitGrants_of_open (hopen.of_frame (publishDemand_frame _ _)).of_admitGrants]
    unfold publishDemand
    split
    . exact (pumped _ cfg now).parked.trans (hparked hnil)
    . exact (pumped _ cfg now).parked.trans (hparked hnil)

def Drained (s : LoopState) : Prop := s.futs = [] → s.parked.keys = []

theorem runArm_futs_ne_nil {arm : Arm} {now : Nat} (hok : s.runArm cfg arm now = .ok s')
    (hfuts : s.futs ≠ []) (harm : ∀ lease outcome r r', arm ≠ .complete lease outcome r r')
    : s'.futs ≠ [] := by
  cases arm with
  | cancelWake =>
    rw [cancelWake_ok hok]
    exact hfuts
  | complete lease outcome r r' => exact absurd rfl (harm lease outcome r r')
  | ceiling newCeiling raiseAdmit =>
    obtain ⟨sched, grants, _, _, rfl⟩ := moveCeiling_ok hok
    obtain ⟨lease, hlease⟩ := List.exists_mem_of_ne_nil _ hfuts
    apply List.ne_nil_of_mem (a := lease)
    rw [publishDemand_futs]
    apply admitGrants_futs
    exact hlease
  | tick =>
    cases hok
    rw [(tick_places s cfg now).2.2.2.2.1]
    exact hfuts

theorem LoopInv.erase_eq_nil_iff {lease : SlotId} {running : Running} (h : LoopInv cfg items s)
    (hrunning : s.inflight.lookup lease = some running)
    : s.sched.leases.keys.erase lease = [] ↔ s.futs = [lease] ∧ s.ready = [] := by
  have hkeys := AList.keys_perm_of_lookup hrunning
  have hslots := h.tracked.slots
  simp only [List.map_nil, List.append_nil] at hslots
  have hmem : lease ∈ s.sched.leases.keys := by
    rw [hslots.mem_iff]
    exact List.mem_append_left _ (hkeys.mem_iff.mpr List.mem_cons_self)
  constructor
  . intro hnil
    have hsingle := List.perm_cons_erase hmem
    rw [hnil] at hsingle
    have hall := (hslots.symm.trans hsingle).length_eq
    have hfuts := h.tracked.futs.length_eq
    have hone := hkeys.length_eq
    simp only [List.length_append, List.length_cons, List.length_nil, readySlots, List.length_map]
      at hall hone
    constructor
    . have hmem' : lease ∈ s.futs := by
        rw [h.tracked.futs.mem_iff, hkeys.mem_iff]
        exact List.mem_cons_self
      have hlen : s.futs.length = 1 := by omega
      obtain ⟨x, hx⟩ := List.length_eq_one_iff.mp hlen
      rw [hx, List.mem_singleton] at hmem'
      rw [hx, hmem']
    . apply List.eq_nil_of_length_eq_zero
      omega
  . rintro ⟨hfuts, hready⟩
    have hall := hslots.length_eq
    have hlen := h.tracked.futs.length_eq
    rw [hfuts] at hlen
    simp only [List.length_append, readySlots, hready, List.map_nil, List.length_nil,
      List.length_cons] at hall hlen
    apply List.eq_nil_of_length_eq_zero
    rw [List.length_erase_of_mem hmem]
    omega

theorem LoopInv.drained_iff_keepsGoing {input : Input} {r : Unit} (h : LoopInv cfg items s)
    (hitems : (items.map key).Nodup) (hcap : cfg.maxInflight ≠ some 0)
    (hok : LoopState.step cfg s input = .ok (s', r)) (hopen : Open s')
    : s'.Drained ↔ s.KeepsGoing input := by
  have hinv := h.step hitems hok hopen
  rcases step_cases hok with ⟨_, rfl⟩ | ⟨arm, now, rfl, hfuts, hrun⟩
  . cases hopen.cancelFlag
  . rw [(step_open hok hopen).loopTop_eq] at hrun
    by_cases harm : ∀ lease outcome r r', arm ≠ .complete lease outcome r r'
    . have hne := runArm_futs_ne_nil hrun hfuts harm
      constructor
      . intro _
        cases arm with
        | complete lease outcome r r' => exact absurd rfl (harm lease outcome r r')
        | _ => trivial
      . exact fun _ hnil => absurd hnil hne
    . push Not at harm
      obtain ⟨lease, outcome, r₁, r₂, rfl⟩ := harm
      obtain ⟨running, _, _, _, _, hrunning, _, _, _⟩ := complete_ok hrun
      obtain ⟨hidle, hparked⟩ := h.complete_idle hitems hrunning hrun hopen
      rw [← hinv.futs_eq_nil_iff hcap, h.erase_eq_nil_iff hrunning] at hidle
      constructor
      . intro hdrained running' hfuts' hrunning' hready hwaiting
        cases hrunning.symm.trans hrunning'
        by_contra hno
        rw [not_or] at hno
        have hend := hidle.mpr ⟨⟨hfuts', hready⟩, hno.1, hno.2⟩
        have hnil := hdrained hend
        rw [hparked ((hinv.futs_eq_nil_iff hcap).mp hend)] at hnil
        exact hwaiting hnil
      . intro hgoing hend
        obtain ⟨⟨hfuts', hready⟩, hno₁, hno₂⟩ := hidle.mp hend
        rw [hparked ((hinv.futs_eq_nil_iff hcap).mp hend)]
        by_contra hwaiting
        cases hgoing running hfuts' hrunning hready hwaiting with
        | inl hyes => exact hno₁ hyes
        | inr hyes => exact hno₂ hyes

theorem start_drained {ceiling : Resources} {cancelFlag : Bool} {now : Nat}
    (hitems : (items.map key).Nodup) (hcap : cfg.maxInflight ≠ some 0)
    (hok : start cfg items ceiling cancelFlag now = .ok s)
    : s.Drained := by
  have hinv := LoopInv.start hitems hok
  obtain ⟨t, hstart, _, hsubmitted⟩ := start_spec cfg ceiling cancelFlag now hitems
  have hsched : s.sched = t.sched := by
    rw [hstart] at hok
    cases hok
    exact (publishDemand_frame _ _).sched.trans (pumped t cfg now).frame.sched
  have hfits : s.QueueFits := by
    unfold QueueFits
    rw [hsched]
    apply hsubmitted.fits
    intro p hp
    cases hp
  intro hend
  rw [hinv.futs_eq_nil_iff hcap] at hend
  have hqueue : s.sched.queue = [] := by
    by_contra hne
    obtain ⟨p, hp⟩ := List.exists_mem_of_ne_nil _ hne
    have hnow := hinv.tracked.sched.fitsNow_of_idle hend (hfits p hp)
    rw [hinv.tracked.sched.conserving p hp] at hnow
    cases hnow
  have hwaiting := hinv.tracked.waiting
  unfold Scheduler.waiting at hwaiting
  rw [hqueue] at hwaiting
  exact hwaiting.eq_nil

theorem exec_open {inputs : List Input} (hexec : Run.exec (step cfg) s inputs = .ok s')
    (hopen : Open s')
    : Open s := by
  by_contra hno
  refine Run.exec_invariant (I := fun s => ¬ Open s) ?_ hno hexec hopen
  intro s i s' r hs hstep hs'
  exact hs (step_open hstep hs')

theorem exec_of_futs_nil {inputs : List Input} (hexec : Run.exec (step cfg) s inputs = .ok s')
    (hopen : Open s') (hfuts : s.futs = [])
    : s' = s := by
  cases inputs with
  | nil =>
    cases hexec
    rfl
  | cons i is =>
    obtain ⟨t, r, hstep, hrest⟩ := Run.exec_cons_ok hexec
    rcases step_cases hstep with ⟨_, rfl⟩ | ⟨arm, now, _, hne, _⟩
    . cases (exec_open hrest hopen).cancelFlag
    . exact absurd hfuts hne

theorem LoopInv.parked_eq_nil_iff {inputs : List Input} (h : LoopInv cfg items s)
    (hitems : (items.map key).Nodup) (hcap : cfg.maxInflight ≠ some 0) (hdrained : s.Drained)
    (hexec : Run.exec (LoopState.step cfg) s inputs = .ok s') (hopen : Open s')
    (hend : s'.futs = [])
    : s'.parked.keys = [] ↔ Run.Along (LoopState.step cfg) KeepsGoing s inputs := by
  induction inputs generalizing s with
  | nil =>
    cases hexec
    exact ⟨fun _ => trivial, fun _ => hdrained hend⟩
  | cons i is ih =>
    obtain ⟨t, r, hstep, hrest⟩ := Run.exec_cons_ok hexec
    have ht := exec_open hrest hopen
    have hiff := h.drained_iff_keepsGoing hitems hcap hstep ht
    by_cases hdt : t.Drained
    . rw [ih (h.step hitems hstep ht) hdt hrest]
      constructor
      . intro halong
        refine ⟨hiff.mp hdt, ?_⟩
        intro t' r' hstep'
        cases hstep.symm.trans hstep'
        exact halong
      . exact fun halong => halong.2 t r hstep
    . have hstuck : t.futs = [] ∧ t.parked.keys ≠ [] := by
        unfold Drained at hdt
        push Not at hdt
        exact hdt
      have heq := exec_of_futs_nil hrest hopen hstuck.1
      rw [heq]
      constructor
      . exact fun hnil => absurd hnil hstuck.2
      . exact fun halong => absurd (hiff.mpr halong.1) hdt

theorem LoopInv.terminal_of_drained (h : LoopInv cfg items s) (hcap : cfg.maxInflight ≠ some 0)
    (hend : s.futs = []) (hparked : s.parked.keys = [])
    : s.terminalKeys.Perm (items.map key) := by
  have hkeys := h.tracked.keys
  have hlive : s.liveItems = [] := by
    have hslots := h.tracked.slots
    rw [(h.futs_eq_nil_iff hcap).mp hend] at hslots
    have hempty := hslots.symm.eq_nil
    simp only [List.append_eq_nil_iff, readySlots, List.map_eq_nil_iff, AList.keys, List.keys]
      at hempty
    have hentries : s.parked.entries = [] := List.map_eq_nil_iff.mp hparked
    simp [liveItems, inflightItems, readyItems, parkedItems, hempty.1.1, hempty.1.2, hentries]
  rw [hlive] at hkeys
  simpa using hkeys

theorem LoopInv.ready_eq_nil (h : LoopInv cfg items s) (hcap : cfg.maxInflight ≠ some 0)
    (hend : s.futs = [])
    : s.ready = [] := by
  have hslots := h.tracked.slots
  rw [(h.futs_eq_nil_iff hcap).mp hend] at hslots
  have hempty := hslots.symm.eq_nil
  simp only [List.append_eq_nil_iff, readySlots, List.map_eq_nil_iff] at hempty
  exact hempty.1.2

theorem run_drained_iff (cfg : LoopConfig) (items : List WorkItem) (ceiling : Resources)
    (cancelFlag : Bool) (now : Nat) (inputs : List Input) (s₀ s : LoopState)
    (hitems : (items.map key).Nodup) (hcap : cfg.maxInflight ≠ some 0)
    (hstart : start cfg items ceiling cancelFlag now = .ok s₀)
    (hexec : Run.exec (step cfg) s₀ inputs = .ok s) (hend : s.futs = [])
    (htripped : s.failFastTripped = false) (hcancel : s.cancelFlag = false)
    : (s.stats.passed + s.stats.failed + s.stats.terminated + s.stats.skipped = s.stats.total
        ∧ s.parked.keys = [] ∧ s.ready = [])
        ↔
      Run.Along (step cfg) KeepsGoing s₀ inputs := by
  have hinv₀ := LoopInv.start hitems hstart
  have hopen : Open s := ⟨htripped, hcancel⟩
  have hinv := hinv₀.exec hitems hexec hopen
  rw [← hinv₀.parked_eq_nil_iff hitems hcap (start_drained hitems hcap hstart) hexec hopen hend]
  constructor
  . exact fun hall => hall.2.1
  . intro hparked
    refine ⟨?_, hparked, hinv.ready_eq_nil hcap hend⟩
    have hfinished := hinv.tracked.finished
    rw [(hinv.terminal_of_drained hcap hend hparked).length_eq, List.length_map] at hfinished
    simp only [RunStats.finished, RunStats.ran] at hfinished
    rw [hinv.tracked.total]
    omega

theorem run_drained_iff_fixed_ceiling
    : ∃ s₀ s, start ⟨false, none, "acme", "run", ∅, some 1, false, false⟩
          [⟨"bin", "a", .wallet, ⟨2, 2, 0, 0, 0⟩, 0, []⟩, ⟨"bin", "b", .wallet, ⟨4, 4, 0, 0, 0⟩, 0, []⟩]
          ⟨4, 4, 0, 0, 0⟩ false 0 = .ok s₀
        ∧ Run.exec (step ⟨false, none, "acme", "run", ∅, some 1, false, false⟩) s₀
            [.select (.complete ⟨0⟩ ⟨.pass, [], [], 1⟩ false false) 1,
              .select (.complete ⟨1⟩ ⟨.fail 1, [], [], 1⟩ false false) 2] = .ok s
        ∧ s.stats.failed = 1 ∧ s.parked.keys = []
        ∧ Run.Along (step ⟨false, none, "acme", "run", ∅, some 1, false, false⟩) KeepsGoing s₀
            [.select (.complete ⟨0⟩ ⟨.pass, [], [], 1⟩ false false) 1,
              .select (.complete ⟨1⟩ ⟨.fail 1, [], [], 1⟩ false false) 2] := by
  refine ⟨_, _, rfl, rfl, rfl, rfl, ?_⟩
  apply (run_drained_iff ⟨false, none, "acme", "run", ∅, some 1, false, false⟩
    [⟨"bin", "a", .wallet, ⟨2, 2, 0, 0, 0⟩, 0, []⟩, ⟨"bin", "b", .wallet, ⟨4, 4, 0, 0, 0⟩, 0, []⟩]
    ⟨4, 4, 0, 0, 0⟩ false 0 _ _ _ (by decide) (by decide) rfl rfl rfl rfl rfl).mp
  exact ⟨rfl, rfl, rfl⟩

-- `b` waits for the slot of `a`, and the ceiling falls below `b` before `a` completes.
theorem shrunk_ceiling_strands_parked
    : ∃ s, run ⟨false, none, "acme", "run", ∅, none, true, true⟩
          [⟨"bin", "a", .wallet, ⟨2, 2, 0, 0, 0⟩, 0, []⟩, ⟨"bin", "b", .wallet, ⟨4, 4, 0, 0, 0⟩, 0, []⟩]
          ⟨4, 4, 0, 0, 0⟩ false 0
          [.select (.ceiling ⟨2, 2, 0, 0, 0⟩ false) 1,
            .select (.complete ⟨0⟩ ⟨.pass, [], [], 1⟩ false false) 2] = .ok s
        ∧ s.futs = [] ∧ s.failFastTripped = false ∧ s.cancelFlag = false
        ∧ s.stats.passed + s.stats.failed + s.stats.terminated + s.stats.skipped ≠ s.stats.total
        ∧ s.parked.keys = [("bin", "b")] := by
  refine ⟨_, rfl, rfl, rfl, rfl, by decide, rfl⟩

end LoopState
end Engine
