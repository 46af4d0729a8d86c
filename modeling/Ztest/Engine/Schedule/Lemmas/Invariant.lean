import Ztest.Engine.Schedule.Lemmas.Step

/-!
This module contains the invariant of the run loop, kept from the first `select!` until fail-fast
trips or the cancel flag is raised: every test is in exactly one place, the slots are the
scheduler's leases, and the cap and the published status agree with the collections.
-/

namespace Engine
namespace LoopState

open Qos

variable {cfg : LoopConfig} {items : List WorkItem} {s s' : LoopState} {grants : List Admitted}

structure LoopInv (cfg : LoopConfig) (items : List WorkItem) (s : LoopState) : Prop where
  tracked : Tracked cfg items s [] []
  capped : ∀ cap, cfg.maxInflight = some cap → s.inflight.entries.length ≤ cap
  full : s.ready ≠ [] → belowCap cfg s.inflight.entries.length = false
  reported : cfg.reservation = true → ∃ r, s.report = some r
    ∧ r.committed = s.sched.committed ∧ r.demand = s.sched.demand
    ∧ r.progress.queued = s.parked.entries.length + s.ready.length

theorem Tracked.raise {pend : List Admitted} {moving : List WorkItem}
    (h : Tracked cfg items s pend moving) (flag : Bool)
    : Tracked cfg items (s.raise flag) pend moving :=
  h.of_frame rfl rfl rfl rfl rfl rfl rfl

theorem Tracked.length_items (h : Tracked cfg items s [] [])
    : items.length = s.terminalKeys.length + s.inflight.entries.length + s.ready.length
        + s.parked.entries.length := by
  have hlength := h.keys.length_eq
  simp only [List.length_append, List.length_map, List.append_nil, liveItems, inflightItems,
    readyItems, parkedItems] at hlength
  omega

theorem Tracked.queued_progressOf (h : Tracked cfg items s [] [])
    : s.progressOf.queued = s.parked.entries.length + s.ready.length := by
  have hlength := h.length_items
  have hrunning : s.runningTests.length = s.inflight.entries.length := by
    unfold runningTests
    rw [List.length_insertionSort, List.length_map]
  unfold progressOf
  simp only [hrunning, h.total, h.finished]
  omega

theorem Tracked.settle {pend : List Admitted} {running : Running}
    (h : Tracked cfg items s pend [running.item]) (hitems : (items.map key).Nodup)
    (outcome : TestOutcome)
    : ∃ s', s.settle cfg running outcome = .ok s' ∧ Tracked cfg items s' pend [] := by
  rcases settle_cases s cfg with ⟨_, hsettle⟩ | ⟨_, stats, tripped, hended, hsettle⟩
  . have hemit : Tracked cfg items (s.emitRetrying running outcome) pend [running.item] := by
      apply h.emit
      rfl
    obtain ⟨sched, a, hok, _, _, htracked⟩ := hemit.file hitems (running.attempt + 1)
    exact ⟨_, hsettle.trans hok, htracked⟩
  . refine ⟨_, hsettle, ?_⟩
    have hterminal : Tracked cfg items { s.emitFinished running outcome with stats } pend [] := by
      apply h.terminal
      . rfl
      . cases hended <;> simp only [RunStats.finished, RunStats.ran] <;> omega
      . cases hended <;> rfl
    exact hterminal.of_frame rfl rfl rfl rfl rfl rfl rfl

theorem settle_ok_open {running : Running} {outcome : TestOutcome}
    (h : s.settle cfg running outcome = .ok s') (hopen : Open s')
    : Open s := by
  rcases settle_cases s cfg with ⟨⟨_, _, htripped, hflag⟩, _⟩ | ⟨_, stats, tripped, hended, hsettle⟩
  . exact ⟨htripped, hflag⟩
  . rw [hsettle] at h
    cases h
    refine ⟨?_, hopen.cancelFlag⟩
    have htripped : tripped = false := hopen.failFastTripped
    cases hended with
    | passed _ => exact htripped
    | terminated _ => exact htripped
    | failed _ _ => exact (Bool.or_eq_false_iff.mp htripped).1

theorem LoopInv.of_pump (h : Tracked cfg items s [] [])
    (hcap : ∀ cap, cfg.maxInflight = some cap → s.inflight.entries.length ≤ cap) (now : Nat)
    : LoopInv cfg items ((s.pump cfg now).publishDemand cfg) := by
  have hpumped := pumped s cfg now
  have htracked := h.pump now
  have hcapped : ∀ cap, cfg.maxInflight = some cap →
      (s.pump cfg now).inflight.entries.length ≤ cap := by
    intro cap hmax
    exact hpumped.capped cap hmax (hcap cap hmax)
  unfold publishDemand
  split
  . next hreservation =>
    constructor
    . exact htracked.of_frame rfl rfl rfl rfl rfl rfl rfl
    . exact hcapped
    . exact hpumped.full
    . intro _
      exact ⟨_, rfl, rfl, rfl, htracked.queued_progressOf⟩
  . next hreservation =>
    constructor
    . exact htracked
    . exact hcapped
    . exact hpumped.full
    . intro hres
      exact absurd hres hreservation

theorem LoopInv.of_admitGrants (h : Tracked cfg items s grants [])
    (hcap : ∀ cap, cfg.maxInflight = some cap → s.inflight.entries.length ≤ cap) (now : Nat)
    (hopen : Open ((s.admitGrants cfg grants now).publishDemand cfg))
    : LoopInv cfg items ((s.admitGrants cfg grants now).publishDemand cfg) := by
  rw [admitGrants_of_open (hopen.of_frame (publishDemand_frame _ _)).of_admitGrants]
  apply LoopInv.of_pump
  . exact h.placeGrants.2
  . rw [(placed s grants).inflight]
    exact hcap

theorem Tracked.release {lease : SlotId} (h : Tracked cfg items s [] []) (hmem : lease ∈ s.futs)
    : ∃ running t sched grants, s.inflight.lookup lease = some running
        ∧ s.sched.release lease = .ok (sched, grants) ∧ Scheduler.Rescheduled t sched grants
        ∧ t.available = s.sched.available ∧ t.queue = s.sched.queue
        ∧ t.leases.keys = s.sched.leases.keys.erase lease ∧ t.Exact
        ∧ Tracked cfg items (s.released lease sched) grants [running.item] := by
  have hinflight : lease ∈ s.inflight := by
    rw [AList.mem_keys, ← h.futs.mem_iff]
    exact hmem
  have hlease : lease ∈ s.sched.leases := by
    rw [AList.mem_keys, h.slots.mem_iff]
    exact List.mem_append_left _ (List.mem_append_left _ (AList.mem_keys.mp hinflight))
  rw [← AList.lookup_isSome, Option.isSome_iff_exists] at hinflight
  obtain ⟨running, hrunning⟩ := hinflight
  obtain ⟨t, sched, grants, hrelease, hres, havailable, hqueue, hslots, hexact⟩ :=
    h.sched.release hlease
  exact ⟨running, t, sched, grants, hrunning, hrelease, hres, havailable, hqueue, hslots, hexact,
    h.released hrunning hres hqueue hslots⟩

theorem settle_inflight {running : Running} {outcome : TestOutcome}
    (h : s.settle cfg running outcome = .ok s')
    : s'.inflight = s.inflight := by
  rcases settle_cases s cfg with ⟨_, hsettle⟩ | ⟨_, stats, tripped, hended, hsettle⟩
  . rw [hsettle] at h
    unfold LoopState.file at h
    split at h
    . cases h
    . next sched a _ =>
      cases h
      cases a <;> rfl
  . rw [hsettle] at h
    cases h
    rfl

theorem settle_keeps {running : Running} {outcome : TestOutcome}
    (hsettle : s.settle cfg running outcome = .ok s')
    : s'.futs = s.futs ∧ s'.cancelFlag = s.cancelFlag := by
  rcases settle_cases s cfg with ⟨_, heq⟩ | ⟨_, stats, tripped, _, heq⟩
  . rw [heq] at hsettle
    unfold LoopState.file at hsettle
    split at hsettle
    . cases hsettle
    . next sched a _ =>
      cases hsettle
      cases a <;> exact ⟨rfl, rfl⟩
  . rw [heq] at hsettle
    cases hsettle
    exact ⟨rfl, rfl⟩

theorem LoopInv.settled {lease : SlotId} {outcome : TestOutcome} {raiseRetry : Bool}
    {running : Running} {sched : Scheduler} {t : LoopState} (h : LoopInv cfg items s)
    (hitems : (items.map key).Nodup) (hmem : lease ∈ s.futs)
    (hrunning : s.inflight.lookup lease = some running)
    (hrelease : s.sched.release lease = .ok (sched, grants))
    (hsettle : ((s.released lease sched).raise raiseRetry).settle cfg running outcome = .ok t)
    : Tracked cfg items t grants [] := by
  obtain ⟨running', _, sched', grants', hrunning', hrelease', _, _, _, _, _, htracked⟩ :=
    h.tracked.release hmem
  cases hrunning.symm.trans hrunning'
  cases hrelease.symm.trans hrelease'
  obtain ⟨t', hsettle', ht⟩ := (htracked.raise raiseRetry).settle hitems outcome
  cases hsettle.symm.trans hsettle'
  exact ht

theorem LoopInv.complete {now : Nat} {lease : SlotId} {outcome : TestOutcome}
    {raiseRetry raiseAdmit : Bool} (h : LoopInv cfg items s) (hitems : (items.map key).Nodup)
    (hok : s.complete cfg now lease outcome raiseRetry raiseAdmit = .ok s') (hopen : Open s')
    : LoopInv cfg items s' := by
  obtain ⟨running, sched, grants, t, hmem, hrunning, hrelease, hsettle, rfl⟩ := complete_ok hok
  have ht := h.settled hitems hmem hrunning hrelease hsettle
  apply LoopInv.of_admitGrants (ht.raise raiseAdmit) ?_ now hopen
  intro cap hcap
  show t.inflight.entries.length ≤ cap
  rw [settle_inflight hsettle]
  have hperm := (AList.entries_perm_of_lookup hrunning).length_eq
  have hle := h.capped cap hcap
  rw [List.length_cons] at hperm
  show (s.inflight.erase lease).entries.length ≤ cap
  omega

theorem LoopInv.moveCeiling {now : Nat} {newCeiling : Resources} {raiseAdmit : Bool}
    (h : LoopInv cfg items s) (hok : s.moveCeiling cfg now newCeiling raiseAdmit = .ok s')
    (hopen : Open s')
    : LoopInv cfg items s' := by
  obtain ⟨sched, grants, hreconcile, hres⟩ := h.tracked.sched.reconcile newCeiling
  obtain ⟨sched', grants', _, hreconcile', rfl⟩ := moveCeiling_ok hok
  cases hreconcile.symm.trans hreconcile'
  have htracked := (h.tracked.reconcile hres rfl rfl).raise raiseAdmit
  exact LoopInv.of_admitGrants htracked h.capped now hopen

theorem terminalKey_slowEvents {now after : Nat} {ev : TestEvent} (h : ev ∈ s.slowEvents now after)
    : ev.terminalKey = none ∧ ev.completion = none := by
  unfold slowEvents at h
  rw [List.mem_filterMap] at h
  obtain ⟨e, _, hev⟩ := h
  split at hev
  . cases hev
    exact ⟨rfl, rfl⟩
  . cases hev

theorem Frame.tick (s : LoopState) (cfg : LoopConfig) (now : Nat) : Frame s (s.tick cfg now) := by
  unfold LoopState.tick
  split
  . exact .refl s
  . next after _ =>
    refine ⟨rfl, rfl, rfl, rfl, rfl, ?_, ?_⟩
    . have hnone : ((s.markSlow now after).slowEvents now after).filterMap TestEvent.terminalKey
          = [] := by
        rw [List.filterMap_eq_nil_iff]
        exact fun ev hev => (terminalKey_slowEvents hev).1
      show (s.events ++ (s.markSlow now after).slowEvents now after).filterMap _ = _
      rw [List.filterMap_append, hnone, List.append_nil]
      rfl
    . have hnone : ((s.markSlow now after).slowEvents now after).filterMap TestEvent.completion
          = [] := by
        rw [List.filterMap_eq_nil_iff]
        exact fun ev hev => (terminalKey_slowEvents hev).2
      show (s.events ++ (s.markSlow now after).slowEvents now after).filterMap _ = _
      rw [List.filterMap_append, hnone, List.append_nil]

theorem tick_places (s : LoopState) (cfg : LoopConfig) (now : Nat)
    : (s.tick cfg now).inflight.keys = s.inflight.keys
        ∧ (s.tick cfg now).inflightItems = s.inflightItems
        ∧ (s.tick cfg now).ready = s.ready ∧ (s.tick cfg now).parked = s.parked
        ∧ (s.tick cfg now).futs = s.futs ∧ (s.tick cfg now).report = s.report := by
  unfold tick
  split
  . exact ⟨rfl, rfl, rfl, rfl, rfl, rfl⟩
  . refine ⟨AList.keys_mapVals _ _, ?_, rfl, rfl, rfl, rfl⟩
    simp [inflightItems, markSlow, AList.mapVals]

theorem Tracked.tick (h : Tracked cfg items s [] []) (now : Nat)
    : Tracked cfg items (s.tick cfg now) [] [] := by
  have hframe := Frame.tick s cfg now
  obtain ⟨hkeys, hinflight, hready, hparked, hfuts, _⟩ := tick_places s cfg now
  apply h.relocate
  . exact hframe.terminalKeys
  . exact hframe.stats
  . unfold liveItems readyItems parkedItems
    rw [hinflight, hready, hparked]
  . rw [hframe.sched]
    exact h.sched
  . rw [hframe.sched, hkeys, readySlots, hready]
    exact h.slots
  . rw [hframe.sched, hparked]
    exact h.waiting
  . rw [hparked]
    exact h.parkedKey
  . rw [hframe.sched, hparked]
    exact h.requests
  . rw [hfuts, hkeys]
    exact h.futs

theorem LoopInv.tick (h : LoopInv cfg items s) (now : Nat)
    : LoopInv cfg items (s.tick cfg now) := by
  obtain ⟨hkeys, _, hready, hparked, _, hreport⟩ := tick_places s cfg now
  have hlength : (s.tick cfg now).inflight.entries.length = s.inflight.entries.length := by
    have := congrArg List.length hkeys
    simpa [AList.keys, List.keys] using this
  constructor
  . exact h.tracked.tick now
  . rw [hlength]
    exact h.capped
  . rw [hlength, hready]
    exact h.full
  . rw [hready, hparked, hreport, (Frame.tick s cfg now).sched]
    exact h.reported

theorem Frame.loopTop_flags (s : LoopState)
    : s.loopTop.failFastTripped = s.failFastTripped ∧ s.loopTop.cancelFlag = s.cancelFlag := by
  unfold loopTop
  split <;> exact ⟨rfl, rfl⟩

theorem Open.loopTop_eq (h : Open s) : s.loopTop = s := by
  unfold loopTop
  rw [h.cancelFlag]
  simp

theorem runArm_open {arm : Arm} {now : Nat} (h : s.runArm cfg arm now = .ok s') (hopen : Open s')
    : Open s := by
  cases arm with
  | cancelWake =>
    rw [cancelWake_ok h] at hopen
    exact hopen.of_raise
  | complete lease outcome raiseRetry raiseAdmit =>
    obtain ⟨running, sched, grants, t, _, _, _, hsettle, rfl⟩ := complete_ok h
    have ht : Open t := (hopen.of_frame (publishDemand_frame _ _)).of_admitGrants.of_raise
    have hreleased := (settle_ok_open hsettle ht).of_raise
    exact ⟨hreleased.failFastTripped, hreleased.cancelFlag⟩
  | ceiling newCeiling raiseAdmit =>
    obtain ⟨sched, grants, _, _, rfl⟩ := moveCeiling_ok h
    have hmoved := (hopen.of_frame (publishDemand_frame _ _)).of_admitGrants.of_raise
    exact ⟨hmoved.failFastTripped, hmoved.cancelFlag⟩
  | tick =>
    cases h
    exact hopen.of_frame (Frame.tick s cfg now)

theorem step_open {input : Input} {r : Unit} (h : step cfg s input = .ok (s', r)) (hopen : Open s')
    : Open s := by
  rcases step_cases h with ⟨_, rfl⟩ | ⟨arm, now, _, _, hrun⟩
  . cases hopen.cancelFlag
  . have htop := runArm_open hrun hopen
    obtain ⟨htripped, hflag⟩ := Frame.loopTop_flags s
    exact ⟨htripped.symm.trans htop.failFastTripped, hflag.symm.trans htop.cancelFlag⟩

theorem LoopInv.step {input : Input} {r : Unit} (h : LoopInv cfg items s)
    (hitems : (items.map key).Nodup) (hok : step cfg s input = .ok (s', r)) (hopen : Open s')
    : LoopInv cfg items s' := by
  rcases step_cases hok with ⟨_, rfl⟩ | ⟨arm, now, _, _, hrun⟩
  . cases hopen.cancelFlag
  . rw [(step_open hok hopen).loopTop_eq] at hrun
    cases arm with
    | cancelWake =>
      rw [cancelWake_ok hrun] at hopen
      have hflag := hopen.cancelFlag
      simp [raise] at hflag
    | complete lease outcome raiseRetry raiseAdmit => exact h.complete hitems hrun hopen
    | ceiling newCeiling raiseAdmit => exact h.moveCeiling hrun hopen
    | tick =>
      cases hrun
      exact h.tick now

def QueueFits (s : LoopState) : Prop :=
  ∀ p ∈ s.sched.queue, p.req.footprint.fitsWithin s.sched.available = true

structure Submitted (s s' : LoopState) : Prop where
  inflight : s'.inflight = s.inflight
  futs : s'.futs = s.futs
  failFastTripped : s'.failFastTripped = s.failFastTripped
  cancelFlag : s'.cancelFlag = s.cancelFlag
  completions : s'.events.filterMap TestEvent.completion = s.events.filterMap TestEvent.completion
  failed : s'.stats.failed = s.stats.failed
  fits : s.QueueFits → s'.QueueFits

theorem Submitted.skip (s : LoopState) (item : WorkItem) (reason : SkipReason)
    : Submitted s (s.skip item reason) := by
  constructor
  . rfl
  . rfl
  . rfl
  . rfl
  . simp [LoopState.skip, emit, TestEvent.completion]
  . rfl
  . exact fun h => h

theorem Submitted.filed {item : WorkItem} {attempt : Nat} {sched : Scheduler}
    {a : Admission SlotId} (hfiled : Scheduler.Filed s.sched (toRequest item cfg.sa) sched a)
    (havailable : sched.available = s.sched.available)
    : Submitted s (s.filed item attempt sched a) := by
  cases hfiled with
  | rejected reason _ => exact .skip s item (skipReason reason)
  | granted _ slotId _ hqueue _ =>
    refine ⟨rfl, rfl, rfl, rfl, rfl, rfl, ?_⟩
    intro h
    unfold QueueFits LoopState.filed
    simp only [hqueue, havailable]
    exact h
  | queued _ p hfits hreq hqueue _ _ =>
    refine ⟨rfl, rfl, rfl, rfl, rfl, rfl, ?_⟩
    intro h q hq
    simp only [LoopState.filed, hqueue, havailable, List.mem_append, List.mem_singleton] at hq ⊢
    cases hq with
    | inl hq => exact h q hq
    | inr hq =>
      subst hq
      rw [hreq]
      exact hfits

theorem Submitted.trans {t : LoopState} (h : Submitted s t) (h' : Submitted t s')
    : Submitted s s' := by
  constructor
  . exact h'.inflight.trans h.inflight
  . exact h'.futs.trans h.futs
  . exact h'.failFastTripped.trans h.failFastTripped
  . exact h'.cancelFlag.trans h.cancelFlag
  . exact h'.completions.trans h.completions
  . exact h'.failed.trans h.failed
  . exact fun hfits => h'.fits (h.fits hfits)

theorem Tracked.submit {item : WorkItem} {rest : List WorkItem}
    (h : Tracked cfg items s [] (item :: rest)) (hitems : (items.map key).Nodup)
    : ∃ s', s.submit cfg item = .ok s' ∧ Tracked cfg items s' [] rest ∧ Submitted s s' := by
  unfold LoopState.submit
  split
  . next reason _ => exact ⟨_, rfl, h.skip reason, .skip s item reason⟩
  . obtain ⟨sched, a, hok, hfiled, havailable, htracked⟩ := h.file hitems 1
    exact ⟨_, hok, htracked, .filed hfiled havailable⟩

theorem Tracked.submitAll {rest : List WorkItem} (h : Tracked cfg items s [] rest)
    (hitems : (items.map key).Nodup)
    : ∃ s', s.submitAll cfg rest = .ok s' ∧ Tracked cfg items s' [] [] ∧ Submitted s s' := by
  induction rest generalizing s with
  | nil => exact ⟨s, rfl, h, rfl, rfl, rfl, rfl, rfl, rfl, fun hfits => hfits⟩
  | cons item rest ih =>
    obtain ⟨t, hok, ht, hsubmitted⟩ := h.submit hitems
    obtain ⟨s', hrest, hs', hsubmitted'⟩ := ih ht
    refine ⟨s', ?_, hs', hsubmitted.trans hsubmitted'⟩
    simp only [LoopState.submitAll, hok]
    exact hrest

theorem Tracked.init (cfg : LoopConfig) (items : List WorkItem) (ceiling : Resources)
    (cancelFlag : Bool) (now : Nat)
    : Tracked cfg items (init cfg items ceiling cancelFlag now) [] items := by
  constructor
  . exact .new ceiling
  . exact List.Perm.refl _
  . exact fun item hitem => hitem
  . exact List.Perm.refl _
  . exact List.Perm.refl _
  . intro k v hv
    cases hv
  . intro p hp
    cases hp
  . exact List.Perm.refl _
  . rfl
  . rfl

theorem start_spec (cfg : LoopConfig) (ceiling : Resources) (cancelFlag : Bool) (now : Nat)
    (hitems : (items.map key).Nodup)
    : ∃ s, start cfg items ceiling cancelFlag now = .ok ((s.pump cfg now).publishDemand cfg)
        ∧ Tracked cfg items s [] [] ∧ Submitted (init cfg items ceiling cancelFlag now) s := by
  obtain ⟨s, hok, htracked, hsubmitted⟩ :=
    (Tracked.init cfg items ceiling cancelFlag now).submitAll hitems
  refine ⟨s, ?_, htracked, hsubmitted⟩
  simp only [start, hok]

theorem LoopInv.start {ceiling : Resources} {cancelFlag : Bool} {now : Nat}
    (hitems : (items.map key).Nodup)
    (hok : LoopState.start cfg items ceiling cancelFlag now = .ok s)
    : LoopInv cfg items s := by
  obtain ⟨t, hstart, htracked, hsubmitted⟩ := start_spec cfg ceiling cancelFlag now hitems
  rw [hstart] at hok
  cases hok
  apply LoopInv.of_pump htracked
  rw [hsubmitted.inflight]
  exact fun cap _ => Nat.zero_le cap

theorem run_ok {ceiling : Resources} {cancelFlag : Bool} {now : Nat} {inputs : List Input}
    (h : run cfg items ceiling cancelFlag now inputs = .ok s)
    : ∃ s₀, start cfg items ceiling cancelFlag now = .ok s₀
        ∧ Run.exec (step cfg) s₀ inputs = .ok s := by
  unfold run at h
  split at h
  . next s₀ hstart => exact ⟨s₀, hstart, h⟩
  . cases h

theorem LoopInv.exec {inputs : List Input} (h : LoopInv cfg items s)
    (hitems : (items.map key).Nodup) (hexec : Run.exec (LoopState.step cfg) s inputs = .ok s')
    (hopen : Open s')
    : LoopInv cfg items s' := by
  suffices hinv : Open s' → LoopInv cfg items s' from hinv hopen
  apply Run.exec_invariant ?_ (fun _ => h) hexec
  intro s i s' r hs hstep hopen
  exact (hs (step_open hstep hopen)).step hitems hstep hopen

def occurrences (s : LoopState) (k : String × String) : Nat :=
  s.terminalKeys.count k + (s.inflightItems.map key).count k + (s.readyItems.map key).count k
    + s.parked.keys.count k

/--
What `run_loop` promises about a test's life at the top of an iteration.
-/
structure Accounted (cfg : LoopConfig) (items : List WorkItem) (s : LoopState) : Prop where
  once : ∀ item ∈ items, s.occurrences (key item) = 1
  live : ∀ item ∈ s.liveItems, item ∈ items
  slots : s.sched.leases.keys.Perm (s.inflight.keys ++ s.readySlots)
  waiting : s.parked.keys.Perm s.sched.waiting
  capped : ∀ cap, cfg.maxInflight = some cap → s.inflight.entries.length ≤ cap
  releaseFound : ∀ lease outcome raiseRetry running sched grants t, lease ∈ s.futs →
    s.inflight.lookup lease = some running → s.sched.release lease = .ok (sched, grants) →
    ((s.released lease sched).raise raiseRetry).settle cfg running outcome = .ok t →
    t.AllFound grants
  reconcileFound : ∀ newCeiling sched grants, s.sched.reconcile newCeiling = .ok (sched, grants) →
    AllFound { s with sched } grants
  beacon : cfg.reservation = true → ∃ r, s.report = some r
    ∧ r.progress.queued = s.parked.entries.length + s.ready.length

theorem Tracked.occurrences_eq (h : Tracked cfg items s [] []) (k : String × String)
    : s.occurrences k = (items.map key).count k := by
  rw [← h.keys.count_eq]
  unfold occurrences liveItems
  simp only [List.append_nil, List.map_append, List.count_append, h.map_parkedItems]
  omega

theorem LoopInv.releaseFound (h : LoopInv cfg items s) (hitems : (items.map key).Nodup)
    {lease : SlotId} {outcome : TestOutcome} {raiseRetry : Bool} {running : Running}
    {sched : Scheduler} {t : LoopState} (hmem : lease ∈ s.futs)
    (hrunning : s.inflight.lookup lease = some running)
    (hrelease : s.sched.release lease = .ok (sched, grants))
    (hsettle : ((s.released lease sched).raise raiseRetry).settle cfg running outcome = .ok t)
    : t.AllFound grants := by
  exact (h.settled hitems hmem hrunning hrelease hsettle).placeGrants.1

theorem LoopInv.reconcileFound (h : LoopInv cfg items s) {newCeiling : Resources}
    {sched : Scheduler} (hreconcile : s.sched.reconcile newCeiling = .ok (sched, grants))
    : AllFound { s with sched } grants := by
  obtain ⟨sched', grants', hreconcile', hres⟩ := h.tracked.sched.reconcile newCeiling
  cases hreconcile.symm.trans hreconcile'
  exact (h.tracked.reconcile hres rfl rfl).placeGrants.1

theorem run_accounted (cfg : LoopConfig) (items : List WorkItem) (ceiling : Resources)
    (cancelFlag : Bool) (now : Nat) (inputs : List Input) (s : LoopState)
    (hitems : (items.map key).Nodup)
    (hrun : run cfg items ceiling cancelFlag now inputs = .ok s)
    (htripped : s.failFastTripped = false) (hcancel : s.cancelFlag = false)
    : Accounted cfg items s := by
  obtain ⟨s₀, hstart, hexec⟩ := run_ok hrun
  have hinv := (LoopInv.start hitems hstart).exec hitems hexec ⟨htripped, hcancel⟩
  constructor
  . intro item hitem
    rw [hinv.tracked.occurrences_eq]
    exact List.count_eq_one_of_mem hitems (List.mem_map_of_mem hitem)
  . intro item hitem
    exact hinv.tracked.live item (List.mem_append_left _ hitem)
  . simpa using hinv.tracked.slots
  . simpa using hinv.tracked.waiting
  . exact hinv.capped
  . intro _ _ _ _ _ _ _ hmem hrunning hrelease hsettle
    exact hinv.releaseFound hitems hmem hrunning hrelease hsettle
  . intro _ _ _ hreconcile
    exact hinv.reconcileFound hreconcile
  . intro hreservation
    obtain ⟨r, hreport, _, _, hqueued⟩ := hinv.reported hreservation
    exact ⟨r, hreport, hqueued⟩

-- `a` fails and queues again behind `b`, which takes the whole ceiling.
theorem run_accounted_retry_behind_grant
    : ∃ s, run ⟨false, none, "acme", "run", ∅, some 2, true, true⟩
          [⟨"bin", "a", .wallet, ⟨2, 2, 0, 0, 0⟩, 1, []⟩, ⟨"bin", "b", .wallet, ⟨4, 4, 0, 0, 0⟩, 0, []⟩]
          ⟨4, 4, 0, 0, 0⟩ false 0
          [.select (.complete ⟨0⟩ ⟨.fail 1, [], [], 1⟩ false false) 1] = .ok s
        ∧ s.occurrences ("bin", "a") = 1 ∧ ("bin", "a") ∈ s.parked.keys
        ∧ s.report.map (·.progress.queued) = some 1 := by
  refine ⟨_, rfl, ?_, by decide, rfl⟩
  have h := run_accounted ⟨false, none, "acme", "run", ∅, some 2, true, true⟩
    [⟨"bin", "a", .wallet, ⟨2, 2, 0, 0, 0⟩, 1, []⟩, ⟨"bin", "b", .wallet, ⟨4, 4, 0, 0, 0⟩, 0, []⟩]
    ⟨4, 4, 0, 0, 0⟩ false 0 [.select (.complete ⟨0⟩ ⟨.fail 1, [], [], 1⟩ false false) 1] _
    (by decide) rfl rfl rfl
  exact h.once ⟨"bin", "a", .wallet, ⟨2, 2, 0, 0, 0⟩, 1, []⟩ List.mem_cons_self

end LoopState
end Engine
