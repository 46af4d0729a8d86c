import Ztest.Engine.Schedule.Lemmas.Invariant

/-!
This module shows that the run loop knows no tests but those it was given, also once fail-fast or a
cancellation has closed it, and that a test one of whose dependencies failed, or is blocked, is skipped
before anything is submitted, with the stream of events as it was.
-/

namespace Engine
namespace LoopState

section Selection

open Qos

variable {cfg : LoopConfig} {items : List WorkItem} {s s' : LoopState} {grants : List Admitted}

structure Selected (items : List WorkItem) (s : LoopState) : Prop where
  inflight : ∀ e ∈ s.inflight.entries, e.2.item ∈ items
  ready : ∀ e ∈ s.ready, e.2.1 ∈ items
  parked : ∀ e ∈ s.parked.entries, e.2.1 ∈ items
  ended : ∀ k ∈ s.terminalKeys, k ∈ items.map key

theorem Selected.emit (h : Selected items s) {ev : TestEvent}
    (hev : ∀ k, ev.terminalKey = some k → k ∈ items.map key)
    : Selected items (s.emit ev) := by
  refine ⟨h.inflight, h.ready, h.parked, ?_⟩
  intro k hk
  rw [terminalKeys_emit] at hk
  rcases List.mem_append.mp hk with hk | hk
  . exact h.ended k hk
  . exact hev k (Option.mem_toList.mp hk)

theorem Selected.skip (h : Selected items s) {item : WorkItem} (hitem : item ∈ items) (reason : SkipReason)
    : Selected items (s.skip item reason) := by
  have hemit : Selected items (s.emit (.testSkipped item.binaryId item.testName reason)) := by
    apply h.emit
    intro k hk
    cases hk
    exact List.mem_map_of_mem hitem
  exact ⟨hemit.inflight, hemit.ready, hemit.parked, hemit.ended⟩

theorem Selected.spawn (now : Nat) {slot : SlotId} {item : WorkItem} {attempt : Nat}
    {rest : List (SlotId × WorkItem × Nat)} (h : Selected items { s with ready := (slot, item, attempt) :: rest })
    : Selected items { s.spawnGranted now slot item attempt with ready := rest } := by
  have hready := h.ready
  rw [List.forall_mem_cons] at hready
  have hemit : Selected items ({ s with ready := (slot, item, attempt) :: rest }.emit
      (.testStarted item.binaryId item.testName item.cls attempt)) := by
    apply h.emit
    intro k hk
    cases hk
  refine ⟨?_, hready.2, hemit.parked, hemit.ended⟩
  intro e he
  rw [LoopState.spawnGranted] at he
  rw [AList.entries_insert] at he
  rcases List.mem_cons.mp he with rfl | he
  . exact hready.1
  . exact h.inflight e ((List.kerase_sublist _ _).subset he)

theorem Selected.pump (h : Selected items s) (now : Nat) : Selected items (s.pump cfg now) :=
  pump_induction (fun _ _ _ _ _ h => h.spawn now) h

theorem Selected.placeGrant (h : Selected items s) (g : Admitted) : Selected items (s.placeGrant g) := by
  unfold LoopState.placeGrant
  split
  . next item attempt hlookup =>
    refine ⟨h.inflight, ?_, ?_, h.ended⟩
    . intro e he
      rcases List.mem_append.mp he with he | he
      . exact h.ready e he
      . cases List.mem_singleton.mp he
        exact h.parked _ (AList.mem_lookup_iff.mp hlookup)
    . intro e he
      exact h.parked e ((List.kerase_sublist _ _).subset he)
  . exact h

theorem Selected.admitGrants (h : Selected items s) (grants : List Admitted) (now : Nat)
    : Selected items (s.admitGrants cfg grants now) :=
  admitGrants_induction (fun _ g h => h.placeGrant g) (fun _ _ _ _ _ h => h.spawn now) h

theorem Selected.publishDemand (h : Selected items s) : Selected items (s.publishDemand cfg) := by
  unfold LoopState.publishDemand
  split
  . exact ⟨h.inflight, h.ready, h.parked, h.ended⟩
  . exact h

theorem Selected.file (h : Selected items s) {item : WorkItem} (hitem : item ∈ items) {attempt : Nat}
    (hok : s.file cfg item attempt = .ok s')
    : Selected items s' := by
  unfold LoopState.file at hok
  split at hok
  . cases hok
  . next sched a _ =>
    cases hok
    cases a with
    | granted lease =>
      refine ⟨h.inflight, ?_, h.parked, h.ended⟩
      intro e he
      rcases List.mem_append.mp he with he | he
      . exact h.ready e he
      . cases List.mem_singleton.mp he
        exact hitem
    | queued =>
      refine ⟨h.inflight, h.ready, ?_, h.ended⟩
      intro e he
      rw [LoopState.filed] at he
      rw [AList.entries_insert] at he
      rcases List.mem_cons.mp he with rfl | he
      . exact hitem
      . exact h.parked e ((List.kerase_sublist _ _).subset he)
    | rejected reason =>
      have hsched : Selected items { s with sched } := ⟨h.inflight, h.ready, h.parked, h.ended⟩
      exact hsched.skip hitem (skipReason reason)

theorem Selected.settle (h : Selected items s) {running : Running} {outcome : TestOutcome} (hitem : running.item ∈ items)
    (hok : s.settle cfg running outcome = .ok s')
    : Selected items s' := by
  rcases settle_cases s cfg with ⟨_, heq⟩ | ⟨_, stats, tripped, _, heq⟩
  . rw [heq] at hok
    have hemit : Selected items (s.emitRetrying running outcome) := by
      apply h.emit
      intro k hk
      cases hk
    exact hemit.file hitem hok
  . rw [heq] at hok
    cases hok
    have hemit : Selected items (s.emitFinished running outcome) := by
      apply h.emit
      intro k hk
      cases hk
      exact List.mem_map_of_mem hitem
    exact ⟨hemit.inflight, hemit.ready, hemit.parked, hemit.ended⟩

theorem Selected.raise (h : Selected items s) (flag : Bool) : Selected items (s.raise flag) :=
  ⟨h.inflight, h.ready, h.parked, h.ended⟩

theorem Selected.tick (h : Selected items s) (now : Nat) : Selected items (s.tick cfg now) := by
  rcases tick_places s cfg now with ⟨_, hinflight, hready, hparked, _, _⟩
  refine ⟨?_, ?_, ?_, ?_⟩
  . intro e he
    have hmem : e.2.item ∈ s.inflightItems := by
      rw [← hinflight]
      exact List.mem_map_of_mem he
    rcases List.mem_map.mp hmem with ⟨e', he', heq⟩
    rw [← heq]
    exact h.inflight e' he'
  . rw [hready]
    exact h.ready
  . rw [hparked]
    exact h.parked
  . rw [(Frame.tick s cfg now).terminalKeys]
    exact h.ended

theorem Selected.loopTop (h : Selected items s) : Selected items s.loopTop := by
  unfold LoopState.loopTop
  split
  . have hemit : Selected items (s.emit (.runCancelling .interrupt s.inflight.entries.length)) := by
      apply h.emit
      intro k hk
      cases hk
    exact ⟨hemit.inflight, hemit.ready, hemit.parked, hemit.ended⟩
  . exact h

theorem Selected.runArm (h : Selected items s) {arm : Arm} {now : Nat} (hok : s.runArm cfg arm now = .ok s')
    : Selected items s' := by
  cases arm with
  | cancelWake =>
    rw [cancelWake_ok hok]
    exact h.raise true
  | complete lease outcome raiseRetry raiseAdmit =>
    rcases complete_ok hok with ⟨running, sched, grants, t, _, hrunning, _, hsettle, rfl⟩
    have hreleased : Selected items (s.released lease sched) := by
      refine ⟨?_, h.ready, h.parked, h.ended⟩
      intro e he
      exact h.inflight e ((List.kerase_sublist _ _).subset he)
    have hitem := h.inflight _ (AList.mem_lookup_iff.mp hrunning)
    have ht := (hreleased.raise raiseRetry).settle hitem hsettle
    exact ((ht.raise raiseAdmit).admitGrants grants now).publishDemand
  | ceiling newCeiling raiseAdmit =>
    rcases moveCeiling_ok hok with ⟨sched, grants, _, _, rfl⟩
    have hsched : Selected items { s with sched } := ⟨h.inflight, h.ready, h.parked, h.ended⟩
    exact ((hsched.raise raiseAdmit).admitGrants grants now).publishDemand
  | tick =>
    cases hok
    exact h.tick now

theorem Selected.step {input : Input} {r : Unit} (h : Selected items s) (hok : step cfg s input = .ok (s', r))
    : Selected items s' := by
  rcases step_cases hok with ⟨_, rfl⟩ | ⟨arm, now, _, _, hrun⟩
  . exact ⟨h.inflight, h.ready, h.parked, h.ended⟩
  . exact h.loopTop.runArm hrun

theorem Selected.submitAll {rest : List WorkItem} (h : Selected items s) (hrest : rest ⊆ items)
    (hok : s.submitAll cfg rest = .ok s')
    : Selected items s' := by
  induction rest generalizing s with
  | nil =>
    cases hok
    exact h
  | cons item rest ih =>
    rw [List.cons_subset] at hrest
    unfold LoopState.submitAll at hok
    split at hok
    . next t ht =>
      refine ih ?_ hrest.2 hok
      unfold LoopState.submit at ht
      split at ht
      . cases ht
        exact h.skip hrest.1 _
      . exact h.file hrest.1 ht
    . cases hok

theorem Selected.init (cfg : LoopConfig) (items : List WorkItem) (ceiling : Resources) (cancelFlag : Bool) (now : Nat)
    : Selected items (init cfg items ceiling cancelFlag now) := by
  constructor
  . intro e he
    cases he
  . intro e he
    cases he
  . intro e he
    cases he
  . intro k hk
    cases hk

/--
A run ends no test that is not in its work list.
-/
theorem run_selected {ceiling : Resources} {cancelFlag : Bool} {now : Nat} {inputs : List Input}
    (hrun : run cfg items ceiling cancelFlag now inputs = .ok s)
    : Selected items s := by
  rcases run_ok hrun with ⟨s₀, hstart, hexec⟩
  have hfirst : Selected items s₀ := by
    unfold LoopState.start at hstart
    split at hstart
    . next t ht =>
      cases hstart
      have hsubmitted := (Selected.init cfg items ceiling cancelFlag now).submitAll (List.Subset.refl _) ht
      exact (hsubmitted.pump now).publishDemand
    . cases hstart
  apply Run.exec_invariant ?_ hfirst hexec
  intro t input t' r ht hstep
  exact ht.step hstep

end Selection

open Qos Resource

variable {cfg : LoopConfig} {items : List WorkItem} {s s' : LoopState}

theorem events_filed (s : LoopState) (item : WorkItem) (attempt : Nat) (sched : Scheduler) (a : Admission SlotId)
    : s.events <+: (s.filed item attempt sched a).events := by
  cases a with
  | granted lease => exact List.prefix_refl _
  | queued => exact List.prefix_refl _
  | rejected reason => exact List.prefix_append _ _

theorem events_file {item : WorkItem} {attempt : Nat} (hok : s.file cfg item attempt = .ok s') : s.events <+: s'.events := by
  unfold LoopState.file at hok
  split at hok
  . cases hok
  . cases hok
    exact events_filed ..

theorem events_submit {item : WorkItem} (hok : s.submit cfg item = .ok s') : s.events <+: s'.events := by
  unfold LoopState.submit at hok
  split at hok
  . cases hok
    exact List.prefix_append _ _
  . exact events_file hok

theorem events_submitAll {rest : List WorkItem} (hok : s.submitAll cfg rest = .ok s') : s.events <+: s'.events := by
  induction rest generalizing s with
  | nil =>
    cases hok
    exact List.prefix_refl _
  | cons item rest ih =>
    unfold LoopState.submitAll at hok
    split at hok
    . next t ht => exact (events_submit ht).trans (ih hok)
    . cases hok

theorem events_placeGrant (s : LoopState) (g : Admitted) : (s.placeGrant g).events = s.events := by
  unfold placeGrant
  split <;> rfl

theorem events_publishDemand (s : LoopState) (cfg : LoopConfig) : (s.publishDemand cfg).events = s.events := by
  unfold publishDemand
  split <;> rfl

theorem events_admitGrants (s : LoopState) (cfg : LoopConfig) (grants : List Admitted) (now : Nat)
    : s.events <+: ((s.admitGrants cfg grants now).publishDemand cfg).events := by
  rw [events_publishDemand]
  apply admitGrants_induction (I := fun t => s.events <+: t.events) ?_ ?_ (List.prefix_refl _)
  . intro t g h
    rw [events_placeGrant]
    exact h
  . intro t slot item attempt rest h
    exact List.IsPrefix.trans h (List.prefix_append _ _)

theorem events_settle {running : Running} {outcome : TestOutcome} (hok : s.settle cfg running outcome = .ok s')
    : s.events <+: s'.events := by
  rcases settle_cases s cfg with ⟨_, heq⟩ | ⟨_, stats, tripped, _, heq⟩
  . rw [heq] at hok
    exact (List.prefix_append _ _).trans (events_file hok)
  . rw [heq] at hok
    cases hok
    exact List.prefix_append _ _

theorem events_runArm {arm : Arm} {now : Nat} (hok : s.runArm cfg arm now = .ok s') : s.events <+: s'.events := by
  cases arm with
  | cancelWake =>
    rw [cancelWake_ok hok]
    exact List.prefix_refl _
  | complete lease outcome raiseRetry raiseAdmit =>
    rcases complete_ok hok with ⟨running, sched, grants, t, _, _, _, hsettle, rfl⟩
    have ht : ((s.released lease sched).raise raiseRetry).events <+: t.events := events_settle hsettle
    exact ht.trans (events_admitGrants (t.raise raiseAdmit) cfg grants now)
  | ceiling newCeiling raiseAdmit =>
    rcases moveCeiling_ok hok with ⟨sched, grants, _, _, rfl⟩
    exact events_admitGrants ({ s with sched }.raise raiseAdmit) cfg grants now
  | tick =>
    cases hok
    unfold tick
    split
    . exact List.prefix_refl _
    . exact List.prefix_append _ _

theorem events_step {input : Input} {r : Unit} (hok : step cfg s input = .ok (s', r)) : s.events <+: s'.events := by
  rcases step_cases hok with ⟨_, rfl⟩ | ⟨arm, now, _, _, hrun⟩
  . exact List.prefix_refl _
  . have htop : s.events <+: s.loopTop.events := by
      unfold loopTop
      split
      . exact List.prefix_append _ _
      . exact List.prefix_refl _
    exact htop.trans (events_runArm hrun)

theorem submitAll_skips {rest : List WorkItem} (hok : s.submitAll cfg rest = .ok s') {item : WorkItem} (hitem : item ∈ rest)
    {reason : SkipReason} (hunmet : unmetDep item cfg.resources = some reason)
    : .testSkipped item.binaryId item.testName reason ∈ s'.events := by
  induction rest generalizing s with
  | nil => cases hitem
  | cons head rest ih =>
    unfold LoopState.submitAll at hok
    split at hok
    . next t ht =>
      rcases List.mem_cons.mp hitem with rfl | hitem
      . unfold LoopState.submit at ht
        rw [hunmet] at ht
        cases ht
        exact (events_submitAll hok).subset (List.mem_append_right _ List.mem_cons_self)
      . exact ih hok hitem
    . cases hok

theorem unmetDep_of_mem {item : WorkItem} {resources : AList (fun _ : NodeId => NodeState)} {dep : NodeId}
    (hdep : dep ∈ item.deps) (hstate : (∃ detail, resources.lookup dep = some (.failed detail)) ∨ resources.lookup dep = some .blocked)
    : ∃ resource, unmetDep item resources = some (.dependencyUnavailable resource) := by
  unfold unmetDep
  generalize item.deps = deps at hdep
  induction deps with
  | nil => cases hdep
  | cons head deps ih =>
    unfold unmetDep.go
    split
    . exact ⟨_, rfl⟩
    . exact ⟨_, rfl⟩
    . next hfailed hblocked =>
      rcases List.mem_cons.mp hdep with rfl | hdep
      . rcases hstate with ⟨detail, hstate⟩ | hstate
        . exact absurd hstate (hfailed detail)
        . exact absurd hstate hblocked
      . exact ih hdep

theorem run_skips_unmet {ceiling : Resources} {cancelFlag : Bool} {now : Nat} {inputs : List Input}
    (hrun : run cfg items ceiling cancelFlag now inputs = .ok s) {item : WorkItem} (hitem : item ∈ items)
    {reason : SkipReason} (hunmet : unmetDep item cfg.resources = some reason)
    : .testSkipped item.binaryId item.testName reason ∈ s.events := by
  rcases run_ok hrun with ⟨s₀, hstart, hexec⟩
  have hfirst : .testSkipped item.binaryId item.testName reason ∈ s₀.events := by
    unfold LoopState.start at hstart
    split at hstart
    . next t ht =>
      cases hstart
      rw [events_publishDemand]
      apply pump_induction (I := fun t => .testSkipped item.binaryId item.testName reason ∈ t.events) ?_
        (submitAll_skips ht hitem hunmet)
      intro u slot item attempt rest h
      exact List.mem_append_left _ h
    . cases hstart
  refine Run.exec_invariant (I := fun t => .testSkipped item.binaryId item.testName reason ∈ t.events) ?_ hfirst hexec
  intro t input t' r ht hstep
  exact (events_step hstep).subset ht

end LoopState
end Engine
