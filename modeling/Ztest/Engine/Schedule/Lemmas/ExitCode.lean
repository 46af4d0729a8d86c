import Ztest.Engine.Schedule.Lemmas.Drain

/-!
This module is about the exit status of a run. It is a function of the tally, so a failing attempt
has to reach `failed` before the loop ends. A retry that is parked or ready when the loop ends, or
that the scheduler rejects, leaves it in neither counter that makes a run red.
-/

namespace Engine

def Verdict.failing : Verdict → Bool
  | .fail _ => true
  | .timeout => true
  | .spawnError => true
  | _ => false

namespace LoopState

open Qos

variable {cfg : LoopConfig} {items : List WorkItem} {s s' : LoopState}

def completions (s : LoopState) : List ((String × String) × Verdict) :=
  s.events.filterMap TestEvent.completion

def lastVerdict (s : LoopState) (k : String × String) : Option Verdict :=
  ((s.completions.filter (·.1 = k)).getLast?).map (·.2)

/--
What the exit status says about the run: `ok` only if every test passed, and red as soon as the last
completed attempt of some test failed.
-/
structure Honest (items : List WorkItem) (s : LoopState) (cancelled : Bool) : Prop where
  ok : exitCode s.stats cancelled = .ok → s.stats.passed = items.length
  failed : ∀ item ∈ items, ∀ verdict, s.lastVerdict (key item) = some verdict →
    verdict.failing = true → exitCode s.stats cancelled = .testRunFailed

-- The completion ends admission for good: fail-fast tripped or trips now, or the run is cancelled.
def ClosesShort (cfg : LoopConfig) (s : LoopState) (running : Running) (outcome : TestOutcome)
    (raised : Bool) : Prop :=
  s.failFastTripped = true ∨ s.cancelFlag = true ∨ raised = true
    ∨ (cfg.failFast = true ∧ outcome.verdict.failing = true ∧ ¬ Retriable running outcome)

/--
Unless the completion closes the run short, the ceiling in force has room for the retry it earns,
and the loop keeps going while tests are parked.
-/
def RetryAdmitted (cfg : LoopConfig) (s : LoopState) (input : Input) : Prop :=
  match input with
  | .select (.complete lease outcome raiseRetry raiseAdmit) _ =>
    ∀ running, s.inflight.lookup lease = some running →
      ¬ ClosesShort cfg s running outcome (raiseRetry || raiseAdmit) →
      (Retriable running outcome → s.FitsCeiling running.item) ∧ s.KeepsGoing input
  | _ => True

-- A failing last attempt is either counted or not the end of its test.
def Recorded (s : LoopState) : Prop :=
  ∀ k verdict, s.lastVerdict k = some verdict → verdict.failing = true →
    0 < s.stats.failed ∨ k ∉ s.terminalKeys

theorem Recorded.of_frame (h : s.Recorded) (hframe : Frame s s') : s'.Recorded := by
  unfold Recorded lastVerdict completions at h ⊢
  rw [hframe.completions, hframe.stats, hframe.terminalKeys]
  exact h

theorem completions_emit {ev : TestEvent} {k : String × String} {verdict : Verdict}
    (hev : ev.completion = some (k, verdict))
    : (s.emit ev).completions = s.completions ++ [(k, verdict)] := by
  unfold completions emit
  rw [List.filterMap_append]
  simp [hev]

theorem lastVerdict_of_completions {k k' : String × String} {verdict : Verdict}
    (h : s'.completions = s.completions ++ [(k, verdict)])
    : s'.lastVerdict k' = if k = k' then some verdict else s.lastVerdict k' := by
  unfold lastVerdict
  rw [h, List.filter_append]
  split
  . next heq =>
    subst heq
    simp
  . next hne => simp [hne]

theorem Tracked.moving_notMem_terminalKeys {pend : List Admitted} {item : WorkItem}
    (h : Tracked cfg items s pend [item]) (hitems : (items.map key).Nodup)
    : key item ∉ s.terminalKeys := by
  intro hmem
  have hnodup := h.keys.nodup_iff.mpr hitems
  rw [List.nodup_append] at hnodup
  apply hnodup.2.2 (key item) hmem (key item) ?_ rfl
  simp

theorem Recorded.settle {grants : List Admitted} {running : Running} {outcome : TestOutcome}
    (h : s.Recorded) (htracked : Tracked cfg items s grants [running.item])
    (hitems : (items.map key).Nodup) (hopen : Open s)
    (hfits : Retriable running outcome → s.FitsCeiling running.item)
    (hsettle : s.settle cfg running outcome = .ok s')
    : s'.Recorded := by
  rcases settle_cases s cfg with ⟨hretried, heq⟩ | ⟨_, stats, tripped, hended, heq⟩
  . have hyes : s.FitsCeiling running.item := hfits ((retried_iff hopen).mp hretried)
    have hemit : Tracked cfg items (s.emitRetrying running outcome) grants [running.item] :=
      htracked.emit rfl
    obtain ⟨sched, a, hok, hfiled, _, _⟩ := hemit.file hitems (running.attempt + 1)
    rw [heq, hok] at hsettle
    cases hsettle
    have hrecorded : (s.emitRetrying running outcome).Recorded := by
      intro k verdict hlast hfailing
      have hcompletions : (s.emitRetrying running outcome).completions
          = s.completions ++ [(key running.item, outcome.verdict)] := completions_emit rfl
      rw [lastVerdict_of_completions hcompletions] at hlast
      split at hlast
      . next hk =>
        subst hk
        exact .inr (hemit.moving_notMem_terminalKeys hitems)
      . have hterminal : (s.emitRetrying running outcome).terminalKeys = s.terminalKeys :=
          (terminalKeys_emit _).trans (List.append_nil _)
        rw [hterminal]
        exact h k verdict hlast hfailing
    cases hfiled with
    | rejected reason hno => exact absurd hyes (Bool.eq_false_iff.mp hno)
    | granted _ _ _ _ _ => exact hrecorded
    | queued _ _ _ _ _ _ _ => exact hrecorded
  . rw [heq] at hsettle
    cases hsettle
    intro k verdict hlast hfailing
    have hcompletions :
        completions { s.emitFinished running outcome with stats, failFastTripped := tripped }
          = s.completions ++ [(key running.item, outcome.verdict)] := completions_emit rfl
    have hterminal :
        terminalKeys { s.emitFinished running outcome with stats, failFastTripped := tripped }
          = s.terminalKeys ++ [key running.item] := terminalKeys_emit _
    rw [lastVerdict_of_completions hcompletions] at hlast
    rw [hterminal]
    split at hlast
    . cases hlast
      left
      cases hended with
      | passed hverdict =>
        rw [hverdict] at hfailing
        cases hfailing
      | terminated hverdict =>
        rw [hverdict] at hfailing
        cases hfailing
      | failed _ _ => exact Nat.succ_pos _
    . next hk =>
      cases h k verdict hlast hfailing with
      | inl hpos =>
        left
        cases hended with
        | passed _ => exact hpos
        | terminated _ => exact hpos
        | failed _ _ => exact Nat.succ_pos _
      | inr hnot =>
        right
        simp only [List.mem_append, List.mem_singleton, not_or]
        exact ⟨hnot, fun heq => hk heq.symm⟩

theorem not_closesShort_of_open {now : Nat} {lease : SlotId} {outcome : TestOutcome}
    {raiseRetry raiseAdmit : Bool} {running : Running}
    (hrunning : s.inflight.lookup lease = some running)
    (hok : s.complete cfg now lease outcome raiseRetry raiseAdmit = .ok s') (hopen : Open s')
    : ¬ ClosesShort cfg s running outcome (raiseRetry || raiseAdmit) := by
  obtain ⟨running', sched, grants, u, _, hrunning', _, hsettle, rfl⟩ := complete_ok hok
  cases hrunning.symm.trans hrunning'
  have hraised : Open (u.raise raiseAdmit) :=
    (hopen.of_frame (publishDemand_frame _ _)).of_admitGrants
  have hbefore := settle_ok_open hsettle hraised.of_raise
  have hcancel : raiseAdmit = false := (Bool.or_eq_false_iff.mp hraised.cancelFlag).2
  have hretry : raiseRetry = false := (Bool.or_eq_false_iff.mp hbefore.cancelFlag).2
  rintro (htripped | hflag | hraise | ⟨hfast, hfailing, hnot⟩)
  . exact absurd htripped (Bool.eq_false_iff.mp hbefore.of_raise.failFastTripped)
  . exact absurd hflag (Bool.eq_false_iff.mp hbefore.of_raise.cancelFlag)
  . rw [hcancel, hretry] at hraise
    cases hraise
  . rcases settle_cases ((s.released lease sched).raise raiseRetry) cfg with
      ⟨hretried, _⟩ | ⟨_, stats, tripped, hended, heq⟩
    . exact hnot ((retried_iff hbefore).mp hretried)
    . rw [heq] at hsettle
      cases hsettle
      have htripped : tripped = false := hraised.failFastTripped
      cases hended with
      | passed hverdict =>
        rw [hverdict] at hfailing
        cases hfailing
      | terminated hverdict =>
        rw [hverdict] at hfailing
        cases hfailing
      | failed _ _ =>
        rw [hfast, Bool.or_true] at htripped
        cases htripped

theorem Recorded.complete {now : Nat} {lease : SlotId} {outcome : TestOutcome}
    {raiseRetry raiseAdmit : Bool} (h : s.Recorded) (hinv : LoopInv cfg items s)
    (hitems : (items.map key).Nodup)
    (hadmitted : RetryAdmitted cfg s (.select (.complete lease outcome raiseRetry raiseAdmit) now))
    (hok : s.complete cfg now lease outcome raiseRetry raiseAdmit = .ok s') (hopen : Open s')
    : s'.Recorded := by
  obtain ⟨running, sched, grants, u, hmem, hrunning, hrelease, hsettle, rfl⟩ := complete_ok hok
  obtain ⟨_, t, sched', grants', hrunning', hrelease', hres, havailable, _, _, _, htracked⟩ :=
    hinv.tracked.release hmem
  cases hrunning.symm.trans hrunning'
  cases hrelease.symm.trans hrelease'
  have hraised : Open (u.raise raiseAdmit) :=
    (hopen.of_frame (publishDemand_frame _ _)).of_admitGrants
  have hfits := (hadmitted running hrunning (not_closesShort_of_open hrunning hok hopen)).1
  have hu : u.Recorded := by
    apply Recorded.settle (s := (s.released lease sched).raise raiseRetry) h
      (htracked.raise raiseRetry) hitems (settle_ok_open hsettle hraised.of_raise) ?_ hsettle
    intro hretry
    show running.item.footprint.fitsWithin sched.available = true
    rw [hres.available, havailable]
    exact hfits hretry
  have hraise : (u.raise raiseAdmit).Recorded := hu
  exact (hraise.of_frame (admitGrants_frame _ _ _ _)).of_frame (publishDemand_frame _ _)

theorem Recorded.step {input : Input} {r : Unit} (h : s.Recorded) (hinv : LoopInv cfg items s)
    (hitems : (items.map key).Nodup) (hadmitted : RetryAdmitted cfg s input)
    (hok : LoopState.step cfg s input = .ok (s', r)) (hopen : Open s')
    : s'.Recorded := by
  rcases step_cases hok with ⟨_, rfl⟩ | ⟨arm, now, rfl, _, hrun⟩
  . exact h
  . rw [(step_open hok hopen).loopTop_eq] at hrun
    cases arm with
    | cancelWake =>
      rw [cancelWake_ok hrun]
      exact h
    | complete lease outcome raiseRetry raiseAdmit =>
      exact h.complete hinv hitems hadmitted hrun hopen
    | ceiling newCeiling raiseAdmit =>
      obtain ⟨sched, grants, _, _, rfl⟩ := moveCeiling_ok hrun
      have hmoved : ({ s with sched }.raise raiseAdmit).Recorded := h
      exact (hmoved.of_frame (admitGrants_frame _ _ _ _)).of_frame (publishDemand_frame _ _)
    | tick =>
      cases hrun
      exact h.of_frame (Frame.tick s cfg now)

def TrippedByFailure (s : LoopState) : Prop := s.failFastTripped = true → 0 < s.stats.failed

theorem TrippedByFailure.of_frame (h : s.TrippedByFailure) (hframe : Frame s s')
    : s'.TrippedByFailure := by
  unfold TrippedByFailure at h ⊢
  rw [hframe.failFastTripped, hframe.stats]
  exact h

theorem TrippedByFailure.settle {running : Running} {outcome : TestOutcome}
    (h : s.TrippedByFailure) (hsettle : s.settle cfg running outcome = .ok s')
    : s'.TrippedByFailure := by
  rcases settle_cases s cfg with ⟨_, heq⟩ | ⟨_, stats, tripped, hended, heq⟩
  . rw [heq] at hsettle
    unfold LoopState.file at hsettle
    split at hsettle
    . cases hsettle
    . next sched a _ =>
      cases hsettle
      cases a <;> exact h
  . rw [heq] at hsettle
    cases hsettle
    intro htripped
    cases hended with
    | passed _ => exact h htripped
    | terminated _ => exact h htripped
    | failed _ _ => exact Nat.succ_pos _

theorem TrippedByFailure.runArm {arm : Arm} {now : Nat} (h : s.TrippedByFailure)
    (hok : s.runArm cfg arm now = .ok s')
    : s'.TrippedByFailure := by
  cases arm with
  | cancelWake =>
    rw [cancelWake_ok hok]
    exact h
  | complete lease outcome raiseRetry raiseAdmit =>
    obtain ⟨running, sched, grants, u, _, _, _, hsettle, rfl⟩ := complete_ok hok
    have hu : u.TrippedByFailure :=
      TrippedByFailure.settle (s := (s.released lease sched).raise raiseRetry) h hsettle
    have hraise : (u.raise raiseAdmit).TrippedByFailure := hu
    exact (hraise.of_frame (admitGrants_frame _ _ _ _)).of_frame (publishDemand_frame _ _)
  | ceiling newCeiling raiseAdmit =>
    obtain ⟨sched, grants, _, _, rfl⟩ := moveCeiling_ok hok
    have hmoved : ({ s with sched }.raise raiseAdmit).TrippedByFailure := h
    exact (hmoved.of_frame (admitGrants_frame _ _ _ _)).of_frame (publishDemand_frame _ _)
  | tick =>
    cases hok
    exact h.of_frame (Frame.tick s cfg now)

theorem TrippedByFailure.exec {inputs : List Input} (h : s.TrippedByFailure)
    (hexec : Run.exec (LoopState.step cfg) s inputs = .ok s')
    : s'.TrippedByFailure := by
  apply Run.exec_invariant ?_ h hexec
  intro s i s' r hs hstep
  rcases step_cases hstep with ⟨_, rfl⟩ | ⟨arm, now, _, _, hrun⟩
  . exact hs
  . apply TrippedByFailure.runArm ?_ hrun
    unfold loopTop
    split <;> exact hs

theorem start_recorded {ceiling : Resources} {cancelFlag : Bool} {now : Nat}
    (hitems : (items.map key).Nodup) (hok : start cfg items ceiling cancelFlag now = .ok s)
    : s.Recorded ∧ s.TrippedByFailure := by
  obtain ⟨t, hstart, _, hsubmitted⟩ := start_spec cfg ceiling cancelFlag now hitems
  rw [hstart] at hok
  cases hok
  have hframe := (pumped t cfg now).frame.trans (publishDemand_frame (t.pump cfg now) cfg)
  constructor
  . apply Recorded.of_frame ?_ hframe
    intro k verdict hlast
    have hnone : t.completions = [] := hsubmitted.completions
    unfold lastVerdict at hlast
    rw [hnone] at hlast
    cases hlast
  . apply TrippedByFailure.of_frame ?_ hframe
    intro htripped
    rw [hsubmitted.failFastTripped] at htripped
    cases htripped

theorem keepsGoing_of_retryAdmitted {input : Input} {r : Unit} (h : RetryAdmitted cfg s input)
    (hok : step cfg s input = .ok (s', r)) (hopen : Open s')
    : s.KeepsGoing input := by
  rcases step_cases hok with ⟨rfl, _⟩ | ⟨arm, now, rfl, _, hrun⟩
  . trivial
  . rw [(step_open hok hopen).loopTop_eq] at hrun
    cases arm with
    | complete lease outcome raiseRetry raiseAdmit =>
      obtain ⟨running, _, _, _, _, hrunning, _, _, _⟩ := complete_ok hrun
      exact (h running hrunning (not_closesShort_of_open hrunning hrun hopen)).2
    | _ => trivial

theorem exec_recorded {inputs : List Input} (h : s.Recorded) (hinv : LoopInv cfg items s)
    (hitems : (items.map key).Nodup) (halong : Run.Along (step cfg) (RetryAdmitted cfg) s inputs)
    (hexec : Run.exec (step cfg) s inputs = .ok s') (hopen : Open s')
    : s'.Recorded ∧ Run.Along (step cfg) KeepsGoing s inputs := by
  induction inputs generalizing s with
  | nil =>
    cases hexec
    exact ⟨h, trivial⟩
  | cons i is ih =>
    obtain ⟨t, r, hstep, hrest⟩ := Run.exec_cons_ok hexec
    have ht := exec_open hrest hopen
    obtain ⟨hrecorded, hgoing⟩ := ih (h.step hinv hitems halong.1 hstep ht)
      (hinv.step hitems hstep ht) (halong.2 t r hstep) hrest
    refine ⟨hrecorded, keepsGoing_of_retryAdmitted halong.1 hstep ht, ?_⟩
    intro t' r' hstep'
    cases hstep.symm.trans hstep'
    exact hgoing

theorem exitCode_eq_testRunFailed {stats : RunStats} {cancelled : Bool}
    (h : 0 < stats.failed ∨ cancelled = true)
    : exitCode stats cancelled = .testRunFailed := by
  unfold exitCode RunStats.anyFailed
  cases h with
  | inl h => simp [h]
  | inr h => simp [h]

theorem Honest.of_red {cancelled : Bool} (h : exitCode s.stats cancelled = .testRunFailed)
    : Honest items s cancelled := by
  constructor
  . intro hok
    rw [h] at hok
    cases hok
  . exact fun _ _ _ _ _ => h

theorem exitCode_ok {stats : RunStats} {cancelled : Bool} (h : exitCode stats cancelled = .ok)
    : stats.failed = 0 ∧ stats.terminated = 0 ∧ stats.skipped = 0 := by
  unfold exitCode RunStats.anyFailed at h
  split at h
  . cases h
  . next hred =>
    split at h
    . cases h
    . next hskipped =>
      simp only [gt_iff_lt, Bool.or_eq_true, decide_eq_true_eq, not_or] at hred
      omega

theorem run_honest (cfg : LoopConfig) (items : List WorkItem) (ceiling : Resources)
    (cancelFlag : Bool) (now : Nat) (inputs : List Input) (s₀ s : LoopState) (cancelled : Bool)
    (hitems : (items.map key).Nodup) (hcap : cfg.maxInflight ≠ some 0)
    (hstart : start cfg items ceiling cancelFlag now = .ok s₀)
    (hexec : Run.exec (step cfg) s₀ inputs = .ok s) (hend : s.futs = [])
    (hcancelled : s.cancelFlag = true → cancelled = true)
    (halong : Run.Along (step cfg) (RetryAdmitted cfg) s₀ inputs)
    : Honest items s cancelled := by
  obtain ⟨hrecorded₀, htripped₀⟩ := start_recorded hitems hstart
  by_cases hflag : s.cancelFlag = true
  . exact .of_red (exitCode_eq_testRunFailed (.inr (hcancelled hflag)))
  . by_cases htripped : s.failFastTripped = true
    . exact .of_red (exitCode_eq_testRunFailed (.inl (htripped₀.exec hexec htripped)))
    . have hopen : Open s := ⟨Bool.eq_false_iff.mpr htripped, Bool.eq_false_iff.mpr hflag⟩
      have hinv₀ := LoopInv.start hitems hstart
      have hinv := hinv₀.exec hitems hexec hopen
      obtain ⟨hrecorded, hgoing⟩ := exec_recorded hrecorded₀ hinv₀ hitems halong hexec hopen
      have hterminal := hinv.terminal_of_drained hcap hend
        ((hinv₀.parked_eq_nil_iff hitems hcap (start_drained hitems hcap hstart) hexec hopen
          hend).mpr hgoing)
      constructor
      . intro hok
        have hzero := exitCode_ok hok
        have hfinished := hinv.tracked.finished
        rw [hterminal.length_eq, List.length_map] at hfinished
        simp only [RunStats.finished, RunStats.ran] at hfinished
        omega
      . intro item hitem verdict hlast hfailing
        apply exitCode_eq_testRunFailed
        cases hrecorded (key item) verdict hlast hfailing with
        | inl hpos => exact .inl hpos
        | inr hnot =>
          exact absurd (hterminal.mem_iff.mpr (List.mem_map_of_mem hitem)) hnot

theorem run_honest_retry_passes
    : ∃ s₀ s, start ⟨true, none, "acme", "run", ∅, none, true, true⟩
          [⟨"bin", "a", .wallet, ⟨2, 2, 0, 0, 0⟩, 1, []⟩] ⟨4, 4, 0, 0, 0⟩ false 0 = .ok s₀
        ∧ Run.exec (step ⟨true, none, "acme", "run", ∅, none, true, true⟩) s₀
            [.select (.complete ⟨0⟩ ⟨.timeout, [], [], 1⟩ false false) 1,
              .select (.complete ⟨1⟩ ⟨.pass, [], [], 1⟩ false false) 2] = .ok s
        ∧ exitCode s.stats false = .ok
        ∧ Honest [⟨"bin", "a", .wallet, ⟨2, 2, 0, 0, 0⟩, 1, []⟩] s false := by
  refine ⟨_, _, rfl, rfl, rfl, ?_⟩
  apply run_honest ⟨true, none, "acme", "run", ∅, none, true, true⟩
    [⟨"bin", "a", .wallet, ⟨2, 2, 0, 0, 0⟩, 1, []⟩] ⟨4, 4, 0, 0, 0⟩ false 0
    [.select (.complete ⟨0⟩ ⟨.timeout, [], [], 1⟩ false false) 1,
      .select (.complete ⟨1⟩ ⟨.pass, [], [], 1⟩ false false) 2] _ _ false
  . decide
  . decide
  . rfl
  . rfl
  . rfl
  . exact fun h => h
  . refine ⟨?_, ?_⟩
    . intro running hrunning _
      cases hrunning
      exact ⟨fun _ => rfl, fun _ _ _ _ hne => absurd rfl hne⟩
    . intro s' r hstep
      cases hstep
      refine ⟨?_, fun _ _ _ => trivial⟩
      intro running hrunning _
      cases hrunning
      exact ⟨fun _ => rfl, fun _ _ _ _ hne => absurd rfl hne⟩

-- The retry of `a` waits for the slot of `b`, and the ceiling falls below `a` before `b` passes: the
-- run is green. Rejected instead of parked, the failing attempt reads as a setup error.
theorem stranded_retry_exits_ok
    : (∃ s, run ⟨false, none, "acme", "run", ∅, none, true, true⟩
          [⟨"bin", "a", .wallet, ⟨2, 2, 0, 0, 0⟩, 1, []⟩, ⟨"bin", "b", .wallet, ⟨2, 2, 0, 0, 0⟩, 0, []⟩]
          ⟨4, 4, 0, 0, 0⟩ false 0
          [.select (.ceiling ⟨2, 2, 0, 0, 0⟩ false) 1,
            .select (.complete ⟨0⟩ ⟨.fail 1, [], [], 1⟩ false false) 2,
            .select (.ceiling ⟨1, 1, 0, 0, 0⟩ false) 3,
            .select (.complete ⟨1⟩ ⟨.pass, [], [], 1⟩ false false) 4] = .ok s
        ∧ s.futs = [] ∧ s.lastVerdict ("bin", "a") = some (.fail 1) ∧ s.stats.passed = 1
        ∧ exitCode s.stats s.cancelFlag = .ok)
      ∧
      (∃ s, run ⟨false, none, "acme", "run", ∅, none, true, true⟩
          [⟨"bin", "a", .wallet, ⟨2, 2, 0, 0, 0⟩, 1, []⟩] ⟨4, 4, 0, 0, 0⟩ false 0
          [.select (.ceiling ⟨1, 1, 0, 0, 0⟩ false) 1,
            .select (.complete ⟨0⟩ ⟨.fail 1, [], [], 1⟩ false false) 2] = .ok s
        ∧ s.futs = [] ∧ s.lastVerdict ("bin", "a") = some (.fail 1)
        ∧ exitCode s.stats s.cancelFlag = .setupError) := by
  constructor
  . refine ⟨_, rfl, rfl, ?_, rfl, rfl⟩
    decide
  . refine ⟨_, rfl, rfl, ?_, rfl⟩
    decide

end LoopState
end Engine
