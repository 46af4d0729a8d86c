import Ztest.Engine.Schedule.Lemmas.Tracking

/-!
This module contains what one wake-up of the run loop can do. `settle_cases` and `step_cases` say it
once for all later proofs, the frame lemmas say which fields `pump` and `admitGrants` leave alone.
-/

namespace Engine
namespace LoopState

open Qos

variable {cfg : LoopConfig} {items : List WorkItem} {s s' : LoopState} {grants : List Admitted}

-- The fields a pump or a placed grant never touches.
structure Frame (s s' : LoopState) : Prop where
  stats : s'.stats = s.stats
  sched : s'.sched = s.sched
  failFastTripped : s'.failFastTripped = s.failFastTripped
  cancelled : s'.cancelled = s.cancelled
  cancelFlag : s'.cancelFlag = s.cancelFlag
  terminalKeys : s'.terminalKeys = s.terminalKeys
  completions : s'.events.filterMap TestEvent.completion = s.events.filterMap TestEvent.completion

theorem Frame.refl (s : LoopState) : Frame s s := ⟨rfl, rfl, rfl, rfl, rfl, rfl, rfl⟩

theorem Frame.trans {t : LoopState} (h : Frame s t) (h' : Frame t s') : Frame s s' := by
  constructor
  . exact h'.stats.trans h.stats
  . exact h'.sched.trans h.sched
  . exact h'.failFastTripped.trans h.failFastTripped
  . exact h'.cancelled.trans h.cancelled
  . exact h'.cancelFlag.trans h.cancelFlag
  . exact h'.terminalKeys.trans h.terminalKeys
  . exact h'.completions.trans h.completions

theorem Frame.setReady (h : Frame s s') (l l' : List (SlotId × WorkItem × Nat))
    : Frame { s with ready := l } { s' with ready := l' } :=
  ⟨h.stats, h.sched, h.failFastTripped, h.cancelled, h.cancelFlag, h.terminalKeys, h.completions⟩

theorem Frame.spawnGranted (s : LoopState) (now : Nat) (slot : SlotId) (item : WorkItem)
    (attempt : Nat)
    : Frame s (s.spawnGranted now slot item attempt) := by
  constructor
  . rfl
  . rfl
  . rfl
  . rfl
  . rfl
  . exact (terminalKeys_emit _).trans (List.append_nil _)
  . simp [LoopState.spawnGranted, emit, TestEvent.completion]

structure Pumped (cfg : LoopConfig) (s s' : LoopState) : Prop where
  frame : Frame s s'
  parked : s'.parked = s.parked
  futs : s.futs ⊆ s'.futs
  spawned : s.ready ≠ [] → belowCap cfg s.inflight.entries.length = true → s'.futs ≠ []
  full : s'.ready ≠ [] → belowCap cfg s'.inflight.entries.length = false
  capped : ∀ cap, cfg.maxInflight = some cap → s.inflight.entries.length ≤ cap →
    s'.inflight.entries.length ≤ cap

theorem pumped (s : LoopState) (cfg : LoopConfig) (now : Nat) : Pumped cfg s (s.pump cfg now) := by
  suffices hgo : ∀ l (s : LoopState), Pumped cfg { s with ready := l } (pump.go cfg now s l) from
    hgo s.ready s
  intro l
  induction l with
  | nil =>
    intro s
    exact ⟨.refl _, rfl, fun _ h => h, fun h => absurd rfl h, fun h => absurd rfl h, fun _ _ h => h⟩
  | cons head rest ih =>
    intro s
    obtain ⟨slot, item, attempt⟩ := head
    unfold pump.go
    split
    . next hbelow =>
      have hrest := ih (s.spawnGranted now slot item attempt)
      have hslot : slot ∈ (pump.go cfg now (s.spawnGranted now slot item attempt) rest).futs :=
        hrest.futs (List.mem_append_right _ List.mem_cons_self)
      constructor
      . have hspawn := Frame.spawnGranted s now slot item attempt
        exact (hspawn.setReady _ rest).trans hrest.frame
      . exact hrest.parked
      . intro lease hlease
        exact hrest.futs (List.mem_append_left _ hlease)
      . intro _ _
        exact List.ne_nil_of_mem hslot
      . exact hrest.full
      . intro cap hcap _
        apply hrest.capped cap hcap
        have hlt : s.inflight.entries.length < cap := by
          simpa [belowCap, hcap] using hbelow
        exact Nat.le_trans (AList.length_entries_insert_le _ _ _) hlt
    . next hfull =>
      refine ⟨.refl _, rfl, fun _ h => h, ?_, fun _ => ?_, fun _ _ h => h⟩
      . intro _ hbelow
        exact absurd hbelow hfull
      . exact Bool.eq_false_iff.mpr hfull

theorem Frame.placeGrant (s : LoopState) (g : Admitted) : Frame s (s.placeGrant g) := by
  unfold LoopState.placeGrant
  split
  . exact ⟨rfl, rfl, rfl, rfl, rfl, rfl, rfl⟩
  . exact .refl s

structure Placed (s s' : LoopState) : Prop where
  frame : Frame s s'
  futs : s'.futs = s.futs
  inflight : s'.inflight = s.inflight

theorem placed (s : LoopState) (grants : List Admitted) : Placed s (s.placeGrants grants) := by
  induction grants generalizing s with
  | nil => exact ⟨.refl s, rfl, rfl⟩
  | cons g gs ih =>
    obtain ⟨hframe, hfuts, hinflight⟩ := ih (s.placeGrant g)
    have hg : (s.placeGrant g).futs = s.futs ∧ (s.placeGrant g).inflight = s.inflight := by
      unfold LoopState.placeGrant
      split <;> exact ⟨rfl, rfl⟩
    exact ⟨(Frame.placeGrant s g).trans hframe, hfuts.trans hg.1, hinflight.trans hg.2⟩

theorem admitGrants_frame (s : LoopState) (cfg : LoopConfig) (grants : List Admitted) (now : Nat)
    : Frame s (s.admitGrants cfg grants now) := by
  unfold admitGrants
  split
  . exact (placed s grants).frame.trans (pumped _ cfg now).frame
  . exact .refl s

theorem admitGrants_futs (s : LoopState) (cfg : LoopConfig) (grants : List Admitted) (now : Nat)
    : s.futs ⊆ (s.admitGrants cfg grants now).futs := by
  unfold admitGrants
  split
  . rw [← (placed s grants).futs]
    exact (pumped _ cfg now).futs
  . exact fun _ h => h

theorem publishDemand_futs (s : LoopState) (cfg : LoopConfig)
    : (s.publishDemand cfg).futs = s.futs := by
  unfold publishDemand
  split <;> rfl

structure Open (s : LoopState) : Prop where
  failFastTripped : s.failFastTripped = false
  cancelFlag : s.cancelFlag = false

theorem Open.of_frame (h : Open s') (hframe : Frame s s') : Open s := by
  constructor
  . rw [← hframe.failFastTripped]
    exact h.failFastTripped
  . rw [← hframe.cancelFlag]
    exact h.cancelFlag

theorem publishDemand_frame (s : LoopState) (cfg : LoopConfig) : Frame s (s.publishDemand cfg) := by
  unfold publishDemand
  split
  . exact ⟨rfl, rfl, rfl, rfl, rfl, rfl, rfl⟩
  . exact .refl s

theorem Open.of_raise {flag : Bool} (h : Open (s.raise flag)) : Open s := by
  constructor
  . exact h.failFastTripped
  . have hflag : (s.cancelFlag || flag) = false := h.cancelFlag
    rw [Bool.or_eq_false_iff] at hflag
    exact hflag.1

theorem Open.of_admitGrants {now : Nat} (h : Open (s.admitGrants cfg grants now)) : Open s :=
  h.of_frame (admitGrants_frame _ _ _ _)

theorem admitGrants_of_open (hopen : Open s) (grants : List Admitted) (now : Nat)
    : s.admitGrants cfg grants now = (s.placeGrants grants).pump cfg now := by
  unfold admitGrants
  rw [hopen.failFastTripped, hopen.cancelFlag]
  rfl

theorem admitGrants_of_closed {now : Nat}
    (h : s.failFastTripped = true ∨ s.cancelFlag = true)
    : s.admitGrants cfg grants now = s := by
  unfold LoopState.admitGrants
  rcases h with h | h <;> simp [h]

def Retried (s : LoopState) (running : Running) (outcome : TestOutcome) : Prop :=
  outcome.verdict.retryable = true ∧ running.attempt ≤ running.item.retries
    ∧ s.failFastTripped = false ∧ s.cancelFlag = false

def emitRetrying (s : LoopState) (running : Running) (outcome : TestOutcome) : LoopState :=
  s.emit (.testRetrying running.item.binaryId running.item.testName (running.attempt + 1) 0
    outcome.verdict outcome.duration)

inductive Ended (cfg : LoopConfig) (s : LoopState) (running : Running) (outcome : TestOutcome)
    : RunStats → Bool → Prop where
  | passed (hverdict : outcome.verdict = .pass)
    : Ended cfg s running outcome { s.stats with passed := s.stats.passed + 1 } s.failFastTripped
  | terminated (hverdict : outcome.verdict = .terminated)
    : Ended cfg s running outcome { s.stats with terminated := s.stats.terminated + 1 }
        s.failFastTripped
  | failed (hpass : outcome.verdict ≠ .pass) (hterminated : outcome.verdict ≠ .terminated)
    : Ended cfg s running outcome { s.stats with failed := s.stats.failed + 1 }
        (s.failFastTripped || cfg.failFast)

theorem settle_cases {running : Running} {outcome : TestOutcome}
    (s : LoopState) (cfg : LoopConfig)
    : (s.Retried running outcome
        ∧ s.settle cfg running outcome
            =
          (s.emitRetrying running outcome).file cfg running.item (running.attempt + 1))
      ∨
      (¬ s.Retried running outcome ∧ ∃ stats tripped, Ended cfg s running outcome stats tripped
        ∧ s.settle cfg running outcome
            =
          .ok { s.emitFinished running outcome with stats, failFastTripped := tripped }) := by
  unfold settle Retried
  split
  . next hpass =>
    have hverdict : outcome.verdict = .pass := by
      cases hv : outcome.verdict <;> simp [hv, Verdict.isPass] at hpass ⊢
    refine .inr ⟨?_, _, _, .passed hverdict, rfl⟩
    simp [hverdict, Verdict.retryable]
  . next hpass =>
    have hne : outcome.verdict ≠ .pass := by
      intro hverdict
      simp [hverdict, Verdict.isPass] at hpass
    split
    . next hretry =>
      simp only [Bool.and_eq_true, decide_eq_true_eq, Bool.not_eq_true'] at hretry
      exact .inl ⟨⟨hretry.1.1.1, hretry.1.1.2, hretry.1.2, hretry.2⟩, rfl⟩
    . next hretry =>
      simp only [Bool.and_eq_true, decide_eq_true_eq, Bool.not_eq_true'] at hretry
      have hretry' : ¬ (outcome.verdict.retryable = true ∧ running.attempt ≤ running.item.retries
          ∧ s.failFastTripped = false ∧ s.cancelFlag = false) := by
        rintro ⟨h₁, h₂, h₃, h₄⟩
        exact hretry ⟨⟨⟨h₁, h₂⟩, h₃⟩, h₄⟩
      split
      . next hverdict => exact .inr ⟨hretry', _, _, .terminated hverdict, rfl⟩
      . next hverdict => exact .inr ⟨hretry', _, _, .failed hne hverdict, rfl⟩

theorem complete_ok {now : Nat} {lease : SlotId} {outcome : TestOutcome}
    {raiseRetry raiseAdmit : Bool}
    (h : s.complete cfg now lease outcome raiseRetry raiseAdmit = .ok s')
    : ∃ running sched grants t, lease ∈ s.futs ∧ s.inflight.lookup lease = some running
        ∧ s.sched.release lease = .ok (sched, grants)
        ∧ ((s.released lease sched).raise raiseRetry).settle cfg running outcome = .ok t
        ∧ s' = ((t.raise raiseAdmit).admitGrants cfg grants now).publishDemand cfg := by
  unfold complete at h
  split at h
  . next hmem =>
    split at h
    . cases h
    . next running hrunning =>
      split at h
      . cases h
      . next sched grants hrelease =>
        simp only at h
        split at h
        . cases h
        . next t hsettle =>
          cases h
          exact ⟨running, sched, grants, t, hmem, hrunning, hrelease, hsettle, rfl⟩
  . cases h

theorem moveCeiling_ok {now : Nat} {newCeiling : Resources} {raiseAdmit : Bool}
    (h : s.moveCeiling cfg now newCeiling raiseAdmit = .ok s')
    : ∃ sched grants, cfg.capRx = true ∧ s.sched.reconcile newCeiling = .ok (sched, grants)
        ∧ s' = (({ s with sched }.raise raiseAdmit).admitGrants cfg grants now).publishDemand cfg := by
  unfold moveCeiling at h
  split at h
  . next hrx =>
    split at h
    . cases h
    . next sched grants hreconcile =>
      cases h
      exact ⟨sched, grants, hrx, hreconcile, rfl⟩
  . cases h

theorem cancelWake_ok {now : Nat} (h : s.runArm cfg .cancelWake now = .ok s') : s' = s.raise true := by
  unfold runArm at h
  simp only at h
  split at h
  . cases h
    rfl
  . cases h

theorem step_cases {input : Input} {r : Unit} (h : step cfg s input = .ok (s', r))
    : (input = .interrupt ∧ s' = { s with cancelFlag := true })
      ∨
      (∃ arm now, input = .select arm now ∧ s.futs ≠ [] ∧ s.loopTop.runArm cfg arm now = .ok s') := by
  cases input with
  | interrupt =>
    cases h
    exact .inl ⟨rfl, rfl⟩
  | select arm now =>
    unfold step at h
    simp only at h
    split at h
    . cases h
    . next hfuts =>
      obtain ⟨t, hrun, heq⟩ := Run.map_ok h
      cases heq
      exact .inr ⟨arm, now, rfl, hfuts, hrun⟩

end LoopState
end Engine
