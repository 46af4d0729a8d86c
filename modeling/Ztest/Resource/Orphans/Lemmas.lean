import Mathlib.Algebra.Order.Group.Int
import Mathlib.Data.Finset.Insert
import Ztest.Resource.Orphans.Impl

/-!
This module contains the proof that orphan reaping spares every run with a live lease, reaps every listed
run with neither a live lease nor a listed hold, and spares the held runs exactly as long as no failed
listing hid their holds.
-/

namespace Orphans

open Run (guarded guarded_ok)

namespace Cluster

theorem covered_iff {c : Cluster}
    : c.covered = true ↔ ∀ run ∈ c.runs, c.owns run = true → c.live run = true := by
  simp only [covered, List.all_eq_true, Bool.or_eq_true, Bool.not_eq_true']
  constructor
  . intro h run hrun howns
    cases h run hrun with
    | inl hnone =>
      rw [howns] at hnone
      cases hnone
    | inr hlive => exact hlive
  . intro h run hrun
    cases howns : c.owns run with
    | false => exact Or.inl rfl
    | true => exact Or.inr (h run hrun howns)

theorem live_iff {c : Cluster} {run : String}
    : c.live run = true ↔ ∃ l ∈ c.leases, l.name = some run ∧ isExpired l c.now = false := by
  simp [live, List.any_eq_true]

theorem owns_iff {c : Cluster} {run : String}
    : c.owns run = true ↔ ∃ o ∈ c.objects, o.runId = some run := by
  simp [owns, List.any_eq_true]

theorem live_unlease {c : Cluster} {run other : String} (hne : run ≠ other) (h : c.live run = true)
    : ({ c with leases := c.unlease other } : Cluster).live run = true := by
  rcases live_iff.mp h with ⟨l, hl, hname, hfresh⟩
  refine live_iff.mpr ⟨l, List.mem_filter.mpr ⟨hl, ?_⟩, hname, hfresh⟩
  rw [hname, decide_eq_true_iff, ne_eq, Option.some.injEq]
  exact hne

theorem tick_spec {c c' : Cluster} {nanos : Nat} (h : c.tick nanos = .ok c')
    : c'.covered = true ∧ c.now ≤ c'.now := by
  rcases guarded_ok h with ⟨hcovered, rfl⟩
  exact ⟨hcovered, Int.le_add_of_nonneg_right (Int.natCast_nonneg nanos)⟩

theorem covered_writeLease {c : Cluster} (hc : c.covered = true) (run : String) (seconds : Nat)
    : (c.writeLease run seconds).covered = true := by
  rw [covered_iff] at hc ⊢
  intro id hid howns
  by_cases hrun : id = run
  . have hfresh : isExpired ⟨some run, some c.now, some (seconds : Int)⟩ c.now = false :=
      Qos.isExpired_renewed (Int.mul_nonneg (Int.natCast_nonneg seconds) (by decide))
    exact live_iff.mpr ⟨_, List.mem_append_right _ List.mem_cons_self, by rw [hrun], hfresh⟩
  . have hmem : id ∈ c.runs := (List.mem_cons.mp hid).resolve_left hrun
    rcases live_iff.mp (live_unlease hrun (hc id hmem howns)) with ⟨l, hl, hname, hfresh⟩
    exact live_iff.mpr ⟨l, List.mem_append_left _ hl, hname, hfresh⟩

theorem dropLease_spec {c c' : Cluster} {run : String} (hc : c.covered = true)
    (h : c.dropLease run = .ok c')
    : c'.covered = true ∧ c.now ≤ c'.now := by
  rcases guarded_ok h with ⟨hfree, rfl⟩
  refine ⟨?_, Int.le_refl _⟩
  rw [covered_iff] at hc ⊢
  intro id hid howns
  apply live_unlease ?_ (hc id hid howns)
  rintro rfl
  have howns' : c.owns id = true := howns
  have hcontains : c.runs.contains id = true := List.contains_iff_mem.mpr hid
  rw [howns', hcontains] at hfree
  cases hfree

theorem create_spec {c c' : Cluster} {kind : Kind} {labels : Labels} (hc : c.covered = true)
    (h : c.create kind labels = .ok c')
    : c'.covered = true ∧ c.now ≤ c'.now := by
  rcases guarded_ok h with ⟨hguard, rfl⟩
  refine ⟨?_, Int.le_refl _⟩
  rw [covered_iff] at hc ⊢
  intro id hid howns
  rcases owns_iff.mp howns with ⟨o, ho, hrun⟩
  cases List.mem_append.mp ho with
  | inl hold => exact hc id hid (owns_iff.mpr ⟨o, hold, hrun⟩)
  | inr hnew =>
    rw [List.mem_singleton.mp hnew] at hrun
    rw [hrun] at hguard
    exact (Bool.and_eq_true_iff.mp hguard).2

theorem covered_remove {c : Cluster} (hc : c.covered = true) (i : Nat)
    : ({ c with objects := c.objects.eraseIdx i } : Cluster).covered = true := by
  rw [covered_iff] at hc ⊢
  intro id hid howns
  rcases owns_iff.mp howns with ⟨o, ho, hrun⟩
  exact hc id hid (owns_iff.mpr ⟨o, List.mem_of_mem_eraseIdx ho, hrun⟩)

theorem covered_stop {c : Cluster} (hc : c.covered = true) (run : String)
    : ({ c with runs := c.runs.filter (· ≠ run) } : Cluster).covered = true := by
  rw [covered_iff] at hc ⊢
  intro id hid howns
  exact hc id (List.mem_of_mem_filter hid) howns

theorem act_spec {c c' : Cluster} {action : Action} (hc : c.covered = true) (h : c.act action = .ok c')
    : c'.covered = true ∧ c.now ≤ c'.now := by
  cases action with
  | tick nanos => exact tick_spec h
  | writeLease run seconds =>
    cases h
    exact ⟨covered_writeLease hc run seconds, Int.le_refl _⟩
  | dropLease run => exact dropLease_spec hc h
  | create kind labels => exact create_spec hc h
  | remove i =>
    cases h
    exact ⟨covered_remove hc i, Int.le_refl _⟩
  | stop run =>
    cases h
    exact ⟨covered_stop hc run, Int.le_refl _⟩

end Cluster

-- What the pass has read fits a moment of the past at which every run was covered.
def Stage.Dated (now : Int) : Stage → Prop
  | .listing _ => True
  | .listed _ atLeases => atLeases.covered = true ∧ atLeases.now ≤ now
  | .reaping j => j.atLeases.covered = true ∧ j.atLeases.now ≤ j.now
  | .stopped _ => True

structure Inv (w : World) : Prop where
  covered : w.cluster.covered = true
  dated : w.stage.Dated w.cluster.now

theorem Stage.Dated.later {stage : Stage} {now now' : Int} (h : stage.Dated now) (hle : now ≤ now')
    : stage.Dated now' := by
  cases stage with
  | listing => trivial
  | listed => exact ⟨h.1, Int.le_trans h.2 hle⟩
  | reaping => exact h
  | stopped => trivial

theorem World.act_inv {w w' : World} {input : Input} (hw : Inv w) (h : w.act input = .ok w') : Inv w' := by
  cases input with
  | other action =>
    rcases Run.map_ok h with ⟨cluster, hact, rfl⟩
    rcases Cluster.act_spec hw.covered hact with ⟨hcovered, hnow⟩
    exact ⟨hcovered, hw.dated.later hnow⟩
  | listKind kind answer =>
    simp only [act, listKind, guarded] at h
    split at h
    next =>
      split at h
      next =>
        cases h
        exact ⟨hw.covered, trivial⟩
      next => cases h
    next => cases h
  | listLeases answer =>
    simp only [act, listLeases] at h
    split at h
    next =>
      split at h
      next =>
        cases h
        exact ⟨hw.covered, hw.covered, Int.le_refl _⟩
      next =>
        cases h
        exact ⟨hw.covered, trivial⟩
      next => cases h
    next => cases h
  | readClock =>
    simp only [act, readClock] at h
    split at h
    next seen atLeases hstage =>
      have hdated := hw.dated
      rw [hstage] at hdated
      cases h
      exact ⟨hw.covered, hdated⟩
    next => cases h

theorem World.step_inv (w : World) (input : Input) (w' : World) (r : Unit) (hw : Inv w)
    (h : w.step input = .ok (w', r))
    : Inv w' := by
  rcases Run.map_ok h with ⟨w'', hact, heq⟩
  cases heq
  exact World.act_inv hw hact

theorem inv_of_exec {c : Cluster} (hc : c.covered = true) {inputs : List Input} {w : World}
    (h : Run.exec World.step (.start c) inputs = .ok w)
    : Inv w :=
  Run.exec_invariant World.step_inv (show Inv (.start c) from ⟨hc, trivial⟩) h

theorem mem_liveRuns_iff {c : Cluster} {now : Int} {run : String}
    : run ∈ liveRuns c.leases now ↔ ({ c with now } : Cluster).live run = true := by
  rw [Cluster.live_iff]
  simp only [liveRuns, List.mem_filterMap, List.mem_filter, Bool.not_eq_true']
  constructor
  . rintro ⟨l, ⟨hl, hfresh⟩, hname⟩
    exact ⟨l, hl, hname, hfresh⟩
  . rintro ⟨l, hl, hname, hfresh⟩
    exact ⟨l, ⟨hl, hfresh⟩, hname⟩

theorem live_of_live_later {c : Cluster} {now : Int} {run : String} (hle : c.now ≤ now)
    (h : ({ c with now } : Cluster).live run = true)
    : c.live run = true := by
  rcases Cluster.live_iff.mp h with ⟨l, hl, hname, hfresh⟩
  refine Cluster.live_iff.mpr ⟨l, hl, hname, ?_⟩
  rw [Bool.eq_false_iff] at hfresh ⊢
  exact fun hexpired => hfresh (Qos.isExpired_mono hle hexpired)

namespace Judgement

def holds (labels : List Scoped) (now : Int) (run : String) : Prop :=
  ∃ s ∈ labels, s.runId = run ∧ s.held (timestamp now) = true

theorem mem_heldRuns_iff {labels : List Scoped} {now : Int} {run : String}
    : run ∈ heldRuns labels (timestamp now) ↔ holds labels now run := by
  simp only [heldRuns, holds, List.mem_map, List.mem_filter]
  constructor
  . rintro ⟨s, ⟨hs, hheld⟩, hrun⟩
    exact ⟨s, hs, hrun, hheld⟩
  . rintro ⟨s, hs, hrun, hheld⟩
    exact ⟨s, ⟨hs, hheld⟩, hrun⟩

variable {j : Judgement} {run : String}

theorem mem_reaped_iff
    : run ∈ j.reaped ↔ run ∈ j.labels.map Scoped.runId ∧ run ∉ j.live ∧ ¬holds j.labels j.now run := by
  rw [← mem_heldRuns_iff]
  simp [reaped, orphanedRuns]

/--
What orphan reaping promises of the runs it reaps: their lease was not live when the leases were listed,
no object of a run that keeps its lease was there then, nothing of theirs was held, whether its kind
could be listed or not, and no listed run with neither is left out.
-/
structure Spares (j : Judgement) : Prop where
  live : ∀ run ∈ j.reaped, j.atLeases.live run = false
  inFlight : ∀ run ∈ j.reaped, run ∈ j.atLeases.runs → j.atLeases.owns run = false
  listedHold : ∀ run ∈ j.reaped, ¬holds j.labels j.now run
  hold : ∀ run ∈ j.reaped, ¬holds j.present j.now run
  complete : ∀ run ∈ j.labels.map Scoped.runId,
    j.atLeases.live run = false → ¬holds j.labels j.now run → run ∈ j.reaped

/--
No listing that failed hid the only holds of a listed run without a live lease, and no lease that alone
protects a listed run lapsed between its listing and the reading of the clock.
-/
structure Undisturbed (j : Judgement) : Prop where
  clock : ∀ run ∈ j.labels.map Scoped.runId, ¬holds j.labels j.now run →
    j.atLeases.live run = true → run ∈ j.live
  hold : ∀ run ∈ j.labels.map Scoped.runId, run ∉ j.live →
    holds j.present j.now run → holds j.labels j.now run

end Judgement

open Judgement in
/--
Orphan reaping, interleaved in any way with the runs of the cluster, spares every live and every held run
and reaps every other listed one, exactly when the pass was not disturbed.
-/
theorem reaping_spares_iff {c : Cluster} (hc : c.covered = true) {inputs : List Input} {w : World}
    {j : Judgement} (h : Run.exec World.step (.start c) inputs = .ok w) (hstage : w.stage = .reaping j)
    : j.Spares ↔ j.Undisturbed := by
  have hdated := (inv_of_exec hc h).dated
  rw [hstage] at hdated
  rcases hdated with ⟨hcovered, hnow⟩
  have hearlier : ∀ run, run ∈ j.live → j.atLeases.live run = true :=
    fun run hlive => live_of_live_later hnow (mem_liveRuns_iff.mp hlive)
  constructor
  . intro hspares
    constructor
    . intro run hlisted hnohold hlive
      apply Classical.byContradiction
      intro hlapsed
      have hdead := hspares.live run (mem_reaped_iff.mpr ⟨hlisted, hlapsed, hnohold⟩)
      rw [hlive] at hdead
      cases hdead
    . intro run hlisted hnolease hpresent
      apply Classical.byContradiction
      intro hnohold
      exact hspares.hold run (mem_reaped_iff.mpr ⟨hlisted, hnolease, hnohold⟩) hpresent
  . intro hcalm
    have hlive : ∀ run ∈ j.reaped, j.atLeases.live run = false := by
      intro run hreaped
      rcases mem_reaped_iff.mp hreaped with ⟨hlisted, hnolease, hnohold⟩
      cases hlease : j.atLeases.live run with
      | false => rfl
      | true => exact absurd (hcalm.clock run hlisted hnohold hlease) hnolease
    constructor
    . exact hlive
    . intro run hreaped hrun
      cases howns : j.atLeases.owns run with
      | false => rfl
      | true =>
        have hlease := Cluster.covered_iff.mp hcovered run hrun howns
        rw [hlive run hreaped] at hlease
        cases hlease
    . intro run hreaped
      exact (mem_reaped_iff.mp hreaped).2.2
    . intro run hreaped hpresent
      rcases mem_reaped_iff.mp hreaped with ⟨hlisted, hnolease, hnohold⟩
      exact hnohold (hcalm.hold run hlisted hnolease hpresent)
    . intro run hlisted hdead hnohold
      refine mem_reaped_iff.mpr ⟨hlisted, ?_, hnohold⟩
      intro hlease
      rw [hearlier run hlease] at hdead
      cases hdead

def World.judges (w : World) (p : Judgement → Bool) : Bool :=
  match w.stage with
  | .reaping j => p j
  | _ => false

theorem exists_judgement {c : Cluster} {inputs : List Input} {p : Judgement → Bool}
    (h : (Run.exec World.step (.start c) inputs).toOption.any (·.judges p) = true)
    : ∃ w j, Run.exec World.step (.start c) inputs = .ok w ∧ w.stage = .reaping j ∧ p j = true := by
  cases hexec : Run.exec World.step (.start c) inputs with
  | error e =>
    rw [hexec] at h
    cases h
  | ok w =>
    rw [hexec] at h
    have hjudges : w.judges p = true := h
    unfold World.judges at hjudges
    split at hjudges
    next j hstage => exact ⟨w, j, rfl, hstage, hjudges⟩
    next => cases hjudges

instance {labels : List Scoped} {now : Int} {run : String} : Decidable (Judgement.holds labels now run) :=
  decidable_of_iff (run ∈ heldRuns labels (timestamp now)) Judgement.mem_heldRuns_iff

theorem Judgement.undisturbed_iff {j : Judgement}
    : j.Undisturbed ↔
      (∀ run ∈ j.labels.map Scoped.runId, ¬holds j.labels j.now run → j.atLeases.live run = true → run ∈ j.live) ∧
        ∀ run ∈ j.labels.map Scoped.runId, run ∉ j.live → holds j.present j.now run → holds j.labels j.now run :=
  ⟨fun h => ⟨h.clock, h.hold⟩, fun h => ⟨h.1, h.2⟩⟩

instance {j : Judgement} : Decidable j.Undisturbed := decidable_of_iff _ Judgement.undisturbed_iff.symm

-- Three runs with a namespace: one that crashed, one that keeps its lease and one whose namespace is held.
def crashed : List Input :=
  [.other (.writeLease "dead" 60), .other (.create .namespaces [(labelRunId, "dead")]), .other (.stop "dead"),
    .other (.writeLease "kept" 60), .other (.create .namespaces [(labelRunId, "kept"), (labelHoldUntil, "3600")]),
    .other (.stop "kept"), .listKind .seedBindings .notFound, .other (.tick 61000000000), .other (.writeLease "live" 60),
    .other (.create .namespaces [(labelRunId, "live")]), .listKind .namespaces .ok, .listKind .runPods .ok,
    .listKind .buildPods .failed, .listLeases .ok, .readClock]

theorem reaping_spares_crashed
    : ∃ (w : World) (j : Judgement), Run.exec World.step (.start ⟨0, [], [], []⟩) crashed = .ok w ∧ w.stage = .reaping j ∧
        j.reaped = {"dead"} ∧ j.Spares := by
  rcases @exists_judgement ⟨0, [], [], []⟩ crashed
    (fun j => decide (j.reaped = {"dead"} ∧ j.Undisturbed)) (by decide +kernel) with ⟨w, j, hexec, hstage, hp⟩
  obtain ⟨hreaped, hundisturbed⟩ := of_decide_eq_true hp
  exact ⟨w, j, hexec, hstage, hreaped, (reaping_spares_iff rfl hexec hstage).mpr hundisturbed⟩

open Judgement in
-- The hold is on the namespace, whose listing fails, and the run's seed binding has none.
theorem hidden_hold_reaped
    : ¬∀ (c : Cluster) (inputs : List Input) (w : World) (j : Judgement), c.covered = true
        → Run.exec World.step (.start c) inputs = .ok w → w.stage = .reaping j → j.Spares := by
  intro h
  have hrun : ∃ w j,
      Run.exec World.step (.start ⟨0, [], [], []⟩)
        [.other (.writeLease "r" 60),
          .other (.create .namespaces [(labelRunId, "r"), (labelHoldUntil, "3600")]),
          .other (.create .seedBindings [(labelRunId, "r")]), .other (.stop "r"), .other (.dropLease "r"),
          .listKind .namespaces .failed, .listKind .runPods .ok, .listKind .buildPods .ok,
          .listKind .seedBindings .ok, .listLeases .ok, .readClock] = .ok w
      ∧ w.stage = .reaping j
      ∧ (decide ("r" ∈ j.reaped) && (heldRuns j.present (timestamp j.now)).contains "r") = true :=
    exists_judgement (by decide +kernel)
  rcases hrun with ⟨w, j, hexec, hstage, htest⟩
  rcases Bool.and_eq_true_iff.mp htest with ⟨hreaped, hheld⟩
  exact (h _ _ w j rfl hexec hstage).hold "r" (of_decide_eq_true hreaped)
    (mem_heldRuns_iff.mp (List.contains_iff_mem.mp hheld))

end Orphans
