import Ztest.Sync.Cadence.Impl
import Ztest.Sync.Runner.Lemmas.Liveness

/-!
This module contains what one tick does to an `always` probe, and that the tick loop of a phase moves
the probe along its `Course`. The progress of a probe that counts blocks is measured from the height of the
last evaluation, so a rollback takes back what was climbed.

The debounce of an `always` probe counts evaluations, and `k` of them that stand a period apart reach back `k - 1`
periods only.
-/

namespace Sync

def ProbeBuilder.debounced (name : String) (severity : Severity) (cadence : Cadence) (hold : Nat)
    : ProbeBuilder :=
  { ProbeBuilder.new name .always severity with cadence, holdFor := some hold }

namespace Course

section Steps

variable {ceilQuotient : Nat → Nat → Nat} {c c' : Course} {l : Look}

def answered (l : Look) : Bench := ⟨1, [⟨0, l.snap, l.verdict⟩], []⟩

/--
Everything a tick can do to the probe.
-/
inductive Turned (ceilQuotient : Nat → Nat → Nat) (c : Course) (l : Look)
    : ProbeSpec × Bench × Option Flow → Prop where
  | skipped (hdue : c.spec.due l.snap.height l.now = false)
    : Turned ceilQuotient c l (c.spec, ⟨0, [], []⟩, none)
  | restarted (hdue : c.spec.due l.snap.height l.now = true)
      (hverdict : l.verdict = .satisfied ∨ l.verdict = .pending)
    : Turned ceilQuotient c l
        ({ c.spec.markFired l.snap.seq l.snap.height l.now with violationStreak := 0 }, answered l, none)
  | counted {v : Violation} (hdue : c.spec.due l.snap.height l.now = true)
      (hverdict : l.verdict = .violated v)
      (hbelow : c.spec.violationStreak + 1 < c.spec.violationThreshold ceilQuotient)
    : Turned ceilQuotient c l
        ({ c.spec.markFired l.snap.seq l.snap.height l.now with
            violationStreak := c.spec.violationStreak + 1 }, answered l, none)
  | recorded {v : Violation} (hdue : c.spec.due l.snap.height l.now = true)
      (hverdict : l.verdict = .violated v)
      (hreached : c.spec.violationThreshold ceilQuotient ≤ c.spec.violationStreak + 1)
    : Turned ceilQuotient c l
        ({ c.spec.markFired l.snap.seq l.snap.height l.now with
            violationStreak := c.spec.violationStreak + 1 },
          (answered l).violate { v with probe := c.spec.name }, Flow.ofSeverity c.spec.severity)
  | aborted {e : String} (hdue : c.spec.due l.snap.height l.now = true)
      (hverdict : l.verdict = .probeError e)
    : Turned ceilQuotient c l
        (c.spec.markFired l.snap.seq l.snap.height l.now, answered l,
          some (.abort (c.spec.name ++ ": " ++ e)))

theorem turn_turned (ceilQuotient : Nat → Nat → Nat) (c : Course) (l : Look)
    : Turned ceilQuotient c l (c.turn ceilQuotient l) := by
  unfold turn alwaysStep
  split
  . next hdue =>
    dsimp only [Bench.judge]
    split
    . next hverdict => exact .restarted hdue (.inl hverdict)
    . next hverdict => exact .restarted hdue (.inr hverdict)
    . next v hverdict =>
      split
      . next hreached => exact .recorded hdue hverdict hreached
      . next hbelow => exact .counted hdue hverdict (Nat.lt_of_not_le hbelow)
    . next e hverdict => exact .aborted hdue hverdict
  . next hdue => exact .skipped (Bool.eq_false_iff.mpr hdue)

theorem evaluates_eq_due (ceilQuotient : Nat → Nat → Nat) (c : Course) (l : Look)
    : c.evaluates ceilQuotient l = c.spec.due l.snap.height l.now := by
  have hturn := turn_turned ceilQuotient c l
  unfold evaluates
  generalize c.turn ceilQuotient l = r at hturn
  cases hturn with
  | skipped hdue => exact hdue.symm
  | restarted hdue => exact hdue.symm
  | counted hdue => exact hdue.symm
  | recorded hdue => exact hdue.symm
  | aborted hdue => exact hdue.symm

theorem records_iff (ceilQuotient : Nat → Nat → Nat) (c : Course) (l : Look)
    : c.records ceilQuotient l = true ↔
      c.spec.due l.snap.height l.now = true ∧ l.verdict.isViolated = true ∧
        c.spec.violationThreshold ceilQuotient ≤ c.spec.violationStreak + 1 := by
  have hturn := turn_turned ceilQuotient c l
  unfold records
  generalize c.turn ceilQuotient l = r at hturn
  cases hturn with
  | skipped hdue => simp [hdue]
  | restarted hdue hverdict => rcases hverdict with h | h <;> simp [answered, h, Verdict.isViolated]
  | counted hdue hverdict hbelow => simp [answered, Nat.not_le.mpr hbelow]
  | recorded hdue hverdict hreached =>
    simp [Bench.violate, hdue, hverdict, Verdict.isViolated, hreached]
  | aborted hdue hverdict => simp [answered, hverdict, Verdict.isViolated]

def judged (spec : ProbeSpec) (l : Look) : ProbeSpec :=
  { spec.markFired l.snap.seq l.snap.height l.now with
    violationStreak := if l.verdict.isViolated then spec.violationStreak + 1 else 0 }

theorem turn_restarts (hdue : c.evaluates ceilQuotient l = true)
    (hverdict : l.verdict = .satisfied ∨ l.verdict = .pending)
    : (c.turn ceilQuotient l).1.violationStreak = 0 := by
  rw [evaluates_eq_due] at hdue
  have hturn := turn_turned ceilQuotient c l
  generalize c.turn ceilQuotient l = r at hturn
  cases hturn with
  | skipped hskip =>
    rw [hdue] at hskip
    cases hskip
  | restarted => rfl
  | counted _ hviolated => simp [hviolated] at hverdict
  | recorded _ hviolated => simp [hviolated] at hverdict
  | aborted _ herror => simp [herror] at hverdict

theorem step_ok (h : c.step ceilQuotient l = .ok (c', ()))
    : c'.past = ⟨l, c.spec.due l.snap.height l.now⟩ :: c.past ∧
      c'.spec = if c.spec.due l.snap.height l.now then judged c.spec l else c.spec := by
  have hturn := turn_turned ceilQuotient c l
  unfold step at h
  generalize c.turn ceilQuotient l = r at hturn h
  cases hturn with
  | skipped hdue =>
    cases h
    simp [hdue]
  | restarted hdue hverdict =>
    cases h
    rcases hverdict with hverdict | hverdict <;> simp [hdue, judged, hverdict, Verdict.isViolated, answered]
  | counted hdue hverdict =>
    cases h
    simp [hdue, judged, hverdict, Verdict.isViolated, answered]
  | recorded hdue hverdict =>
    cases hseverity : c.spec.severity with
    | fatal =>
      rw [hseverity] at h
      cases h
    | recorded =>
      rw [hseverity] at h
      cases h
      simp [hdue, judged, hverdict, Verdict.isViolated, answered, Bench.violate]
  | aborted => cases h

theorem step_config (h : c.step ceilQuotient l = .ok (c', ()))
    : c'.spec.cls = c.spec.cls ∧ c'.spec.cadence = c.spec.cadence ∧ c'.spec.holdFor = c.spec.holdFor := by
  rcases step_ok h with ⟨_, hspec⟩
  split at hspec
  . rw [hspec]
    exact ⟨rfl, rfl, rfl⟩
  . rw [hspec]
    exact ⟨rfl, rfl, rfl⟩

/--
The course is one of the probe that `b` registers.
-/
structure Configured (b : ProbeBuilder) (c : Course) : Prop where
  cls : c.spec.cls = b.cls
  cadence : c.spec.cadence = b.cadence
  holdFor : c.spec.holdFor = b.holdFor

theorem configured_start (b : ProbeBuilder) : Configured b (start b) := ⟨rfl, rfl, rfl⟩

theorem Configured.step {b : ProbeBuilder} (h : Configured b c)
    (hstep : c.step ceilQuotient l = .ok (c', ()))
    : Configured b c' := by
  rcases step_config hstep with ⟨hcls, hcadence, hholdFor⟩
  exact ⟨hcls.trans h.cls, hcadence.trans h.cadence, hholdFor.trans h.holdFor⟩

theorem step_of_below {v : Violation} (hdue : c.spec.due l.snap.height l.now = true)
    (hverdict : l.verdict = .violated v)
    (hbelow : c.spec.violationStreak + 1 < c.spec.violationThreshold ceilQuotient)
    : c.step ceilQuotient l = .ok (⟨judged c.spec l, ⟨l, true⟩ :: c.past⟩, ()) := by
  have hturn := turn_turned ceilQuotient c l
  unfold step
  generalize c.turn ceilQuotient l = r at hturn
  cases hturn with
  | skipped hskip =>
    rw [hdue] at hskip
    cases hskip
  | restarted _ hother => simp [hverdict] at hother
  | counted =>
    simp [judged, hverdict, Verdict.isViolated, answered]
  | recorded _ _ hreached => exact absurd hreached (Nat.not_le.mpr hbelow)
  | aborted _ hother =>
    rw [hverdict] at hother
    cases hother

section Runner

variable {answers : Nat → Verdict} {chaos : Chaos} {snap : Snapshot} {now j : Nat}
variable {probes probes' : List ProbeSpec} {spec spec' : ProbeSpec} {b b' : Bench}

theorem alwaysStep_step (past : List Visit)
    (h : alwaysStep answers ceilQuotient snap now j spec b = (spec', b', none))
    : ∃ visit, step ceilQuotient ⟨spec, past⟩ ⟨snap, now, answers b.asked⟩ =
        .ok (⟨spec', visit :: past⟩, ()) := by
  unfold alwaysStep at h
  unfold step turn alwaysStep
  split at h
  . next hdue =>
    rw [if_pos hdue]
    dsimp only [Bench.judge] at h ⊢
    generalize answers b.asked = verdict at h ⊢
    cases verdict with
    | satisfied =>
      cases h
      exact ⟨_, rfl⟩
    | pending =>
      cases h
      exact ⟨_, rfl⟩
    | violated v =>
      dsimp only at h ⊢
      split at h
      . next hreached =>
        rw [if_pos hreached]
        rw [Prod.mk.injEq, Prod.mk.injEq] at h
        rcases h with ⟨rfl, _, hflow⟩
        rw [hflow]
        exact ⟨_, rfl⟩
      . next hbelow =>
        rw [if_neg hbelow]
        cases h
        exact ⟨_, rfl⟩
    | probeError e => cases h
  . next hdue =>
    rw [if_neg hdue]
    cases h
    exact ⟨_, rfl⟩

/--
A tick of the phase moves every `always` probe one step along its course.
-/
theorem evalTick_step (past : List Visit)
    (h : evalTick answers ceilQuotient chaos snap now probes b = (probes', b', none))
    (hj : probes[j]? = some spec) (hcls : spec.cls = .always)
    : ∃ verdict spec' visit, probes'[j]? = some spec' ∧
        step ceilQuotient ⟨spec, past⟩ ⟨snap, now, verdict⟩ = .ok (⟨spec', visit :: past⟩, ()) := by
  unfold evalTick at h
  split at h
  . cases h
  . next probes₁ b₁ hsometimes =>
    have hj₁ := evalSometimes_other hsometimes hj (by simp [hcls])
    have heach := Sweep.sweep_none_each
      (R := fun _ (spec spec' : ProbeSpec) (_ : Bench) => spec.cls = .always → ∃ verdict visit,
        step ceilQuotient ⟨spec, past⟩ ⟨snap, now, verdict⟩ = .ok (⟨spec', visit :: past⟩, ()))
      ?_ (fun _ _ _ _ hR _ _ _ _ _ => hR) h j spec hj₁
    . rcases heach with ⟨spec', hj', hstep⟩
      rcases hstep hcls with ⟨verdict, visit, hstep⟩
      exact ⟨verdict, spec', visit, hj', hstep⟩
    . intro i spec c spec' c' hturn hcls
      simp only [tickStep, hcls] at hturn
      exact ⟨_, alwaysStep_step past hturn⟩

theorem creditLiveness_always {probes : List ProbeSpec} (hj : probes[j]? = some spec) (hcls : spec.cls = .always)
    : (creditLiveness probes now)[j]? = some spec := by
  rw [creditLiveness, List.getElem?_map, hj]
  simp [hcls]

/--
A run of the phase takes every `always` probe along a course.
-/
theorem exec_step {watched : List Watched} {w : World} {deadline : Option Nat} {finish : Finish}
    {s s' : PhaseRun} {ticks : List Tick} (past : List Visit)
    (h : Run.exec (PhaseRun.tick watched w deadline finish) s ticks = .ok s')
    (hj : s.probes[j]? = some spec) (hcls : spec.cls = .always)
    : ∃ (looks : List Look) (c' : Course), s'.probes[j]? = some c'.spec ∧
        Run.exec (step w.ceilQuotient) ⟨spec, past⟩ looks = .ok c' := by
  induction ticks generalizing s spec past with
  | nil =>
    cases h
    exact ⟨[], _, hj, rfl⟩
  | cons t ticks ih =>
    rcases Run.exec_cons_ok h with ⟨s₁, _, htick, hrest⟩
    cases PhaseRun.taken_of_ok htick with
    | held hfire hprogress =>
      rw [← (PhaseRun.fireFaults_same hfire).1] at hj
      apply ih past hrest ?_ hcls
      simp only [PhaseRun.hold]
      split
      . exact creditLiveness_always hj hcls
      . exact hj
    | @evaluated p _ heval =>
      rcases heval.eval with ⟨s₂, probes, bench, hfire, hprobes, rfl⟩
      rw [← (PhaseRun.fireFaults_same hfire).1] at hj
      rcases evalTick_step past hprobes hj hcls with ⟨verdict, spec', visit, hj', hstep⟩
      rcases ih (visit :: past) hrest hj' ((step_config hstep).1.trans hcls) with ⟨looks, c', hprobe, hexec⟩
      refine ⟨⟨(s₂.snapshot t p).2, t.now, verdict⟩ :: looks, c', hprobe, ?_⟩
      simp only [Run.exec, hstep]
      exact hexec

end Runner

end Steps

section EveryBlocks

variable {ceilQuotient : Nat → Nat → Nat} {b : ProbeBuilder} {n : Nat} {c c' : Course} {l : Look}

/--
What the cadence is to do at one tick: the first one is evaluated, and every one by which `n` blocks
were climbed.
-/
def OnCadence (ceilQuotient : Nat → Nat → Nat) (n : Nat) (c : Course) (l : Look) : Prop :=
  c.past = [] ∨ n ≤ climb (c.heights l) → c.evaluates ceilQuotient l = true

/--
Where `n` blocks were climbed, the rollbacks since the last evaluation take back no more than what
was climbed beyond.
-/
def FallSpared (n : Nat) (c : Course) (l : Look) : Prop :=
  n ≤ climb (c.heights l) → n + fall (c.heights l) ≤ climb (c.heights l)

theorem climb_add_getLast {h last : Nat} {hs : List Nat} (hlast : (h :: hs).getLast? = some last)
    : climb (h :: hs) + last = fall (h :: hs) + h := by
  induction hs generalizing h with
  | nil =>
    cases hlast
    rfl
  | cons h' hs ih =>
    rw [List.getLast?_cons_cons] at hlast
    have := ih hlast
    unfold climb fall
    omega

/--
The state of the probe names the last evaluation.
-/
structure Anchored (c : Course) : Prop where
  fired : c.spec.lastFiredSeq.isNone = c.past.isEmpty
  anchor : c.past ≠ [] →
    ((sinceEvaluation c.past).map (·.look.snap.height)).getLast? = some c.spec.lastFiredHeight

theorem anchored_start (b : ProbeBuilder) : Anchored (start b) := ⟨rfl, fun h => absurd rfl h⟩

theorem due_everyBlocks (hconf : Configured (b.everyBlocks n) c) (hcls : b.cls = .always) (height now : Nat)
    : c.spec.due height now =
      (c.spec.lastFiredSeq.isNone || decide (n ≤ height - c.spec.lastFiredHeight)) := by
  have hcls : c.spec.cls = .always := hconf.cls.trans hcls
  unfold ProbeSpec.due
  rw [hcls, hconf.cadence]
  rfl

theorem Anchored.step (h : Anchored c) (hconf : Configured (b.everyBlocks n) c) (hcls : b.cls = .always)
    (hstep : c.step ceilQuotient l = .ok (c', ()))
    : Anchored c' := by
  rcases step_ok hstep with ⟨hpast, hspec⟩
  split at hspec
  . next hdue =>
    constructor
    . rw [hspec, hpast]
      rfl
    . intro _
      rw [hspec, hpast, hdue]
      rfl
  . next hdue =>
    have hpre : c.past ≠ [] := by
      intro hnil
      rw [due_everyBlocks hconf hcls, h.fired, hnil] at hdue
      exact hdue rfl
    constructor
    . rw [hspec, hpast, h.fired]
      simpa using hpre
    . intro _
      have hsince : sinceEvaluation c'.past = ⟨l, false⟩ :: sinceEvaluation c.past := by
        rw [hpast, Bool.eq_false_iff.mpr hdue]
        rfl
      rw [hspec, hsince, List.map_cons, List.getLast?_cons, h.anchor hpre]
      rfl

theorem Anchored.onCadence_iff (h : Anchored c) (hconf : Configured (b.everyBlocks n) c)
    (hcls : b.cls = .always) (hn : 1 ≤ n)
    : OnCadence ceilQuotient n c l ↔ FallSpared n c l := by
  unfold OnCadence FallSpared
  rw [evaluates_eq_due, due_everyBlocks hconf hcls, h.fired]
  by_cases hpast : c.past = []
  . -- The first tick is evaluated, and nothing is climbed there.
    have hclimb : climb (c.heights l) = 0 := by
      rw [heights, hpast]
      rfl
    constructor
    . intro _ hle
      omega
    . intro _ _
      rw [hpast]
      rfl
  . have hlast : (c.heights l).getLast? = some c.spec.lastFiredHeight := by
      rw [heights, List.getLast?_cons, h.anchor hpast]
      rfl
    have hnet := climb_add_getLast hlast
    rw [← heights] at hnet
    simp only [hpast, false_or, List.isEmpty_eq_false_iff.mpr hpast, Bool.false_or, decide_eq_true_eq]
    constructor
    . intro hdue hn
      have := hdue hn
      omega
    . intro hspared hn
      have := hspared hn
      omega

theorem everyBlocks_onCadence_iff (ceilQuotient : Nat → Nat → Nat) (b : ProbeBuilder) (hcls : b.cls = .always)
    (n : Nat) (hn : 1 ≤ n) (looks : List Look)
    : Run.Along (step ceilQuotient) (OnCadence ceilQuotient n) (start (b.everyBlocks n)) looks ↔
      Run.Along (step ceilQuotient) (FallSpared n) (start (b.everyBlocks n)) looks := by
  apply Run.along_iff_along (I := fun c => Configured (b.everyBlocks n) c ∧ Anchored c)
  . rintro c l ⟨hconf, hanchored⟩
    exact hanchored.onCadence_iff hconf hcls hn
  . rintro c l c' _ ⟨hconf, hanchored⟩ _ hstep
    exact ⟨hconf.step hstep, hanchored.step hconf hcls hstep⟩
  . exact ⟨configured_start _, anchored_start _⟩

def satisfiedAt (height : Nat) : Look where
  snap := ((SnapshotBuilder.new 0).build ⟨height, none⟩ 0 .default).2
  now := 0
  verdict := .satisfied

def counted : ProbeBuilder := ProbeBuilder.new "counted" .always .recorded

theorem everyBlocks_onCadence_of_rising
    : Run.Along (step Duration.ceilQuotient) (OnCadence Duration.ceilQuotient 5)
        (start (counted.everyBlocks 5)) [satisfiedAt 0, satisfiedAt 2, satisfiedAt 8] := by
  rw [everyBlocks_onCadence_iff Duration.ceilQuotient counted rfl 5 (by decide)]
  refine ⟨by unfold FallSpared; decide, ?_⟩
  intro c _ h
  cases h
  refine ⟨by unfold FallSpared; decide, ?_⟩
  intro c _ h
  cases h
  refine ⟨by unfold FallSpared; decide, ?_⟩
  intro _ _ _
  trivial

/--
Rolled back from 100 to 50, the subject climbs five blocks, and the probe of every five is not asked.
-/
theorem everyBlocks_silent_after_rollback
    : ¬ Run.Along (step Duration.ceilQuotient) (OnCadence Duration.ceilQuotient 5)
        (start (counted.everyBlocks 5)) [satisfiedAt 100, satisfiedAt 50, satisfiedAt 55] := by
  intro h
  have h : Run.Along _ _ _ ([satisfiedAt 100, satisfiedAt 50] ++ [satisfiedAt 55]) := h
  have hlate := h.get rfl
  have hsilent := hlate (.inr (by decide))
  revert hsilent
  decide

end EveryBlocks

section Debounce

variable {ceilQuotient : Nat → Nat → Nat} {c c' : Course} {l : Look}
variable {name : String} {severity : Severity} {cadence : Cadence} {hold period : Nat}

/--
What the debounce is to do at one tick: nothing is recorded before the violation has persisted, and
an answer that is no violation starts the count anew.
-/
structure DebouncedAt (ceilQuotient : Nat → Nat → Nat) (hold : Nat) (c : Course) (l : Look) : Prop where
  persisted : c.records ceilQuotient l = true → c.Persisted hold l
  restarts : c.evaluates ceilQuotient l = true → (l.verdict = .satisfied ∨ l.verdict = .pending) →
    (c.turn ceilQuotient l).1.violationStreak = 0

def Spaced (period : Nat) (ls : List Look) : Prop :=
  ls.Pairwise fun newer older => older.now + period ≤ newer.now

theorem Spaced.reach {ls : List Look} (h : Spaced period (l :: ls))
    : ∃ first ∈ l :: ls, first.now + ls.length * period ≤ l.now := by
  induction ls generalizing l with
  | nil => exact ⟨l, List.mem_cons_self, by simp⟩
  | cons next ls ih =>
    rcases List.pairwise_cons.mp h with ⟨hnext, hrest⟩
    have hnext := hnext next List.mem_cons_self
    rcases ih hrest with ⟨first, hmem, hfirst⟩
    refine ⟨first, List.mem_cons_of_mem l hmem, ?_⟩
    rw [List.length_cons, Nat.succ_mul]
    omega

/--
What the state of a probe says about its evaluations.
-/
structure Tracked (c : Course) : Prop where
  streak : c.spec.violationStreak = (c.evaluations.takeWhile (·.verdict.isViolated)).length
  nextDue : ∀ period, c.spec.cadence = .every period →
    c.spec.nextDue = c.evaluations.head?.map (·.now + period)
  spaced : ∀ period, c.spec.cadence = .every period → Spaced period c.evaluations

theorem tracked_start (b : ProbeBuilder) : Tracked (start b) := ⟨rfl, fun _ _ => rfl, fun _ _ => .nil⟩

theorem Tracked.spaced_cons (h : Tracked c) (hcls : c.spec.cls = .always)
    (hdue : c.spec.due l.snap.height l.now = true)
    (hcadence : c.spec.cadence = .every period)
    : Spaced period (l :: c.evaluations) := by
  have hspaced := h.spaced period hcadence
  apply List.Pairwise.cons ?_ hspaced
  simp only [ProbeSpec.due, hcls, hcadence] at hdue
  rw [h.nextDue period hcadence] at hdue
  intro e he
  cases hevals : c.evaluations with
  | nil => simp [hevals] at he
  | cons newest older =>
    rw [hevals] at hdue hspaced he
    have hnewest : newest.now + period ≤ l.now := by simpa using hdue
    rcases List.mem_cons.mp he with rfl | he
    . exact hnewest
    . have := (List.pairwise_cons.mp hspaced).1 e he
      omega

theorem Tracked.step (h : Tracked c) (hcls : c.spec.cls = .always)
    (hstep : c.step ceilQuotient l = .ok (c', ()))
    : Tracked c' := by
  rcases step_ok hstep with ⟨hpast, hspec⟩
  split at hspec
  . next hdue =>
    have hevals : c'.evaluations = l :: c.evaluations := by simp [evaluations, hpast, hdue]
    constructor
    . rw [hspec, hevals, List.takeWhile_cons]
      cases hviolated : l.verdict.isViolated with
      | true => simp [judged, hviolated, h.streak]
      | false => simp [judged, hviolated]
    . intro period hcadence
      rw [hspec] at hcadence
      rw [hspec, hevals]
      have hcadence : c.spec.cadence = .every period := hcadence
      simp [judged, ProbeSpec.markFired, hcadence]
    . intro period hcadence
      rw [hspec] at hcadence
      rw [hevals]
      exact h.spaced_cons hcls hdue hcadence
  . next hdue =>
    have hevals : c'.evaluations = c.evaluations := by simp [evaluations, hpast, hdue]
    constructor
    . rw [hspec, hevals, h.streak]
    . rw [hspec, hevals]
      exact h.nextDue
    . rw [hspec, hevals]
      exact h.spaced

theorem threshold_every (hconf : Configured (.debounced name severity (.every period) hold) c)
    (hperiod : period ≠ 0)
    : c.spec.violationThreshold ceilQuotient = ceilQuotient hold period := by
  unfold ProbeSpec.violationThreshold
  rw [hconf.cadence, hconf.holdFor]
  exact if_neg hperiod

theorem due_every (hconf : Configured (.debounced name severity (.every period) hold) c) (height now : Nat)
    : c.spec.due height now = c.spec.nextDue.all (· ≤ now) := by
  unfold ProbeSpec.due
  rw [hconf.cls, hconf.cadence]
  rfl

/--
The quotient of the two durations comes out above the exact one rounded up. Nothing but the rounding
of `f64` can do that.
-/
def Overcounts (ceilQuotient : Nat → Nat → Nat) (hold : Nat) : Cadence → Prop
  | .every period => period ≠ 0 ∧ (hold + period - 1) / period < ceilQuotient hold period
  | _ => False

theorem Tracked.persisted (h : Tracked c) (hconf : Configured (.debounced name severity cadence hold) c)
    (hcond : hold = 0 ∨ Overcounts ceilQuotient hold cadence) (hrec : c.records ceilQuotient l = true)
    : c.Persisted hold l := by
  rcases (records_iff ceilQuotient c l).mp hrec with ⟨hdue, hviolated, hreached⟩
  have hrun : (l :: c.evaluations).takeWhile (·.verdict.isViolated) =
      l :: c.evaluations.takeWhile (·.verdict.isViolated) := by
    rw [List.takeWhile_cons, if_pos hviolated]
  rw [Persisted, hrun]
  rcases hcond with rfl | hcond
  . exact ⟨l, List.mem_cons_self, Nat.le_refl _⟩
  . unfold Overcounts at hcond
    split at hcond
    . next period =>
      have hspaced : Spaced period (l :: c.evaluations.takeWhile (·.verdict.isViolated)) := by
        rw [← hrun]
        exact (h.spaced_cons hconf.cls hdue hconf.cadence).sublist (List.takeWhile_sublist _)
      rcases hspaced.reach with ⟨first, hmem, hfirst⟩
      refine ⟨first, hmem, ?_⟩
      rw [← h.streak] at hfirst
      rw [threshold_every hconf hcond.1] at hreached
      have hlt : (hold + period - 1) / period < c.spec.violationStreak + 1 := by omega
      rw [Nat.div_lt_iff_lt_mul (Nat.pos_of_ne_zero hcond.1), Nat.succ_mul] at hlt
      omega
    . exact absurd hcond id

def violatedAt (now : Nat) : Look where
  snap := ((SnapshotBuilder.new 0).build ⟨0, none⟩ now .default).2
  now := now
  verdict := .violated ⟨"", none, ""⟩

def violatedEach (period n : Nat) : List Look := (List.range n).map fun i => violatedAt (i * period)

theorem violatedEach_increasing (h : period ≠ 0) (n : Nat)
    : (violatedEach period n).Pairwise (·.now < ·.now) := by
  rw [violatedEach, List.pairwise_map]
  apply List.pairwise_lt_range.imp
  intro i j hlt
  exact Nat.mul_lt_mul_of_pos_right hlt (Nat.pos_of_ne_zero h)

theorem violatedEach_succ (period n : Nat)
    : violatedEach period (n + 1) = violatedEach period n ++ [violatedAt (n * period)] := by
  simp [violatedEach, List.range_succ]

theorem exec_violatedEach (name : String) (severity : Severity) (hperiod : period ≠ 0)
    {n : Nat} (hn : n < ceilQuotient hold period)
    : ∃ c, Run.exec (step ceilQuotient) (start (.debounced name severity (.every period) hold))
        (violatedEach period n) = .ok c ∧
        Configured (.debounced name severity (.every period) hold) c ∧
        c.spec.violationStreak = n ∧ c.spec.nextDue.all (· ≤ n * period) = true := by
  induction n with
  | zero => exact ⟨_, rfl, configured_start _, rfl, rfl⟩
  | succ n ih =>
    rcases ih (by omega) with ⟨c, hexec, hconf, hstreak, hnext⟩
    have hdue : c.spec.due (violatedAt (n * period)).snap.height (n * period) = true := by
      rw [due_every hconf]
      exact hnext
    have hbelow : c.spec.violationStreak + 1 < c.spec.violationThreshold ceilQuotient := by
      rw [threshold_every hconf hperiod, hstreak]
      exact hn
    have hstep := step_of_below (l := violatedAt (n * period)) hdue rfl hbelow
    refine ⟨_, ?_, hconf.step hstep, ?_, ?_⟩
    . rw [violatedEach_succ, Run.exec_append hexec]
      simp only [Run.exec, hstep]
    . exact congrArg (· + 1) hstreak
    . have hcadence : c.spec.cadence = .every period := hconf.cadence
      simp [judged, ProbeSpec.markFired, hcadence, violatedAt, Nat.succ_mul]

/--
The code looks back too little once a recorded violation comes at the instant `now < hold`.
-/
theorem not_debouncedAt {now : Nat} (hrec : c.records ceilQuotient (violatedAt now) = true)
    (hshort : now < hold)
    : ¬ DebouncedAt ceilQuotient hold c (violatedAt now) := by
  intro h
  rcases h.persisted hrec with ⟨first, _, hfirst⟩
  have hnow : (violatedAt now).now = now := rfl
  omega

theorem exists_not_debounced (name : String) (severity : Severity) (hhold : hold ≠ 0)
    (hcond : ¬ Overcounts ceilQuotient hold cadence)
    : ∃ looks : List Look, looks.Pairwise (·.now < ·.now) ∧
        ¬ Run.Along (step ceilQuotient) (DebouncedAt ceilQuotient hold)
          (start (.debounced name severity cadence hold)) looks := by
  by_cases hone : (start (.debounced name severity cadence hold)).spec.violationThreshold ceilQuotient ≤ 1
  . -- The first violation is recorded.
    refine ⟨[violatedAt 0], List.pairwise_singleton _ _, ?_⟩
    intro h
    apply not_debouncedAt ?_ (Nat.pos_of_ne_zero hhold) h.1
    rw [records_iff]
    refine ⟨?_, rfl, hone⟩
    cases cadence with
    | eachTick => rfl
    | every period => rfl
    | everyBlocks n => rfl
    | window d => rfl
  . cases cadence with
    | eachTick => exact absurd (Nat.le_refl 1) hone
    | everyBlocks n => exact absurd (Nat.le_refl 1) hone
    | window d => exact absurd (Nat.le_refl 1) hone
    | every period =>
      by_cases hperiod : period = 0
      . subst hperiod
        exact absurd (Nat.le_refl 1) hone
      . rw [threshold_every (configured_start _) hperiod] at hone
        have hlast : ceilQuotient hold period - 1 < ceilQuotient hold period := by omega
        rcases exec_violatedEach name severity hperiod hlast with ⟨c, hexec, hconf, hstreak, hnext⟩
        refine ⟨violatedEach period (ceilQuotient hold period - 1 + 1), violatedEach_increasing hperiod _, ?_⟩
        intro h
        rw [violatedEach_succ] at h
        refine not_debouncedAt ?_ ?_ (h.get hexec)
        . rw [records_iff, due_every hconf, threshold_every hconf hperiod, hstreak]
          exact ⟨hnext, rfl, by omega⟩
        . have hle : ceilQuotient hold period ≤ (hold + period - 1) / period := by
            apply Nat.le_of_not_lt
            intro hlt
            exact hcond ⟨hperiod, hlt⟩
          rw [Nat.le_div_iff_mul_le (Nat.pos_of_ne_zero hperiod)] at hle
          rw [Nat.sub_one_mul]
          omega

theorem debounces_iff (name : String) (severity : Severity) (cadence : Cadence) (hold : Nat)
    : (∀ looks : List Look, looks.Pairwise (·.now < ·.now) →
        Run.Along (step Duration.ceilQuotient) (DebouncedAt Duration.ceilQuotient hold)
          (start (.debounced name severity cadence hold)) looks) ↔
      hold = 0 ∨ Overcounts Duration.ceilQuotient hold cadence := by
  constructor
  . intro h
    by_contra hcond
    rw [not_or] at hcond
    rcases exists_not_debounced name severity hcond.1 hcond.2 with ⟨looks, hinc, hnot⟩
    exact hnot (h looks hinc)
  . intro hcond looks _
    apply Run.along_of_get
    intro pre l post c _ hexec
    have hinv := Run.exec_invariant (I := fun c => Configured (.debounced name severity cadence hold) c ∧ Tracked c)
      ?_ ⟨configured_start _, tracked_start _⟩ hexec
    . constructor
      . exact hinv.2.persisted hinv.1 hcond
      . exact turn_restarts
    . rintro c l c' _ ⟨hconf, htracked⟩ hstep
      exact ⟨hconf.step hstep, htracked.step hconf.cls hstep⟩

example : Overcounts Duration.ceilQuotient 270000000 (.every 30000000) := by
  refine ⟨by decide, ?_⟩
  decide +kernel

/--
Held for a minute and looked at twice a minute, a violation is recorded half a minute after it
showed. Looked at each tick, it is recorded at once.
-/
theorem not_debounced_every_eachTick
    : ¬ Run.Along (step Duration.ceilQuotient) (DebouncedAt Duration.ceilQuotient 60000000000)
        (start (.debounced "lag" .fatal (.every 30000000000) 60000000000))
        [violatedAt 0, violatedAt 30000000000] ∧
      ¬ Run.Along (step Duration.ceilQuotient) (DebouncedAt Duration.ceilQuotient 60000000000)
        (start (.debounced "lag" .fatal .eachTick 60000000000)) [violatedAt 0] := by
  have hquotient : Duration.ceilQuotient 60000000000 30000000000 = 2 := by decide +kernel
  constructor
  . intro h
    have hlast : 1 < Duration.ceilQuotient 60000000000 30000000000 := by omega
    rcases exec_violatedEach "lag" .fatal (by decide) hlast with ⟨c, hexec, hconf, hstreak, hnext⟩
    have h : Run.Along _ _ _ ([violatedAt 0] ++ [violatedAt 30000000000]) := h
    refine not_debouncedAt ?_ (by decide) (h.get hexec)
    rw [records_iff, due_every hconf, threshold_every hconf (by decide), hstreak, hquotient]
    exact ⟨hnext, rfl, Nat.le_refl 2⟩
  . intro h
    refine not_debouncedAt ?_ (by decide) h.1
    rw [records_iff]
    exact ⟨rfl, rfl, Nat.le_refl 1⟩

end Debounce

end Course
end Sync
