import Ztest.Sync.Runner.Lemmas.Step

namespace Sync

/--
What the completion sweep does to one probe: an `at_completion` probe has its last judgement on
record, over the final snapshot, and a violation counts.
-/
structure CompletionTurn (snap : Snapshot) (j : Nat) (spec spec' : ProbeSpec) (s s' : Bench × Bool)
    : Prop where
  turn : Turn j spec spec' s.1 s'.1
  judged : ∃ gs, s'.1.judged = gs ++ s.1.judged ∧ ∀ g ∈ gs, g.probe = j
  answered : spec.cls = .atCompletion → ∃ g, s'.1.judged.find? (·.probe == j) = some g ∧
    g.snap = snap ∧ (g.verdict.isViolated = true → s'.1.violations ≠ [])
  violations : s.1.violations ≠ [] → s'.1.violations ≠ []
  fatal : s'.2 = true → s.2 = true ∨ s'.1.violations ≠ []

structure Closed (specs : List ProbeSpec) (snap : Snapshot) (n : Nat) (probes : List ProbeSpec)
    (s : Bench × Bool) : Prop where
  audited : Audited specs probes s.1
  answered : ∀ (j : Nat) (spec : ProbeSpec), j < n → specs[j]? = some spec →
    spec.cls = .atCompletion → ∃ g, s.1.judged.find? (·.probe == j) = some g ∧
      g.snap = snap ∧ (g.verdict.isViolated = true → s.1.violations ≠ [])
  fatal : s.2 = true → s.1.violations ≠ []

theorem violate_violations (b : Bench) (v : Violation) : (b.violate v).violations ≠ [] := by
  simp [Bench.violate]

theorem isProbeError_of_isViolated {verdict : Verdict} (h : verdict.isViolated = true)
    : verdict.isProbeError = false := by
  cases verdict <;> first | rfl | cases h

section Completion

variable {answers : Nat → Verdict} {snap : Snapshot} {retries : Nat → Retry} {j : Nat}
variable {specs probes probes' : List ProbeSpec} {spec spec' : ProbeSpec} {b b' : Bench}
variable {fatal fatal' : Bool}

theorem CompletionTurn.of_judgeUntil {retryUntil : Option Nat} {attempts : List Attempt}
    {verdict : Verdict} {c : Bench}
    (h : judgeUntil answers j snap retryUntil attempts b = some (verdict, c))
    (herror : verdict.isProbeError = false) (hjudged : b'.judged = c.judged)
    (hviolated : verdict.isViolated = true → b'.violations ≠ [])
    (hviolations : b.violations ≠ [] → b'.violations ≠ [])
    (hfatal : fatal' = true → fatal = true ∨ b'.violations ≠ [])
    : CompletionTurn snap j spec spec (b, fatal) (b', fatal') := by
  obtain ⟨-, gs, hgs, hall⟩ := judgeUntil_judged h
  rw [← hjudged] at hgs
  refine ⟨⟨rfl, ⟨⟨j, snap, verdict⟩ :: gs, hgs, ?_⟩, Or.inl⟩, ⟨⟨j, snap, verdict⟩ :: gs, hgs, ?_⟩,
    ?_, hviolations, hfatal⟩
  . intro g hg
    rw [List.mem_cons] at hg
    cases hg with
    | inl hg =>
      rw [hg]
      exact herror
    | inr hg => exact isProbeError_of_isViolated (hall g hg).2
  . intro g hg
    rw [List.mem_cons] at hg
    cases hg with
    | inl hg => rw [hg]
    | inr hg => exact (hall g hg).1
  . intro _
    refine ⟨⟨j, snap, verdict⟩, ?_, rfl, hviolated⟩
    rw [hgs]
    simp

theorem CompletionTurn.of_unviolated {retryUntil : Option Nat} {attempts : List Attempt}
    {verdict : Verdict} (h : judgeUntil answers j snap retryUntil attempts b = some (verdict, b'))
    (herror : verdict.isProbeError = false) (hviolated : verdict.isViolated = false)
    : CompletionTurn snap j spec spec (b, fatal) (b', fatal) := by
  apply CompletionTurn.of_judgeUntil h herror rfl _ _ Or.inl
  . intro hv
    rw [hviolated] at hv
    cases hv
  . intro hb
    rw [(judgeUntil_judged h).1]
    exact hb

theorem completionStep_turn
    (h : completionStep answers snap retries j spec (b, fatal) = (spec', (b', fatal'), none))
    : CompletionTurn snap j spec spec' (b, fatal) (b', fatal') := by
  unfold completionStep at h
  split at h
  . next =>
    dsimp only at h
    split at h
    . next => cases h
    . next c hjudge =>
      cases h
      exact .of_unviolated hjudge rfl rfl
    . next c hjudge =>
      cases h
      exact .of_unviolated hjudge rfl rfl
    . next v c hjudge =>
      cases h
      have hrecorded := violate_violations c { v with probe := spec.name }
      exact .of_judgeUntil hjudge rfl rfl (fun _ => hrecorded) (fun _ => hrecorded)
        (fun _ => Or.inr hrecorded)
    . next => cases h
  . next hcls =>
    cases h
    exact ⟨.refl j spec b, ⟨[], rfl, by simp⟩, fun hc => absurd hc hcls, id, Or.inl⟩

theorem Closed.turn {pre post : List ProbeSpec} {s s' : Bench × Bool}
    (h : Closed specs snap pre.length (pre ++ spec :: post) s)
    (ht : CompletionTurn snap pre.length spec spec' s s')
    : Closed specs snap (pre.length + 1) (pre ++ spec' :: post) s' := by
  refine ⟨h.audited.turn ht.turn, ?_, ?_⟩
  . intro j sp hj hsp hcls
    by_cases hlast : j = pre.length
    . subst hlast
      apply ht.answered
      have hreg : specs[pre.length]? = some spec.fresh := by
        rw [← h.audited.fresh]
        simp
      rw [hreg, Option.some.injEq] at hsp
      rw [← hsp] at hcls
      exact hcls
    . -- The judgements of this turn are of another probe.
      obtain ⟨g, hg, hsnap, hviolated⟩ := h.answered j sp (by omega) hsp hcls
      obtain ⟨gs, hjudged, hgs⟩ := ht.judged
      refine ⟨g, ?_, hsnap, fun hv => ht.violations (hviolated hv)⟩
      rw [hjudged, List.find?_append]
      have hnone : gs.find? (·.probe == j) = none := by
        rw [List.find?_eq_none]
        intro g' hg'
        rw [hgs g' hg']
        simpa using Ne.symm hlast
      rw [hnone]
      exact hg
  . intro hfatal
    cases ht.fatal hfatal with
    | inl hold => exact ht.violations (h.fatal hold)
    | inr hnew => exact hnew

theorem evalAtCompletion_closed (haudit : Audited specs probes b)
    (h : evalAtCompletion answers snap retries probes b = (probes', (b', fatal), none))
    : Closed specs snap probes'.length probes' (b', fatal) := by
  have hinit : Closed specs snap 0 probes (b, false) := by
    refine ⟨haudit, ?_, ?_⟩
    . intro j spec hj
      omega
    . intro hf
      cases hf
  apply Sweep.sweep_none (P := Closed specs snap) ?_ hinit h
  intro pre spec post s spec' s' hclosed hstep
  exact hclosed.turn (completionStep_turn hstep)

end Completion

namespace PhaseRun

structure Running (specs : List ProbeSpec) (s : PhaseRun) : Prop where
  audited : Audited specs s.probes s.bench
  final : s.final = none
  fatal : s.fatal = false

/--
A phase behind its finish line. Nothing is known of its `at_completion` probes when the reading
failed.
-/
structure Finished (specs : List ProbeSpec) (finish : Finish) (s : PhaseRun) : Prop where
  audited : Audited specs s.probes s.bench
  fatal : s.fatal = true → s.bench.violations ≠ []
  unread : finish.progress.isOk = false → s.final = none
  read : finish.progress.isOk = true → ∃ snap, s.final = some snap ∧
    Closed specs snap s.probes.length s.probes (s.bench, s.fatal)

variable {specs : List ProbeSpec} {s s' : PhaseRun}

theorem applyFaults_frame {watched : List Watched} {kills : Nat → Option String} {now i : Nat}
    {faults : List ScheduledFault} {r : Option String} (hrun : Running specs s)
    (h : applyFaults watched kills now i faults s = (s', r)) : Running specs s' := by
  induction faults generalizing i s with
  | nil =>
    cases h
    exact hrun
  | cons fault faults ih =>
    unfold applyFaults at h
    split at h
    . next =>
      split at h
      . next =>
        cases h
        exact hrun
      . next =>
        split at h
        . next =>
          cases h
          exact hrun
        . next =>
          apply ih ?_ h
          exact ⟨hrun.audited, hrun.final, hrun.fatal⟩
    . next => exact ih hrun h

theorem fireFaults_running {watched : List Watched} {t : Tick} {r : Option String}
    (hrun : Running specs s) (h : s.fireFaults watched t = (s', r)) : Running specs s' := by
  apply applyFaults_frame ?_ h
  exact ⟨hrun.audited, hrun.final, hrun.fatal⟩

theorem creditLiveness_audited {probes : List ProbeSpec} {b : Bench} (now : Nat)
    (h : Audited specs probes b) : Audited specs (creditLiveness probes now) b := by
  unfold creditLiveness
  refine ⟨?_, ?_, h.clean⟩
  . rw [← h.fresh, List.map_map]
    apply List.map_congr_left
    intro spec _
    rw [Function.comp_apply]
    split <;> rfl
  . intro j spec hspec hsat
    rw [List.getElem?_map, Option.map_eq_some_iff] at hspec
    obtain ⟨old, hold, rfl⟩ := hspec
    apply h.latched j old hold
    split at hsat <;> exact hsat

theorem hold_running (t : Tick) (hrun : Running specs s) : Running specs (s.hold t) := by
  refine ⟨?_, hrun.final, hrun.fatal⟩
  unfold hold
  dsimp only
  split
  . exact creditLiveness_audited t.now hrun.audited
  . exact hrun.audited

theorem judgeFinish_finished {answers : Nat → Verdict} {finish : Finish} (hrun : Running specs s)
    (h : s.judgeFinish answers finish = some (s', none))
    : Finished specs finish s' ∧ s'.stopHeight = s.stopHeight := by
  unfold judgeFinish at h
  split at h
  . next e hread =>
    cases h
    refine ⟨⟨hrun.audited, ?_, fun _ => hrun.final, ?_⟩, rfl⟩
    . intro hf
      rw [hrun.fatal] at hf
      cases hf
    . intro hok
      rw [hread] at hok
      cases hok
  . next p hread =>
    dsimp only at h
    split at h
    . next => cases h
    . next probes bench hsometimes =>
      have haudit := evalSometimes_audited hrun.audited hsometimes
      split at h
      . next => cases h
      . next => cases h
      . next probes' bench' anyFatal hcompletion =>
        have hclosed := evalAtCompletion_closed haudit hcompletion
        cases h
        have hfatal : (s.fatal || anyFatal) = anyFatal := by
          rw [hrun.fatal]
          rfl
        refine ⟨⟨hclosed.audited, ?_, ?_, ?_⟩, rfl⟩
        . rw [hfatal]
          exact hclosed.fatal
        . intro hok
          rw [hread] at hok
          cases hok
        . intro _
          refine ⟨_, rfl, ?_⟩
          rw [hfatal]
          exact hclosed

section Tick

variable {watched : List Watched} {w : World} {deadline : Option Nat} {finish : Finish} {t : Tick}

theorem Evaluated.running {p : ProgressView} (h : Evaluated watched w s t p none s')
    (hrun : Running specs s) : Running specs s' := by
  obtain ⟨s₁, probes, bench, hfire, heval, rfl⟩ := h.eval
  have hrun₁ := fireFaults_running hrun hfire
  exact ⟨evalTick_audited hrun₁.audited heval, hrun₁.final, hrun₁.fatal⟩

theorem tick_running (hrun : Running specs s) (h : s.tick watched w deadline finish t = .ok (s', ()))
    : Running specs s' := by
  have hticked := tick_ticked watched w deadline finish s t
  rw [h] at hticked
  cases hticked with
  | held hfire _ _ => exact hold_running t (fireFaults_running hrun hfire)
  | continued heval _ => exact heval.running hrun

structure Passed (specs : List ProbeSpec) (finish : Finish) (t : Tick) (s : PhaseRun) (e : Ending)
    : Prop where
  finished : Finished specs finish s
  reached : ∃ p, t.progress = .ok p ∧
    (t.complete = true ∨ ∃ h, s.stopHeight = some h ∧ h ≤ p.height)
  violations : s.bench.violations = []
  gaps : coverageGaps s.probes = []
  ending : e = ⟨.passed, none, true⟩

theorem complete_passed {error : Option String} {e : Ending} (h : s.complete error = .ended s' e)
    (hp : e.verdict = .passed)
    : error = none ∧ s'.bench.violations = [] ∧ coverageGaps s'.probes = [] ∧ s' = s ∧
      e = ⟨.passed, none, true⟩ := by
  unfold complete at h
  dsimp only at h
  cases h
  dsimp only at hp
  split at hp
  . next => cases hp
  . next herror =>
    have herror : error = none := by simpa using herror
    split at hp
    . next hclean =>
      rw [Bool.and_eq_true, List.isEmpty_iff, List.isEmpty_iff] at hclean
      refine ⟨herror, hclean.1, hclean.2, ?_, ?_⟩
      . rw [hclean.2]
        simp
      . simp [herror, hclean]
    . next => cases hp

theorem tick_passed {e : Ending} (hrun : Running specs s)
    (h : s.tick watched w deadline finish t = .error (.ended s' e)) (hp : e.verdict = .passed)
    : Passed specs finish t s' e := by
  have hticked := tick_ticked watched w deadline finish s t
  rw [h] at hticked
  generalize hstop : Stop.ended s' e = stop at hticked
  cases hticked with
  | arrived heval hreached hfinish =>
    obtain ⟨rfl, hviolations, hgaps, rfl, rfl⟩ := complete_passed hstop.symm hp
    obtain ⟨hfinished, hheight⟩ := judgeFinish_finished (heval.running hrun) hfinish
    refine ⟨hfinished, ⟨_, heval.progress, ?_⟩, hviolations, hgaps, rfl⟩
    rw [hheight]
    rw [Bool.or_eq_true, Option.any_eq_true] at hreached
    cases hreached with
    | inl hle =>
      obtain ⟨h, hh, hle⟩ := hle
      exact Or.inr ⟨h, hh, of_decide_eq_true hle⟩
    | inr hcomplete => exact Or.inl hcomplete
  | retrying => cases hstop
  | _ =>
    -- Every other ending is cut short with another verdict.
    cases hstop
    cases hp

theorem Passed.proceed {e : Ending} (phase : Phase) (h : Passed specs finish t s e)
    : (s.result phase e).proceed = true := by
  have hfatal : s.fatal = false := by
    rw [← Bool.not_eq_true]
    exact fun hf => h.finished.fatal hf h.violations
  unfold result
  rw [h.ending, hfatal]
  rfl

end Tick
end PhaseRun

/--
A phase that was really checked, with `specs` for its own probes and the run-wide ones.
-/
structure PhaseChecked (specs : List ProbeSpec) (timeline : Timeline) (r : PhaseResult)
    : Prop where
  completed : r.completed = true
  reached : ∃ t ∈ timeline.ticks, ∃ p, t.progress = .ok p ∧
    (t.complete = true ∨ ∃ h, r.stopHeight = some h ∧ h ≤ p.height)
  atCompletion : ∀ (j : Nat) (spec : ProbeSpec), specs[j]? = some spec → spec.cls = .atCompletion →
    ∃ g, r.judged.find? (·.probe == j) = some g ∧ some g.snap = r.final ∧
      g.verdict.isViolated = false
  sometimes : ∀ (j : Nat) (spec : ProbeSpec), specs[j]? = some spec → spec.cls = .sometimes →
    ∃ g ∈ r.judged, g.probe = j ∧ g.verdict = .satisfied
  violations : r.violations = []
  errors : ∀ g ∈ r.judged, g.verdict.isProbeError = false

/--
The second reading of a phase succeeded, or no `at_completion` probe depends on it.
-/
def FinishRead (specs : List ProbeSpec) (finish : Finish) : Prop :=
  finish.progress.isOk = true ∨ ∀ spec ∈ specs, spec.cls ≠ .atCompletion

theorem everSatisfied_of_coverageGaps {probes : List ProbeSpec} {spec : ProbeSpec}
    (h : coverageGaps probes = []) (hmem : spec ∈ probes) (hcls : spec.cls = .sometimes)
    : spec.everSatisfied = true := by
  unfold coverageGaps at h
  rw [List.map_eq_nil_iff, List.filter_eq_nil_iff] at h
  have := h spec hmem
  rw [hcls] at this
  simpa using this

theorem PhaseRun.Passed.checked_iff {specs : List ProbeSpec} {timeline : Timeline} {t : Tick}
    {s : PhaseRun} {e : Ending} {phase : Phase} (h : Passed specs timeline.finish t s e)
    (ht : t ∈ timeline.ticks)
    : PhaseChecked specs timeline (s.result phase e) ↔ FinishRead specs timeline.finish := by
  have haudit := h.finished.audited
  constructor
  . intro hchecked
    by_cases hread : timeline.finish.progress.isOk = true
    . exact Or.inl hread
    . -- No final snapshot, no judgement over it.
      right
      intro spec hmem hcls
      obtain ⟨j, hj⟩ := List.mem_iff_getElem?.mp hmem
      obtain ⟨g, -, hsnap, -⟩ := hchecked.atCompletion j spec hj hcls
      have hfinal := h.finished.unread (by simpa using hread)
      rw [show (s.result phase e).final = s.final from rfl, hfinal] at hsnap
      cases hsnap
  . intro hread
    refine ⟨?_, ⟨t, ht, h.reached⟩, ?_, ?_, h.violations, haudit.clean⟩
    . unfold result
      rw [h.ending]
    . intro j spec hspec hcls
      cases hread with
      | inl hread =>
        obtain ⟨snap, hfinal, hclosed⟩ := h.finished.read hread
        have hlt : j < s.probes.length := by
          rw [← List.length_map ProbeSpec.fresh, haudit.fresh]
          exact (List.getElem?_eq_some_iff.mp hspec).1
        obtain ⟨g, hg, hsnap, hviolated⟩ := hclosed.answered j spec hlt hspec hcls
        refine ⟨g, hg, ?_, ?_⟩
        . rw [hsnap]
          exact hfinal.symm
        . rw [← Bool.not_eq_true]
          exact fun hv => hviolated hv h.violations
      | inr hnone => exact absurd hcls (hnone spec (List.mem_of_getElem? hspec))
    . intro j spec hspec hcls
      rw [← haudit.fresh, List.getElem?_map, Option.map_eq_some_iff] at hspec
      obtain ⟨cur, hcur, rfl⟩ := hspec
      apply haudit.latched j cur hcur
      exact everSatisfied_of_coverageGaps h.gaps (List.mem_of_getElem? hcur) hcls

namespace SyncEngine

variable {eng : SyncEngine} {w : World}

theorem probes_fresh (eng : SyncEngine) (phase : Phase) {spec : ProbeSpec}
    (h : spec ∈ eng.probes phase) : spec.fresh = spec := by
  unfold probes at h
  rw [List.mem_append, List.mem_map] at h
  cases h with
  | inl h =>
    obtain ⟨_, -, rfl⟩ := h
    rfl
  | inr h => exact phase.probes_fresh spec h

theorem new_running (eng : SyncEngine) (phase : Phase) (launched : Nat) (shared : Shared)
    : (PhaseRun.new phase (eng.probes phase) eng.historyCap launched shared).Running
        (eng.probes phase) := by
  refine ⟨⟨?_, ?_, ?_⟩, rfl, rfl⟩
  . refine (List.map_congr_left ?_).trans (List.map_id _)
    intro spec h
    exact eng.probes_fresh phase h
  . intro j spec hspec hsat
    rw [← eng.probes_fresh phase (List.mem_of_getElem? hspec)] at hsat
    cases hsat
  . intro g hg
    cases hg

/--
A phase that passed went through its ticks to its finish line, at one of them.
-/
theorem runPhase_ran {i : Nat} {shared shared' : Shared} {phase : Phase} {r : PhaseResult}
    (h : eng.runPhase w i shared phase = some (r, shared')) (hp : r.summary.verdict = .passed)
    : ∃ s ending t,
        Run.exec (PhaseRun.tick eng.watched w (phase.timeout.map ((w.timeline i).started + ·))
            (w.timeline i).finish)
          (.new phase (eng.probes phase) eng.historyCap (w.timeline i).launched shared)
          (w.timeline i).ticks = .error (.ended s ending)
        ∧ t ∈ (w.timeline i).ticks
        ∧ PhaseRun.Passed (eng.probes phase) (w.timeline i).finish t s ending
        ∧ r = s.result phase ending ∧ shared' = ⟨s.chaos, s.bench.asked⟩ := by
  unfold runPhase at h
  dsimp only at h
  split at h
  . next verdict error hearly =>
    cases h
    unfold Opening.early at hearly
    split at hearly <;> cases hearly <;> cases hp
  . next =>
    split at h
    . next s ending hexec =>
      cases h
      obtain ⟨pre, t, post, s₁, hticks, hpre, htick⟩ := Run.exec_error hexec
      have hrun : PhaseRun.Running (eng.probes phase) s₁ := by
        apply Run.exec_invariant (I := PhaseRun.Running (eng.probes phase)) ?_ ?_ hpre
        . intro s t s' r hs hstep
          exact PhaseRun.tick_running hs hstep
        . exact eng.new_running phase _ shared
      have hmem : t ∈ (w.timeline i).ticks := by
        rw [hticks]
        simp
      exact ⟨s, ending, t, hexec, hmem, PhaseRun.tick_passed hrun htick hp, rfl, rfl⟩
    . next => cases h
    . next => cases h

theorem runPhase_passed {i : Nat} {shared shared' : Shared} {phase : Phase} {r : PhaseResult}
    (h : eng.runPhase w i shared phase = some (r, shared')) (hp : r.summary.verdict = .passed)
    : r.proceed = true ∧ (PhaseChecked (eng.probes phase) (w.timeline i) r ↔
      FinishRead (eng.probes phase) (w.timeline i).finish) := by
  obtain ⟨s, ending, t, -, hmem, hpassed, rfl, -⟩ := runPhase_ran h hp
  exact ⟨hpassed.proceed phase, hpassed.checked_iff hmem⟩

theorem fold_passed {results : List PhaseResult} (h : (fold results).verdict = .passed)
    : ∀ r ∈ results, r.summary.verdict = .passed := by
  intro r hr
  dsimp only [fold] at h
  cases hfind : (results.map (·.summary.verdict)).find? fun v => !v.isPass with
  | some v =>
    have hfail := List.find?_some hfind
    rw [hfind, Option.getD_some] at h
    rw [h] at hfail
    cases hfail
  | none =>
    rw [List.find?_eq_none] at hfind
    have hpass := hfind _ (List.mem_map_of_mem hr)
    cases hv : r.summary.verdict with
    | passed => rfl
    | _ =>
      rw [hv] at hpass
      exact absurd rfl hpass

def Checked (eng : SyncEngine) (w : World) (i : Nat) (phases : List Phase)
    (results : List PhaseResult) : Prop :=
  ∀ (k : Nat) (phase : Phase), phases[k]? = some phase →
    ∃ r, results[k]? = some r ∧ PhaseChecked (eng.probes phase) (w.timeline (i + k)) r

theorem forall_getElem?_cons {α : Type} {Q : Nat → α → Prop} {a : α} {as : List α}
    : (∀ k x, (a :: as)[k]? = some x → Q k x) ↔
      Q 0 a ∧ ∀ k x, as[k]? = some x → Q (k + 1) x := by
  constructor
  . intro h
    exact ⟨h 0 a rfl, fun k x hk => h (k + 1) x hk⟩
  . rintro ⟨hfirst, hrest⟩ k x hk
    cases k with
    | zero =>
      cases hk
      exact hfirst
    | succ k => exact hrest k x hk

theorem runPhases_checked_iff {i : Nat} {shared : Shared} {phases : List Phase}
    {results : List PhaseResult} (h : eng.runPhases w i shared phases = some results)
    (hp : ∀ r ∈ results, r.summary.verdict = .passed)
    : eng.Checked w i phases results ↔ ∀ (k : Nat) (phase : Phase), phases[k]? = some phase →
      FinishRead (eng.probes phase) (w.timeline (i + k)).finish := by
  induction phases generalizing i shared results with
  | nil => simp [Checked]
  | cons phase rest ih =>
    unfold runPhases at h
    split at h
    . next => cases h
    . next r shared' hphase =>
      split at h
      . next =>
        rw [Option.map_eq_some_iff] at h
        obtain ⟨results', hrest, rfl⟩ := h
        rw [List.forall_mem_cons] at hp
        have hfirst := (runPhase_passed hphase hp.1).2
        have hrest := ih hrest hp.2
        have hshift : ∀ k, i + 1 + k = i + (k + 1) := fun k => by omega
        unfold Checked at hrest ⊢
        simp only [hshift] at hrest
        rw [forall_getElem?_cons, forall_getElem?_cons]
        simp only [List.getElem?_cons_zero, List.getElem?_cons_succ, Option.some.injEq,
          exists_eq_left', Nat.add_zero]
        rw [hfirst, hrest]
      . next hproceed =>
        cases h
        have := (runPhase_passed hphase (hp r List.mem_cons_self)).1
        exact absurd this hproceed

theorem passed_checked_iff (eng : SyncEngine) (w : World) (outcome : SyncOutcome)
    (results : List PhaseResult) (h : eng.run w = some (outcome, results)) (hp : outcome.verdict = .passed)
    : eng.Checked w 0 eng.phases results ↔ ∀ (i : Nat) (phase : Phase), eng.phases[i]? = some phase →
      FinishRead (eng.probes phase) (w.timeline i).finish := by
  unfold run at h
  dsimp only at h
  split at h
  . next =>
    cases h
    cases hp
  . next =>
    split at h
    . next => cases h
    . next hphases =>
      cases h
      have := runPhases_checked_iff hphases (fold_passed hp)
      simpa using this

-- A subject that is at its tip from its second tick on, in every phase.
def atTip (answers : Nat → Verdict) (second : Except String ProgressView) : World where
  started := 0
  restartable _ := none
  answers := answers
  ceilQuotient hold d := (hold + d - 1) / d
  timeline _ :=
    { started := 0
      opening := .launched
      launched := 0
      ticks := [⟨false, 1, fun _ => none, [], .error "refused", none, false⟩,
        ⟨false, 2, fun _ => none, [], .ok ⟨7, some 7⟩, none, true⟩]
      finish := ⟨second, 3, fun _ => ⟨3, [⟨3, false⟩]⟩⟩ }

def indexerThenWallet : SyncEngine :=
  phased (.bound "indexer" [.new "covered" .sometimes .fatal])
    [{ Phase.bound "wallet" [.new "monotonic" .always .fatal] with stopHeight := some 5 }]
    [.new "roots" .atCompletion .fatal]

theorem passed_checked_iff_two_phases
    : ∃ outcome results,
        indexerThenWallet.run (atTip (fun _ => .satisfied) (.ok ⟨7, some 7⟩))
          = some (outcome, results)
        ∧ outcome.verdict = .passed ∧ results.length = 2
        ∧ indexerThenWallet.Checked (atTip (fun _ => .satisfied) (.ok ⟨7, some 7⟩)) 0
          indexerThenWallet.phases results := by
  refine ⟨_, _, rfl, rfl, rfl, ?_⟩
  apply (passed_checked_iff _ _ _ _ rfl rfl).mpr
  intro i phase _
  exact Or.inl rfl

def walletRoots : SyncEngine := phased (.bound "wallet" [.new "roots" .atCompletion .fatal]) [] []

-- The second reading fails: the post-condition would be violated, is never asked, and the run is
-- green.
theorem unread_finish_passes
    : ∃ outcome results,
        walletRoots.run (atTip (fun _ => .violated ⟨"", none, "roots differ"⟩) (.error "refused"))
          = some (outcome, results)
        ∧ outcome.verdict = .passed ∧ (∀ r ∈ results, r.judged = [])
        ∧ ¬ walletRoots.Checked
          (atTip (fun _ => .violated ⟨"", none, "roots differ"⟩) (.error "refused")) 0
          walletRoots.phases results := by
  refine ⟨_, _, rfl, rfl, ?_, ?_⟩
  . decide
  . intro hchecked
    obtain ⟨r, hr, hphase⟩ := hchecked 0 _ rfl
    cases hr
    obtain ⟨g, hg, -⟩ := hphase.atCompletion 0 _ rfl rfl
    cases hg

end SyncEngine
end Sync
