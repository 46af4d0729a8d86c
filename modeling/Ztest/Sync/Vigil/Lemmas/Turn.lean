import Mathlib.Algebra.Order.BigOperators.Group.Finset
import Ztest.Sync.Runner.Lemmas.Liveness
import Ztest.Sync.Vigil.Impl

/-!
This module contains what one tick does to an `eventually` probe, and that the tick loop of a phase
moves the restart window and the probe as a `Vigil` does.

The restarts that a `RestartWatch` counts are the largest sum over the containers that one tick could read, not
the sum of what each container was seen to gain.
-/

namespace Sync
namespace Vigil

variable {n : Nat} {v v' : State n} {b : Beat n}

/--
Everything a tick can do to the probe.
-/
inductive Turned (v : State n) (b : Beat n) : ProbeSpec → Bench → Option Flow → Prop where
  | unread (hreading : b.progress = none)
      (hheld : ((v.watch b).2.holding && v.spec.cls == .eventually) = false)
    : Turned v b v.spec ⟨0, [], []⟩ none
  | credited (hreading : b.progress = none)
      (hheld : ((v.watch b).2.holding && v.spec.cls == .eventually) = true)
    : Turned v b { v.spec with lastSatisfied := some b.now } ⟨0, [], []⟩ none
  | paused (hreading : b.progress.isSome = true) (hpaused : ((v.watch b).2.holding || !v.armed b) = true)
    : Turned v b { v.spec with lastSatisfied := some b.now } ⟨0, [], []⟩ none
  | satisfied {bench : Bench} (hreading : b.progress.isSome = true)
      (hpaused : ((v.watch b).2.holding || !v.armed b) = false) (hverdict : b.verdict = .satisfied)
      (hbench : bench.violations = [])
    : Turned v b { v.spec.credit false b.now with lastSatisfied := some b.now } bench none
  | waiting {bench : Bench} (hreading : b.progress.isSome = true)
      (hpaused : ((v.watch b).2.holding || !v.armed b) = false) (hverdict : b.verdict ≠ .satisfied)
      (hwithin : b.now - v.spec.lastSatisfied.getD b.now ≤ v.spec.livenessWindow)
      (hbench : bench.violations = [])
    : Turned v b (v.spec.credit false b.now) bench none
  | stalled {bench : Bench} (hreading : b.progress.isSome = true)
      (hpaused : ((v.watch b).2.holding || !v.armed b) = false) (hverdict : b.verdict ≠ .satisfied)
      (hover : v.spec.livenessWindow < b.now - v.spec.lastSatisfied.getD b.now)
      (hbench : bench.violations ≠ [])
    : Turned v b (v.spec.credit false b.now) bench (Flow.ofSeverity (v.spec.credit false b.now).severity)
  | aborted {spec' : ProbeSpec} {bench : Bench} {msg : String}
    : Turned v b spec' bench (some (.abort msg))

theorem checkWindow_turned {snap : Snapshot} {bench : Bench} (hreading : b.progress.isSome = true)
    (hpaused : ((v.watch b).2.holding || !v.armed b) = false) (hverdict : b.verdict ≠ .satisfied)
    (hbench : bench.violations = [])
    : Turned v b (checkWindow snap b.now (v.spec.credit false b.now) bench).1
        (checkWindow snap b.now (v.spec.credit false b.now) bench).2.1
        (checkWindow snap b.now (v.spec.credit false b.now) bench).2.2 := by
  unfold checkWindow
  rw [credit_lastSatisfied, credit_livenessWindow, Option.getD_some]
  dsimp only
  split
  . next hover => exact .stalled hreading hpaused hverdict hover (violate_violations bench _)
  . next hwithin => exact .waiting hreading hpaused hverdict (Nat.le_of_not_lt hwithin) hbench

theorem turn_turned (v : State n) (b : Beat n)
    : Turned v b (v.turn b).2.1 (v.turn b).2.2.1 (v.turn b).2.2.2 := by
  unfold State.turn
  cases hreading : b.progress with
  | none =>
    dsimp only
    split
    . next hheld => exact .credited hreading hheld
    . next hheld => exact .unread hreading (Bool.eq_false_iff.mpr hheld)
  | some p =>
    have hsome : b.progress.isSome = true := by rw [hreading]; rfl
    dsimp only
    generalize hsnap : (v.builder.build p b.now _).2 = snap
    have hpaused : v.spec.paused b.chaos snap = ((v.watch b).2.holding || !v.armed b) := by
      rw [← hsnap]
      rfl
    unfold eventuallyStep
    rw [hpaused]
    split
    . next hpaused =>
      simp only [ProbeSpec.credit, Bool.true_or, if_true]
      exact .paused hsome hpaused
    . next hpaused =>
      rw [Bool.not_eq_true] at hpaused
      dsimp only [Bench.judge]
      split
      . next hjudge =>
        rw [Prod.mk.injEq] at hjudge
        rcases hjudge with ⟨hverdict, rfl⟩
        exact .satisfied hsome hpaused hverdict rfl
      . exact .aborted
      . next hjudge =>
        rw [Prod.mk.injEq] at hjudge
        rcases hjudge with ⟨hverdict, rfl⟩
        exact checkWindow_turned hsome hpaused (by rw [hverdict]; intro h; cases h) rfl
      . next hjudge =>
        rw [Prod.mk.injEq] at hjudge
        rcases hjudge with ⟨hverdict, rfl⟩
        exact checkWindow_turned hsome hpaused (by rw [hverdict]; intro h; cases h) rfl

theorem credit_config (spec : ProbeSpec) (paused : Bool) (now : Nat)
    : (spec.credit paused now).cls = spec.cls ∧ (spec.credit paused now).cadence = spec.cadence := by
  unfold ProbeSpec.credit
  split
  . exact ⟨rfl, rfl⟩
  . exact ⟨rfl, rfl⟩

theorem Turned.config {spec' : ProbeSpec} {bench : Bench} (h : Turned v b spec' bench none)
    : spec'.cls = v.spec.cls ∧ spec'.cadence = v.spec.cadence := by
  generalize hflow : (none : Option Flow) = flow at h
  cases h with
  | unread => exact ⟨rfl, rfl⟩
  | credited => exact ⟨rfl, rfl⟩
  | paused => exact ⟨rfl, rfl⟩
  | satisfied => exact credit_config v.spec false b.now
  | waiting => exact credit_config v.spec false b.now
  | stalled => exact credit_config v.spec false b.now
  | aborted => cases hflow

theorem step_of_none (h : (v.turn b).2.2.2 = none)
    : v.step b = .ok (⟨(v.watch b).1, (v.turn b).1, (v.turn b).2.1, v.entry b :: v.past⟩, ()) := by
  unfold State.step
  split
  . next hturn =>
    rw [hturn]
  . next hturn =>
    rw [hturn] at h
    cases h

theorem step_turned (h : v.step b = .ok (v', ()))
    : v'.restart = (v.watch b).1 ∧ v'.past = v.entry b :: v.past ∧
        ∃ bench, Turned v b v'.spec bench none := by
  have hturn := turn_turned v b
  unfold State.step at h
  split at h
  . next heq =>
    rw [heq] at hturn
    cases h
    exact ⟨rfl, rfl, _, hturn⟩
  . cases h

section Runner

variable {watched : List Watched} {w : World} {s s' s₁ : PhaseRun} {t : Tick} {j : Nat} {spec : ProbeSpec}

theorem applyFaults_restart {kills : Nat → Option String} {now i : Nat} {faults : List ScheduledFault}
    {r : Option String} (h : PhaseRun.applyFaults watched kills now i faults s = (s', r))
    : s'.builder = s.builder ∧
        ∃ killed : Bool, s'.restart = if killed then s.restart.openWindow else s.restart := by
  induction faults generalizing i s with
  | nil =>
    cases h
    exact ⟨rfl, false, rfl⟩
  | cons fault faults ih =>
    unfold PhaseRun.applyFaults at h
    split at h
    . split at h
      . cases h
        exact ⟨rfl, false, rfl⟩
      . split at h
        . cases h
          exact ⟨rfl, false, rfl⟩
        . rcases ih h with ⟨hbuilder, killed, hrestart⟩
          refine ⟨hbuilder, true, ?_⟩
          rw [hrestart]
          cases killed with
          | true => rfl
          | false => rfl
    . exact ih h

theorem fireFaults_restart {r : Option String} (h : s.fireFaults watched t = (s', r))
    : s'.builder = s.builder ∧
        ∃ killed : Bool, s'.restart = if killed then s.restart.openWindow else s.restart := by
  unfold PhaseRun.fireFaults at h
  have hrestart := applyFaults_restart h
  exact hrestart

variable {answers : Nat → Verdict} {ceilQuotient : Nat → Nat → Nat} {chaos : Chaos} {snap : Snapshot}
variable {now : Nat} {probes probes' : List ProbeSpec} {spec' : ProbeSpec} {bench bench' : Bench}

theorem checkWindow_alone {c : Bench} (h : checkWindow snap now spec bench = (spec', bench', none))
    : ∃ c', checkWindow snap now spec c = (spec', c', none) := by
  unfold checkWindow at h ⊢
  dsimp only at h ⊢
  split at h
  . next hover =>
    rw [Prod.mk.injEq, Prod.mk.injEq] at h
    rcases h with ⟨rfl, _, hflow⟩
    rw [if_pos hover, hflow]
    exact ⟨_, rfl⟩
  . next hwithin =>
    rw [if_neg hwithin]
    cases h
    exact ⟨_, rfl⟩

theorem eventuallyStep_alone
    (h : eventuallyStep answers chaos snap now j spec bench = (spec', bench', none))
    : ∃ c, eventuallyStep (fun _ => answers bench.asked) chaos snap now 0 spec ⟨0, [], []⟩ = (spec', c, none) := by
  unfold eventuallyStep at h ⊢
  split at h
  . next hpaused =>
    rw [if_pos hpaused]
    cases h
    exact ⟨_, rfl⟩
  . next hpaused =>
    rw [if_neg hpaused]
    dsimp only [Bench.judge] at h ⊢
    generalize answers bench.asked = verdict at h ⊢
    cases verdict with
    | satisfied =>
      cases h
      exact ⟨_, rfl⟩
    | probeError e => cases h
    | pending => exact checkWindow_alone h
    | violated v => exact checkWindow_alone h

theorem evalTick_eventuallyStep
    (h : evalTick answers ceilQuotient chaos snap now probes bench = (probes', bench', none))
    (hj : probes[j]? = some spec) (hcls : spec.cls = .eventually)
    : ∃ verdict spec' c, probes'[j]? = some spec' ∧
        eventuallyStep (fun _ => verdict) chaos snap now 0 spec ⟨0, [], []⟩ = (spec', c, none) := by
  unfold evalTick at h
  split at h
  . cases h
  . next probes₁ bench₁ hsometimes =>
    have hj₁ := evalSometimes_other hsometimes hj (by simp [hcls])
    have heach := Sweep.sweep_none_each
      (R := fun _ (spec spec' : ProbeSpec) (_ : Bench) => spec.cls = .eventually → ∃ verdict c,
        eventuallyStep (fun _ => verdict) chaos snap now 0 spec ⟨0, [], []⟩ = (spec', c, none))
      ?_ (fun _ _ _ _ hR _ _ _ _ _ => hR) h j spec hj₁
    . rcases heach with ⟨spec', hj', hstep⟩
      rcases hstep hcls with ⟨verdict, c, hstep⟩
      exact ⟨verdict, spec', c, hj', hstep⟩
    . intro i spec c spec' c' hturn hcls
      simp only [tickStep, hcls] at hturn
      exact ⟨_, eventuallyStep_alone hturn⟩

/--
A tick of the phase is a step of the restart window together with any one of the `eventually` probes.
-/
theorem taken_step (samples : Fin n → Option ContainerSample) (hsamples : t.samples = List.ofFn samples)
    (past : List (Entry n)) (h : PhaseRun.Taken watched w s t s') (hj : s.probes[j]? = some spec)
    (hcls : spec.cls = .eventually)
    : ∃ (b : Beat n) (spec' : ProbeSpec) (e : Entry n), b.now = t.now ∧ b.samples = samples ∧
        (b.progress.isSome = true ↔ ∃ p, t.progress = .ok p) ∧ s'.probes[j]? = some spec' ∧
        State.step ⟨s.restart, s.builder, spec, past⟩ b =
          .ok (⟨s'.restart, s'.builder, spec', e :: past⟩, ()) := by
  cases h with
  | @held s₁ e hfire hprogress =>
    rcases fireFaults_restart hfire with ⟨hbuilder, killed, hrestart⟩
    rw [← (PhaseRun.fireFaults_same hfire).1] at hj
    let v : State n := ⟨s.restart, s.builder, spec, past⟩
    let b : Beat n := ⟨⟨t.now, killed, none⟩, s₁.chaos, samples, .pending⟩
    have hwatch : v.watch b = s₁.restart.observe t.samples false := by
      rw [hrestart, hsamples]
      rfl
    refine ⟨b, (v.turn b).2.1, v.entry b, rfl, rfl, by simp [b, hprogress], ?_, ?_⟩
    . have hturn : (v.turn b).2.1 =
          if (v.watch b).2.holding && spec.cls == .eventually then { spec with lastSatisfied := some t.now }
          else spec := rfl
      rw [hturn, hcls, PhaseRun.hold, ← hwatch]
      dsimp only
      cases (v.watch b).2.holding with
      | true =>
        rw [if_pos rfl, creditLiveness, List.getElem?_map, hj]
        simp [hcls]
      | false => simpa using hj
    . rw [step_of_none rfl]
      simp only [PhaseRun.hold, ← hwatch, hbuilder]
      rfl
  | @evaluated p s' heval =>
    rcases heval.eval with ⟨s₁, probes, bench, hfire, htick, rfl⟩
    rcases fireFaults_restart hfire with ⟨hbuilder, killed, hrestart⟩
    rw [← (PhaseRun.fireFaults_same hfire).1] at hj
    rcases evalTick_eventuallyStep htick hj hcls with ⟨verdict, spec', c, hj', hstep⟩
    let v : State n := ⟨s.restart, s.builder, spec, past⟩
    let b : Beat n := ⟨⟨t.now, killed, some p⟩, s₁.chaos, samples, verdict⟩
    have hwatch : v.watch b = s₁.restart.observe t.samples true := by
      rw [hrestart, hsamples]
      rfl
    have hbuild : v.builder.build p t.now
        ⟨s₁.chaos.lastFaultAt, (v.watch b).2.restarts, (v.watch b).2.holding⟩ =
          ((s₁.snapshot t p).1.builder, (s₁.snapshot t p).2) := by
      rw [hwatch, show v.builder = s₁.builder from hbuilder.symm]
      rfl
    have hturn : v.turn b = ((s₁.snapshot t p).1.builder, spec', c, none) := by
      simp only [State.turn, b]
      rw [hbuild]
      exact congrArg (Prod.mk _) hstep
    refine ⟨b, spec', v.entry b, rfl, rfl, ?_, hj', ?_⟩
    . simp [b, heval.progress]
    . rw [step_of_none (by rw [hturn]), hturn, hwatch]
      rfl

theorem exists_ofFn {α : Type} {l : List α} (h : l.length = n) : ∃ f : Fin n → α, l = List.ofFn f := by
  subst h
  exact ⟨l.get, (List.ofFn_get l).symm⟩

/--
A run of the phase is a run of the restart window with the probe, over the same instants.
-/
theorem exec_step {deadline : Option Nat} {finish : Finish} {ticks : List Tick} (past : List (Entry n))
    (h : Run.exec (PhaseRun.tick watched w deadline finish) s ticks = .ok s')
    (hsamples : ∀ t ∈ ticks, t.samples.length = n) (hj : s.probes[j]? = some spec)
    (hcls : spec.cls = .eventually)
    : ∃ (beats : List (Beat n)) (v' : State n), beats.map (·.now) = ticks.map (·.now) ∧
        v'.restart = s'.restart ∧ s'.probes[j]? = some v'.spec ∧
        Run.exec State.step ⟨s.restart, s.builder, spec, past⟩ beats = .ok v' := by
  induction ticks generalizing s spec past with
  | nil =>
    cases h
    exact ⟨[], _, rfl, rfl, hj, rfl⟩
  | cons t ticks ih =>
    rcases Run.exec_cons_ok h with ⟨s₁, _, htick, hrest⟩
    rw [List.forall_mem_cons] at hsamples
    rcases exists_ofFn hsamples.1 with ⟨samples, hofFn⟩
    rcases taken_step samples hofFn past (PhaseRun.taken_of_ok htick) hj hcls
      with ⟨b, spec', e, hnow, _, _, hj', hstep⟩
    rcases step_turned hstep with ⟨_, _, _, hturn⟩
    rcases ih (e :: past) hrest hsamples.2 hj' (hturn.config.1.trans hcls)
      with ⟨beats, v', hnows, hrestart, hprobe, hexec⟩
    refine ⟨b :: beats, v', ?_, hrestart, hprobe, ?_⟩
    . rw [List.map_cons, List.map_cons, hnow, hnows]
    . simp only [Run.exec, hstep]
      exact hexec

end Runner

end Vigil

namespace RestartWatch

def rebase (base : Option Nat) : Option ContainerSample → Option Nat
  | none => base
  | some s => some (base.getD s.restarts)

def gain (base : Option Nat) : Option ContainerSample → Nat
  | none => 0
  | some s => s.restarts - base.getD s.restarts

theorem fold_ofFn {n : Nat} (bases : Fin n → Option Nat) (samples : Fin n → Option ContainerSample)
    : (fold (List.ofFn bases) (List.ofFn samples)).1 = List.ofFn (fun i => rebase (bases i) (samples i)) ∧
      (fold (List.ofFn bases) (List.ofFn samples)).2.1 = ∑ i, gain (bases i) (samples i) ∧
      ((fold (List.ofFn bases) (List.ofFn samples)).2.2 = true ↔
        ∃ i x, samples i = some x ∧ x.ready = false) := by
  induction n with
  | zero => simp [fold]
  | succ n ih =>
    rcases ih (fun i => bases i.succ) (fun i => samples i.succ) with ⟨hbase, hsum, hdown⟩
    rw [List.ofFn_succ, List.ofFn_succ, List.ofFn_succ, Fin.sum_univ_succ]
    cases hhead : samples 0 with
    | none =>
      refine ⟨?_, ?_, ?_⟩
      . simp only [fold, hbase, rebase]
      . simp only [fold, hsum, gain, Nat.zero_add]
      . simp only [fold, hdown, Fin.exists_fin_succ, hhead]
        simp
    | some s =>
      refine ⟨?_, ?_, ?_⟩
      . simp only [fold, hbase, rebase]
      . simp only [fold, hsum, gain]
      . simp only [fold, Bool.or_eq_true, hdown, Fin.exists_fin_succ, hhead]
        simp

theorem resize_nil (n : Nat) : resize [] n = List.ofFn fun _ : Fin n => none := by
  simp [resize, List.ofFn_const]

theorem resize_ofFn {n : Nat} (bases : Fin n → Option Nat) : resize (List.ofFn bases) n = List.ofFn bases := by
  simp [resize]

end RestartWatch

namespace Vigil

open RestartWatch

variable {n : Nat} {v : State n} {b : Beat n} {e : Entry n} {es : List (Entry n)} {i : Fin n}

theorem counts_cons (i : Fin n) (e : Entry n) (es : List (Entry n))
    : counts i (e :: es) = ((e.beat.samples i).map (·.restarts)).toList ++ counts i es := by
  unfold counts
  rw [List.filterMap_cons]
  cases e.beat.samples i with
  | none => rfl
  | some x => rfl

theorem getLast?_counts_cons (i : Fin n) (e : Entry n) (es : List (Entry n))
    : (counts i (e :: es)).getLast? = rebase (counts i es).getLast? (e.beat.samples i) := by
  rw [counts_cons]
  cases e.beat.samples i with
  | none => rfl
  | some x => exact List.getLast?_cons

theorem le_largest {c : Nat} {cs : List Nat} (h : c ∈ cs) : c ≤ largest cs := by
  induction cs with
  | nil => cases h
  | cons c' cs ih =>
    unfold largest
    rw [List.foldr_cons]
    rcases List.mem_cons.mp h with rfl | h
    . exact Nat.le_max_left _ _
    . exact Nat.le_trans (ih h) (Nat.le_max_right _ _)

theorem largest_cons (c : Nat) (cs : List Nat) : largest (c :: cs) = max c (largest cs) := rfl

theorem gained_cons_cons (c : Nat) {cs : List Nat} (h : cs ≠ [])
    : gained (c :: cs) = max c (largest cs) - cs.getLast h := by
  rw [gained, List.getLast?_cons, List.getLast?_eq_some_getLast h]
  rfl

theorem gained_of_ne_nil {cs : List Nat} (h : cs ≠ [])
    : gained cs = largest cs - cs.getLast h ∧ cs.getLast h ≤ largest cs := by
  constructor
  . rw [gained, List.getLast?_eq_some_getLast h]
    rfl
  . exact le_largest (List.getLast_mem h)

section Gained

variable (e : Entry n) (es : List (Entry n)) (i : Fin n)

theorem gained_le_cons : gained (counts i es) ≤ gained (counts i (e :: es)) := by
  rw [counts_cons]
  cases e.beat.samples i with
  | none => exact Nat.le_refl _
  | some x =>
    by_cases hnil : counts i es = []
    . rw [hnil]
      exact Nat.zero_le _
    . have hnew := gained_cons_cons x.restarts hnil
      have hold := gained_of_ne_nil hnil
      simp only [Option.map_some, Option.toList_some, List.singleton_append]
      omega

theorem gained_lt_cons (h : Restarted e.beat es i) : gained (counts i es) < gained (counts i (e :: es)) := by
  rcases h with ⟨x, hsample, hnil, hlarger⟩
  have hnew := gained_cons_cons x.restarts hnil
  have hold := gained_of_ne_nil hnil
  rw [counts_cons, hsample]
  simp only [Option.map_some, Option.toList_some, List.singleton_append]
  omega

theorem gained_cons_of_not (h : ¬ Restarted e.beat es i) : gained (counts i (e :: es)) = gained (counts i es) := by
  rw [counts_cons]
  cases hsample : e.beat.samples i with
  | none => rfl
  | some x =>
    simp only [Option.map_some, Option.toList_some, List.singleton_append]
    by_cases hnil : counts i es = []
    . rw [hnil]
      simp [gained, largest]
    . have hnew := gained_cons_cons x.restarts hnil
      have hold := gained_of_ne_nil hnil
      have hle : x.restarts ≤ largest (counts i es) := by
        apply Nat.le_of_not_lt
        intro hlt
        exact h ⟨x, hsample, hnil, hlt⟩
      omega

theorem gain_le_gained : gain (counts i es).getLast? (e.beat.samples i) ≤ gained (counts i (e :: es)) := by
  rw [gained, getLast?_counts_cons, counts_cons]
  cases e.beat.samples i with
  | none => exact Nat.zero_le _
  | some x =>
    simp only [gain, rebase, Option.map_some, Option.toList_some, List.singleton_append, largest_cons,
      Option.getD_some]
    omega

theorem gain_eq_gained_iff
    : gain (counts i es).getLast? (e.beat.samples i) = gained (counts i (e :: es)) ↔
      gained (counts i (e :: es)) = 0 ∨
        ∃ x, e.beat.samples i = some x ∧ x.restarts = largest (counts i (e :: es)) := by
  rw [gained, getLast?_counts_cons, counts_cons]
  cases e.beat.samples i with
  | none => simp [gain, eq_comm]
  | some x =>
    simp only [gain, rebase, Option.map_some, Option.toList_some, List.singleton_append, largest_cons,
      Option.getD_some, Option.some.injEq, exists_eq_left']
    omega

end Gained

/--
The baseline of the watch holds the first count of every container that was read.
-/
def Based (v : State n) : Prop :=
  resize v.restart.baseline n = List.ofFn fun i => (counts i v.past).getLast?

def readSum (v : State n) (b : Beat n) : Nat := ∑ i, gain (counts i v.past).getLast? (b.samples i)

theorem based_start (n : Nat) (b : ProbeBuilder) (startedAt : Nat) : Based (State.start n b startedAt) :=
  resize_nil n

theorem hold_iff (held killed down answered : Bool) (moved : Prop) [Decidable moved]
    : (((held || killed) || decide moved || down) &&
        !(((held || killed) || decide moved || down) && !down && answered)) = true ↔
      (held = true ∨ killed = true ∨ moved ∨ down = true) ∧ (down = true ∨ answered = false) := by
  cases down with
  | true => simp
  | false =>
    cases answered with
    | true =>
      rw [Bool.not_false, Bool.and_true, Bool.and_true, Bool.and_not_self]
      simp
    | false => simp [or_assoc]

/--
What `observe` does, in terms of the ticks.
-/
structure WatchSpec (v : State n) (b : Beat n) : Prop where
  baseline : (v.watch b).1.baseline = List.ofFn fun i => (counts i (v.entry b :: v.past)).getLast?
  seen : (v.watch b).1.seen = max v.restart.seen (readSum v b)
  restarts : (v.watch b).2.restarts = (v.watch b).1.seen
  holding : (v.watch b).2.holding = (v.watch b).1.holding
  holds : (v.watch b).1.holding = true ↔
    (v.restart.holding = true ∨ b.faulted = true ∨ v.restart.seen < readSum v b ∨ ∃ i, Unready b i) ∧
      ((∃ i, Unready b i) ∨ b.progress.isSome = false)

theorem watch_spec (b : Beat n) (h : Based v) : WatchSpec v b := by
  have hfold := fold_ofFn (fun i => (counts i v.past).getLast?) b.samples
  rw [← h] at hfold
  rcases hfold with ⟨hbase, hsum, hdown⟩
  have hbaseline : (if b.faulted then v.restart.openWindow else v.restart).baseline = v.restart.baseline := by
    split <;> rfl
  have hseen : (if b.faulted then v.restart.openWindow else v.restart).seen = v.restart.seen := by
    split <;> rfl
  have hholding : (if b.faulted then v.restart.openWindow else v.restart).holding =
      (v.restart.holding || b.faulted) := by
    cases b.faulted with
    | true => simp [openWindow]
    | false => simp
  constructor
  . simp only [State.watch, observe, List.length_ofFn, hbaseline, hbase, getLast?_counts_cons]
    rfl
  . simp only [State.watch, observe, List.length_ofFn, hbaseline, hsum, hseen]
    rfl
  . rfl
  . rfl
  . simp only [State.watch, observe, List.length_ofFn, hbaseline, hsum, hseen, hholding]
    change _ ↔ (_ ∨ _ ∨ v.restart.seen < readSum v b ∨ ∃ i x, b.samples i = some x ∧ x.ready = false) ∧
      ((∃ i x, b.samples i = some x ∧ x.ready = false) ∨ _)
    rw [← hdown]
    exact hold_iff _ _ _ _ _

theorem Based.step {v' : State n} (h : Based v) (hstep : v.step b = .ok (v', ())) : Based v' := by
  rcases step_turned hstep with ⟨hrestart, hpast, _⟩
  unfold Based
  rw [hrestart, hpast, (watch_spec b h).baseline]
  exact resize_ofFn _

variable (v b)

theorem total_lt_of_restarted (h : ∃ i, Restarted b v.past i) : total v.past < total (v.entry b :: v.past) := by
  rcases h with ⟨i, hi⟩
  apply Finset.sum_lt_sum
  . intro j _
    exact gained_le_cons (v.entry b) v.past j
  . exact ⟨i, Finset.mem_univ i, gained_lt_cons (v.entry b) v.past i hi⟩

theorem total_eq_of_not (h : ¬ ∃ i, Restarted b v.past i) : total (v.entry b :: v.past) = total v.past := by
  apply Finset.sum_congr rfl
  intro i _
  apply gained_cons_of_not (v.entry b)
  intro hi
  exact h ⟨i, hi⟩

theorem readSum_le_total : readSum v b ≤ total (v.entry b :: v.past) :=
  Finset.sum_le_sum fun i _ => gain_le_gained (v.entry b) v.past i

/--
Every container that has gained restarts is read at its largest count.
-/
def Together : Prop :=
  ∀ i, gained (counts i (v.entry b :: v.past)) = 0 ∨
    ∃ x, b.samples i = some x ∧ x.restarts = largest (counts i (v.entry b :: v.past))

theorem readSum_eq_total_iff : readSum v b = total (v.entry b :: v.past) ↔ Together v b := by
  have hle : ∀ i ∈ Finset.univ, gain (counts i v.past).getLast? (b.samples i) ≤
      gained (counts i (v.entry b :: v.past)) := fun i _ => gain_le_gained (v.entry b) v.past i
  unfold readSum total Together
  rw [Finset.sum_eq_sum_iff_of_le hle]
  constructor
  . intro h i
    exact (gain_eq_gained_iff (v.entry b) v.past i).mp (h i (Finset.mem_univ i))
  . intro h i _
    exact (gain_eq_gained_iff (v.entry b) v.past i).mpr (h i)

/--
The figure stays the sum of the gains exactly if a tick that shows a restart shows all of them.
-/
theorem restarts_eq_total_iff (hbased : Based v) (hseen : v.restart.seen = total v.past)
    : (v.watch b).2.restarts = total (v.entry b :: v.past) ↔
      ((∃ i, Restarted b v.past i) → Together v b) := by
  have hspec := watch_spec b hbased
  have hle := readSum_le_total v b
  rw [hspec.restarts, hspec.seen, hseen]
  by_cases hrestarted : ∃ i, Restarted b v.past i
  . have hlt := total_lt_of_restarted v b hrestarted
    rw [← readSum_eq_total_iff]
    simp only [hrestarted, true_implies]
    omega
  . have heq := total_eq_of_not v b hrestarted
    simp only [hrestarted, false_implies, iff_true]
    omega

end Vigil
end Sync
