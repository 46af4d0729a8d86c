import Ztest.Sync.Runner.Impl

/-!
This module contains what one tick of a phase can do, said once for all later proofs by `tick_ticked`,
and the audit trail of a phase: what the judgements on record say about the probes they were made for,
through every sweep of the probes.
-/

namespace Sync
namespace PhaseRun

variable {watched : List Watched} {w : World} {deadline : Option Nat} {finish : Finish}
variable {s s' : PhaseRun} {t : Tick}

-- The tick loop got to the probes: the kills are fired, the subject answered, everything due is
-- judged over one snapshot.
structure Evaluated (watched : List Watched) (w : World) (s : PhaseRun) (t : Tick) (p : ProgressView)
    (flow : Option Flow) (s' : PhaseRun) : Prop where
  failure : t.failure = none
  progress : t.progress = .ok p
  eval : ∃ s₁ probes bench, s.fireFaults watched t = (s₁, none) ∧
    evalTick w.answers w.ceilQuotient (s₁.snapshot t p).1.chaos (s₁.snapshot t p).2 t.now
      (s₁.snapshot t p).1.probes (s₁.snapshot t p).1.bench = (probes, bench, flow) ∧
    s' = { (s₁.snapshot t p).1 with probes, bench }

inductive Ticked (watched : List Watched) (w : World) (deadline : Option Nat) (finish : Finish)
    (s : PhaseRun) (t : Tick) : Except Stop (PhaseRun × Unit) → Prop where
  | cancelled (h : t.cancelled = true)
    : Ticked watched w deadline finish s t (.error (.ended s (.cut .cancelled none)))
  | timedOut (h : deadline.any (· ≤ t.now) = true)
    : Ticked watched w deadline finish s t (.error (.ended s (.cut .timedOut none)))
  | faulted {s₁ : PhaseRun} {e : String} (h : s.fireFaults watched t = (s₁, some e))
    : Ticked watched w deadline finish s t (.error (.ended s₁ (.cut .errored (some e))))
  | failed {s₁ : PhaseRun} {msg : String} (h : s.fireFaults watched t = (s₁, none))
      (hfailure : t.failure = some msg)
    : Ticked watched w deadline finish s t (.error (.ended s₁ (.cut .failed (some msg))))
  | held {s₁ : PhaseRun} {e : String} (h : s.fireFaults watched t = (s₁, none))
      (hfailure : t.failure = none) (hprogress : t.progress = .error e)
    : Ticked watched w deadline finish s t (.ok (s₁.hold t, ()))
  | failFast {p : ProgressView} {s₁ : PhaseRun} (h : Evaluated watched w s t p (some .failFast) s₁)
    : Ticked watched w deadline finish s t
        (.error (.ended { s₁ with fatal := true } (.cut .failed none)))
  | aborted {p : ProgressView} {msg : String} {s₁ : PhaseRun}
      (h : Evaluated watched w s t p (some (.abort msg)) s₁)
    : Ticked watched w deadline finish s t (.error (.ended s₁ (.cut .errored (some msg))))
  | continued {p : ProgressView} {s₁ : PhaseRun} (h : Evaluated watched w s t p none s₁)
      (hreached : (s₁.stopHeight.any (· ≤ p.height) || t.complete) = false)
    : Ticked watched w deadline finish s t (.ok (s₁, ()))
  | retrying {p : ProgressView} {s₁ : PhaseRun} (h : Evaluated watched w s t p none s₁)
      (hreached : (s₁.stopHeight.any (· ≤ p.height) || t.complete) = true)
      (hfinish : s₁.judgeFinish w.answers finish = none)
    : Ticked watched w deadline finish s t (.error .unfinished)
  | arrived {p : ProgressView} {s₁ s₂ : PhaseRun} {error : Option String}
      (h : Evaluated watched w s t p none s₁)
      (hreached : (s₁.stopHeight.any (· ≤ p.height) || t.complete) = true)
      (hfinish : s₁.judgeFinish w.answers finish = some (s₂, error))
    : Ticked watched w deadline finish s t (.error (s₂.complete error))

theorem tick_ticked (watched : List Watched) (w : World) (deadline : Option Nat) (finish : Finish)
    (s : PhaseRun) (t : Tick)
    : Ticked watched w deadline finish s t (s.tick watched w deadline finish t) := by
  unfold tick
  split
  . next h => exact .cancelled h
  . next =>
    split
    . next h => exact .timedOut h
    . next =>
      split
      . next s₁ e h => exact .faulted h
      . next s₁ h =>
        split
        . next hfailure => exact .failed h hfailure
        . next hfailure hprogress => exact .held h hfailure hprogress
        . next p hfailure hprogress =>
          dsimp only
          split
          . next probes bench heval =>
            have hevaluated : Evaluated watched w s t p (some .failFast)
                { (s₁.snapshot t p).1 with probes, bench } :=
              ⟨hfailure, hprogress, s₁, probes, bench, h, heval, rfl⟩
            exact .failFast hevaluated
          . next probes bench msg heval =>
            exact .aborted ⟨hfailure, hprogress, s₁, probes, bench, h, heval, rfl⟩
          . next probes bench heval =>
            have hevaluated : Evaluated watched w s t p none
                { (s₁.snapshot t p).1 with probes, bench } :=
              ⟨hfailure, hprogress, s₁, probes, bench, h, heval, rfl⟩
            split
            . next hreached =>
              split
              . next hfinish => exact .retrying hevaluated hreached hfinish
              . next hfinish => exact .arrived hevaluated hreached hfinish
            . next hreached => exact .continued hevaluated (Bool.eq_false_iff.mpr hreached)

end PhaseRun

/--
The trail agrees with the probes of a phase registered as `specs`: only scheduler state has moved, a
latched probe has a judgement that latched it, and no judgement was an error.
-/
structure Audited (specs probes : List ProbeSpec) (b : Bench) : Prop where
  fresh : probes.map ProbeSpec.fresh = specs
  latched : ∀ (j : Nat) (spec : ProbeSpec), probes[j]? = some spec → spec.everSatisfied = true →
    ∃ g ∈ b.judged, g.probe = j ∧ g.verdict = .satisfied
  clean : ∀ g ∈ b.judged, g.verdict.isProbeError = false

/--
What one turn of a sweep does to the probe at `j` and to the trail, unless it leaves the sweep.
-/
structure Turn (j : Nat) (spec spec' : ProbeSpec) (b b' : Bench) : Prop where
  fresh : spec'.fresh = spec.fresh
  judged : ∃ gs, b'.judged = gs ++ b.judged ∧ ∀ g ∈ gs, g.verdict.isProbeError = false
  latched : spec'.everSatisfied = true →
    spec.everSatisfied = true ∨ ∃ g ∈ b'.judged, g.probe = j ∧ g.verdict = .satisfied

namespace Turn

variable {j : Nat} {spec spec' : ProbeSpec} {b b' : Bench}

theorem refl (j : Nat) (spec : ProbeSpec) (b : Bench) : Turn j spec spec b b where
  fresh := rfl
  judged := ⟨[], rfl, by simp⟩
  latched := Or.inl

theorem of_judge {answers : Nat → Verdict} {snap : Snapshot} {verdict : Verdict}
    (h : b.judge answers j snap = (verdict, b')) (herror : verdict.isProbeError = false)
    (hfresh : spec'.fresh = spec.fresh)
    (hlatched : spec'.everSatisfied = spec.everSatisfied ∨ verdict = .satisfied)
    : Turn j spec spec' b b' := by
  cases h
  refine ⟨hfresh, ⟨[_], rfl, ?_⟩, ?_⟩
  . intro g hg
    rw [List.mem_singleton] at hg
    rw [hg]
    exact herror
  . intro hs
    cases hlatched with
    | inl heq => exact Or.inl (heq ▸ hs)
    | inr hv => exact Or.inr ⟨_, List.mem_cons_self, rfl, hv⟩

theorem violate (h : Turn j spec spec' b b') (v : Violation)
    : Turn j spec spec' b (b'.violate v) :=
  ⟨h.fresh, h.judged, h.latched⟩

end Turn

theorem Audited.turn {specs pre post : List ProbeSpec} {spec spec' : ProbeSpec} {b b' : Bench}
    (h : Audited specs (pre ++ spec :: post) b) (ht : Turn pre.length spec spec' b b')
    : Audited specs (pre ++ spec' :: post) b' := by
  obtain ⟨gs, hjudged, hclean⟩ := ht.judged
  -- A judgement on record before the turn is on record behind it.
  have kept : ∀ {j}, (∃ g ∈ b.judged, g.probe = j ∧ g.verdict = .satisfied) →
      ∃ g ∈ b'.judged, g.probe = j ∧ g.verdict = .satisfied := by
    rintro j ⟨g, hg, hrest⟩
    refine ⟨g, ?_, hrest⟩
    rw [hjudged]
    exact List.mem_append_right _ hg
  refine ⟨?_, ?_, ?_⟩
  . rw [← h.fresh]
    simp [ht.fresh]
  . intro j s hs hsat
    by_cases hj : j = pre.length
    . subst hj
      simp only [List.getElem?_append_right, Nat.le_refl, Nat.sub_self, List.getElem?_cons_zero,
        Option.some.injEq] at hs
      subst hs
      cases ht.latched hsat with
      | inl hold => exact kept (h.latched pre.length spec (by simp) hold)
      | inr hnew => exact hnew
    . apply kept
      apply h.latched j s ?_ hsat
      rw [← hs, List.getElem?_append, List.getElem?_append]
      split
      . rfl
      . next hge =>
        obtain ⟨k, hk⟩ : ∃ k, j - pre.length = k + 1 := ⟨j - pre.length - 1, by omega⟩
        rw [hk, List.getElem?_cons_succ, List.getElem?_cons_succ]
  . intro g hg
    rw [hjudged, List.mem_append] at hg
    cases hg with
    | inl hg => exact hclean g hg
    | inr hg => exact h.clean g hg

section Eval

variable {answers : Nat → Verdict} {snap : Snapshot} {specs probes probes' : List ProbeSpec}
variable {b b' : Bench}

theorem sometimesStep_turn {j : Nat} {spec spec' : ProbeSpec}
    (h : sometimesStep answers snap j spec b = (spec', b', none)) : Turn j spec spec' b b' := by
  unfold sometimesStep at h
  split at h
  . next =>
    split at h
    . next hjudge =>
      cases h
      exact .of_judge hjudge rfl rfl (Or.inr rfl)
    . next => cases h
    . next hjudge =>
      cases h
      exact .of_judge hjudge rfl rfl (Or.inl rfl)
    . next hjudge =>
      cases h
      exact .of_judge hjudge rfl rfl (Or.inl rfl)
  . next =>
    cases h
    exact .refl j spec b

theorem evalSometimes_audited (haudit : Audited specs probes b)
    (h : evalSometimes answers snap probes b = (probes', b', none)) : Audited specs probes' b' := by
  apply Sweep.sweep_none (P := fun _ probes b => Audited specs probes b) ?_ haudit h
  intro pre spec post b spec' b' haudit hstep
  exact haudit.turn (sometimesStep_turn hstep)

variable {ceilQuotient : Nat → Nat → Nat} {chaos : Chaos} {now : Nat}

theorem alwaysStep_turn {j : Nat} {spec spec' : ProbeSpec}
    (h : alwaysStep answers ceilQuotient snap now j spec b = (spec', b', none))
    : Turn j spec spec' b b' := by
  unfold alwaysStep at h
  split at h
  . next =>
    split at h
    next verdict c hjudge =>
    dsimp only at h
    split at h
    . next =>
      cases h
      exact .of_judge hjudge rfl rfl (Or.inl rfl)
    . next =>
      cases h
      exact .of_judge hjudge rfl rfl (Or.inl rfl)
    . next =>
      split at h
      . next =>
        rw [Prod.mk.injEq, Prod.mk.injEq] at h
        obtain ⟨rfl, rfl, _⟩ := h
        apply Turn.violate
        exact .of_judge hjudge rfl rfl (Or.inl rfl)
      . next =>
        cases h
        exact .of_judge hjudge rfl rfl (Or.inl rfl)
    . next => cases h
  . next =>
    cases h
    exact .refl j spec b

theorem credit_fresh (spec : ProbeSpec) (paused : Bool) (now : Nat)
    : (spec.credit paused now).fresh = spec.fresh := by
  unfold ProbeSpec.credit
  split <;> rfl

theorem credit_everSatisfied (spec : ProbeSpec) (paused : Bool) (now : Nat)
    : (spec.credit paused now).everSatisfied = spec.everSatisfied := by
  unfold ProbeSpec.credit
  split <;> rfl

theorem checkWindow_turn {j : Nat} {spec credited spec' : ProbeSpec} {c : Bench} {flow : Option Flow}
    (h : checkWindow snap now credited c = (spec', b', flow)) (hturn : Turn j spec credited b c)
    : Turn j spec spec' b b' := by
  unfold checkWindow at h
  dsimp only at h
  split at h
  . next =>
    cases h
    exact hturn.violate _
  . next =>
    cases h
    exact hturn

theorem eventuallyStep_turn {j : Nat} {spec spec' : ProbeSpec}
    (h : eventuallyStep answers chaos snap now j spec b = (spec', b', none))
    : Turn j spec spec' b b' := by
  have hfresh := credit_fresh spec
  have hlatched := credit_everSatisfied spec
  unfold eventuallyStep at h
  split at h
  . next =>
    cases h
    exact ⟨hfresh _ _, ⟨[], rfl, by simp⟩, fun hs => Or.inl (hlatched _ _ ▸ hs)⟩
  . next =>
    dsimp only at h
    split at h
    . next hjudge =>
      cases h
      exact .of_judge hjudge rfl (hfresh _ _) (Or.inr rfl)
    . next => cases h
    . next hjudge =>
      apply checkWindow_turn h
      exact .of_judge hjudge rfl (hfresh _ _) (Or.inl (hlatched _ _))
    . next hjudge =>
      apply checkWindow_turn h
      exact .of_judge hjudge rfl (hfresh _ _) (Or.inl (hlatched _ _))

theorem tickStep_turn {j : Nat} {spec spec' : ProbeSpec}
    (h : tickStep answers ceilQuotient chaos snap now j spec b = (spec', b', none))
    : Turn j spec spec' b b' := by
  unfold tickStep at h
  split at h
  . next =>
    cases h
    exact .refl j spec b
  . next =>
    cases h
    exact .refl j spec b
  . next => exact alwaysStep_turn h
  . next => exact eventuallyStep_turn h

theorem evalTick_audited (haudit : Audited specs probes b)
    (h : evalTick answers ceilQuotient chaos snap now probes b = (probes', b', none))
    : Audited specs probes' b' := by
  unfold evalTick at h
  split at h
  . next => cases h
  . next probes₁ b₁ hsometimes =>
    have haudit₁ := evalSometimes_audited haudit hsometimes
    apply Sweep.sweep_none (P := fun _ probes b => Audited specs probes b) ?_ haudit₁ h
    intro pre spec post b spec' b' haudit hstep
    exact haudit.turn (tickStep_turn hstep)

theorem judgeUntil_judged {j : Nat} {retryUntil : Option Nat} {attempts : List Attempt}
    {verdict : Verdict} (h : judgeUntil answers j snap retryUntil attempts b = some (verdict, b'))
    : b'.violations = b.violations ∧
      ∃ gs, b'.judged = ⟨j, snap, verdict⟩ :: gs ++ b.judged ∧
        ∀ g ∈ gs, g.probe = j ∧ g.verdict.isViolated = true := by
  induction attempts generalizing b with
  | nil => cases h
  | cons a as ih =>
    unfold judgeUntil at h
    dsimp only [Bench.judge] at h
    split at h
    . next hretry =>
      split at h
      . next =>
        cases h
        exact ⟨rfl, [], rfl, by simp⟩
      . next =>
        obtain ⟨hviolations, gs, hjudged, hgs⟩ := ih h
        refine ⟨hviolations, gs ++ [⟨j, snap, answers b.asked⟩], ?_, ?_⟩
        . rw [hjudged]
          simp
        . intro g hg
          rw [List.mem_append, List.mem_singleton] at hg
          cases hg with
          | inl hg => exact hgs g hg
          | inr hg =>
            rw [Bool.and_eq_true] at hretry
            rw [hg]
            exact ⟨rfl, hretry.1⟩
    . next =>
      cases h
      exact ⟨rfl, [], rfl, by simp⟩

end Eval
end Sync
