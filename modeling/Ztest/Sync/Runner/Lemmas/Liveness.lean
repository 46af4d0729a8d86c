import Ztest.Sync.Runner.Lemmas.Checked

namespace Sync

/--
Nothing on record is lost, neither a judgement nor a violation.
-/
structure Grows (b b' : Bench) : Prop where
  judged : ∀ g ∈ b.judged, g ∈ b'.judged
  violations : b'.violations = [] → b.violations = []

namespace Grows

variable {b b' b'' : Bench}

theorem refl (b : Bench) : Grows b b := ⟨fun _ h => h, id⟩

theorem trans (h : Grows b b') (h' : Grows b' b'') : Grows b b'' :=
  ⟨fun g hg => h'.judged g (h.judged g hg), fun hv => h.violations (h'.violations hv)⟩

theorem of_judge {answers : Nat → Verdict} {j : Nat} {snap : Snapshot} {verdict : Verdict}
    (h : b.judge answers j snap = (verdict, b'))
    : Grows b b' := by
  cases h
  exact ⟨fun g hg => List.mem_cons_of_mem _ hg, id⟩

theorem violate (h : Grows b b') (v : Violation) : Grows b (b'.violate v) :=
  ⟨h.judged, fun hv => absurd hv (violate_violations b' v)⟩

end Grows

def Satisfied (b : Bench) (j : Nat) : Prop := ∃ g ∈ b.judged, g.probe = j ∧ g.verdict = .satisfied

theorem mem_of_judge {answers : Nat → Verdict} {j : Nat} {snap : Snapshot} {verdict : Verdict} {b b' : Bench}
    (h : b.judge answers j snap = (verdict, b'))
    : ∃ g ∈ b'.judged, g.probe = j ∧ g.verdict = verdict := by
  cases h
  exact ⟨_, List.mem_cons_self, rfl, rfl⟩

theorem Satisfied.grows {b b' : Bench} {j : Nat} (h : Satisfied b j) (hg : Grows b b') : Satisfied b' j := by
  rcases h with ⟨g, hmem, hrest⟩
  exact ⟨g, hg.judged g hmem, hrest⟩

/--
What a tick does to an `eventually` probe. Without a pause it is satisfied, or its window runs on
from where it stood and is not exceeded unless that is on record.
-/
structure LivenessTurn (chaos : Chaos) (snap : Snapshot) (now j : Nat) (spec spec' : ProbeSpec) (b : Bench)
    : Prop where
  moved : ∀ x, spec'.lastSatisfied = some x → x = now ∨ spec.lastSatisfied = some x
  unpaused : spec.paused chaos snap = false →
    Satisfied b j ∨
      spec'.lastSatisfied = some (spec.lastSatisfied.getD now) ∧
        (b.violations = [] → now - spec.lastSatisfied.getD now ≤ spec.livenessWindow)

theorem LivenessTurn.grows {chaos : Chaos} {snap : Snapshot} {now j : Nat} {spec spec' : ProbeSpec}
    {b b' : Bench} (h : LivenessTurn chaos snap now j spec spec' b) (hg : Grows b b')
    : LivenessTurn chaos snap now j spec spec' b' where
  moved := h.moved
  unpaused hp := (h.unpaused hp).imp (·.grows hg) (And.imp_right fun hw hv => hw (hg.violations hv))

section Eval

variable {answers : Nat → Verdict} {snap : Snapshot} {probes probes' : List ProbeSpec}
variable {b b' : Bench} {j : Nat} {spec spec' : ProbeSpec}

theorem sometimesStep_grows (h : sometimesStep answers snap j spec b = (spec', b', none))
    : Grows b b' ∧ (spec.cls ≠ .sometimes → spec' = spec) := by
  unfold sometimesStep at h
  split at h
  . next hcls =>
    have hskip : spec.cls ≠ .sometimes → spec' = spec := fun hne => absurd hcls.1 hne
    split at h
    . next hjudge =>
      cases h
      exact ⟨.of_judge hjudge, hskip⟩
    . cases h
    . next hjudge =>
      cases h
      exact ⟨.of_judge hjudge, hskip⟩
    . next hjudge =>
      cases h
      exact ⟨.of_judge hjudge, hskip⟩
  . cases h
    exact ⟨.refl b, fun _ => rfl⟩

theorem evalSometimes_grows (h : evalSometimes answers snap probes b = (probes', b', none))
    : Grows b b' := by
  apply Sweep.sweep_none (P := fun _ _ t => Grows b t) ?_ (.refl b) h
  intro pre spec post c spec' c' hc hstep
  exact hc.trans (sometimesStep_grows hstep).1

theorem evalSometimes_other (h : evalSometimes answers snap probes b = (probes', b', none))
    (hj : probes[j]? = some spec) (hcls : spec.cls ≠ .sometimes)
    : probes'[j]? = some spec := by
  have heach := Sweep.sweep_none_each (R := fun _ (spec spec' : ProbeSpec) (_ : Bench) => spec.cls ≠ .sometimes → spec' = spec)
    (fun _ _ _ _ _ hstep => (sometimesStep_grows hstep).2) (fun _ _ _ _ hR _ _ _ _ _ => hR) h j spec hj
  rcases heach with ⟨spec', hj', heq⟩
  rw [hj', heq hcls]

variable {ceilQuotient : Nat → Nat → Nat} {chaos : Chaos} {now : Nat}

theorem alwaysStep_grows (h : alwaysStep answers ceilQuotient snap now j spec b = (spec', b', none))
    : Grows b b' := by
  unfold alwaysStep at h
  split at h
  . split at h
    next verdict c hjudge =>
    dsimp only at h
    split at h
    . cases h
      exact .of_judge hjudge
    . cases h
      exact .of_judge hjudge
    . split at h
      . rw [Prod.mk.injEq, Prod.mk.injEq] at h
        rcases h with ⟨_, rfl, _⟩
        exact (Grows.of_judge hjudge).violate _
      . cases h
        exact .of_judge hjudge
    . cases h
  . cases h
    exact .refl b

theorem credit_lastSatisfied (spec : ProbeSpec) (now : Nat)
    : (spec.credit false now).lastSatisfied = some (spec.lastSatisfied.getD now) := by
  unfold ProbeSpec.credit
  cases hlast : spec.lastSatisfied with
  | none => simp
  | some x => simp [hlast]

theorem credit_livenessWindow (spec : ProbeSpec) (paused : Bool) (now : Nat)
    : (spec.credit paused now).livenessWindow = spec.livenessWindow := by
  unfold ProbeSpec.credit
  split
  . rfl
  . rfl

theorem checkWindow_spec {credited : ProbeSpec} {c : Bench} {x : Nat}
    (hlast : credited.lastSatisfied = some x) (h : checkWindow snap now credited c = (spec', b', none))
    : Grows c b' ∧ spec' = credited ∧ (b'.violations = [] → now - x ≤ credited.livenessWindow) := by
  unfold checkWindow at h
  rw [hlast, Option.getD_some] at h
  dsimp only at h
  split at h
  . rw [Prod.mk.injEq, Prod.mk.injEq] at h
    rcases h with ⟨rfl, rfl, _⟩
    exact ⟨(Grows.refl c).violate _, rfl, fun hv => absurd hv (violate_violations _ _)⟩
  . next hle =>
    cases h
    exact ⟨.refl _, rfl, fun _ => Nat.le_of_not_lt hle⟩

theorem eventuallyStep_spec (h : eventuallyStep answers chaos snap now j spec b = (spec', b', none))
    : Grows b b' ∧ LivenessTurn chaos snap now j spec spec' b' := by
  unfold eventuallyStep at h
  split at h
  . next hpaused =>
    cases h
    refine ⟨.refl b, ?_, ?_⟩
    . intro x hx
      simp only [ProbeSpec.credit, Bool.true_or, if_true, Option.some.injEq] at hx
      exact Or.inl hx.symm
    . intro hp
      rw [hpaused] at hp
      cases hp
  . have hcredit := credit_lastSatisfied spec now
    have hmoved : ∀ x, some (spec.lastSatisfied.getD now) = some x → x = now ∨ spec.lastSatisfied = some x := by
      intro x hx
      cases hlast : spec.lastSatisfied with
      | none =>
        rw [hlast, Option.getD_none, Option.some.injEq] at hx
        exact Or.inl hx.symm
      | some y =>
        rw [hlast, Option.getD_some] at hx
        exact Or.inr hx
    -- Neither answer satisfies the probe: its window is checked.
    have hchecked : ∀ {c : Bench}, Grows b c → checkWindow snap now (spec.credit false now) c = (spec', b', none) →
        Grows b b' ∧ LivenessTurn chaos snap now j spec spec' b' := by
      intro c hg hcheck
      rcases checkWindow_spec hcredit hcheck with ⟨hg', rfl, hwindow⟩
      refine ⟨hg.trans hg', ?_, ?_⟩
      . intro x hx
        exact hmoved x (hcredit ▸ hx)
      . intro _
        rw [credit_livenessWindow] at hwindow
        exact Or.inr ⟨hcredit, hwindow⟩
    dsimp only at h
    split at h
    . next hjudge =>
      cases h
      refine ⟨.of_judge hjudge, ?_, ?_⟩
      . intro x hx
        exact Or.inl (Option.some.inj hx).symm
      . intro _
        exact Or.inl (mem_of_judge hjudge)
    . cases h
    . next hjudge => exact hchecked (.of_judge hjudge) h
    . next hjudge => exact hchecked (.of_judge hjudge) h

theorem tickStep_grows (h : tickStep answers ceilQuotient chaos snap now j spec b = (spec', b', none))
    : Grows b b' := by
  unfold tickStep at h
  split at h
  . cases h
    exact .refl b
  . cases h
    exact .refl b
  . exact alwaysStep_grows h
  . exact (eventuallyStep_spec h).1

theorem tickStep_liveness (h : tickStep answers ceilQuotient chaos snap now j spec b = (spec', b', none))
    (hcls : spec.cls = .eventually)
    : LivenessTurn chaos snap now j spec spec' b' := by
  unfold tickStep at h
  rw [hcls] at h
  exact (eventuallyStep_spec h).2

theorem evalTick_liveness
    (h : evalTick answers ceilQuotient chaos snap now probes b = (probes', b', none))
    : Grows b b' ∧ ∀ j spec, probes[j]? = some spec → spec.cls = .eventually →
        ∃ spec', probes'[j]? = some spec' ∧ LivenessTurn chaos snap now j spec spec' b' := by
  unfold evalTick at h
  split at h
  . cases h
  . next probes₁ b₁ hsometimes =>
    have hgrows : Grows b₁ b' := by
      apply Sweep.sweep_none (P := fun _ _ t => Grows b₁ t) ?_ (.refl b₁) h
      intro pre spec post c spec' c' hc hstep
      exact hc.trans (tickStep_grows hstep)
    refine ⟨(evalSometimes_grows hsometimes).trans hgrows, ?_⟩
    intro j spec hj hcls
    have heach := Sweep.sweep_none_each
      (R := fun j (spec spec' : ProbeSpec) b => spec.cls = .eventually → LivenessTurn chaos snap now j spec spec' b)
      (fun _ _ _ _ _ hstep hcls => tickStep_liveness hstep hcls)
      (fun _ _ _ _ hR _ _ _ _ hstep hcls => (hR hcls).grows (tickStep_grows hstep))
      h j spec (evalSometimes_other hsometimes hj (by simp [hcls]))
    rcases heach with ⟨spec', hj', hturn⟩
    exact ⟨spec', hj', hturn hcls⟩

variable {retries : Nat → Retry} {s s' : Bench × Bool}

theorem completionStep_grows (h : completionStep answers snap retries j spec s = (spec', s', none))
    : Grows s.1 s'.1 := by
  have hturn := completionStep_turn h
  rcases hturn.judged with ⟨gs, hjudged, _⟩
  refine ⟨?_, ?_⟩
  . intro g hg
    rw [hjudged]
    exact List.mem_append_right _ hg
  . intro hv
    by_contra hne
    exact hturn.violations hne hv

theorem evalAtCompletion_grows {fatal : Bool}
    (h : evalAtCompletion answers snap retries probes b = (probes', (b', fatal), none))
    : Grows b b' := by
  apply Sweep.sweep_none (P := fun _ _ t => Grows b t.1) ?_ (.refl b) h
  intro pre spec post c spec' c' hc hstep
  exact hc.trans (completionStep_grows hstep)

end Eval

namespace PhaseRun

variable {watched : List Watched} {w : World} {deadline : Option Nat} {finish : Finish}
variable {specs : List ProbeSpec} {s s' : PhaseRun} {a t : Tick} {j : Nat} {spec : ProbeSpec}

/--
A tick that the phase took without ending short: the state `s'` behind its probes.
-/
inductive Taken (watched : List Watched) (w : World) (s : PhaseRun) (t : Tick) : PhaseRun → Prop where
  | held {s₁ : PhaseRun} {e : String} (h : s.fireFaults watched t = (s₁, none))
      (hprogress : t.progress = .error e)
    : Taken watched w s t (s₁.hold t)
  | evaluated {p : ProgressView} {s' : PhaseRun} (h : Evaluated watched w s t p none s')
    : Taken watched w s t s'

theorem taken_of_ok (h : s.tick watched w deadline finish t = .ok (s', ())) : Taken watched w s t s' := by
  have hticked := tick_ticked watched w deadline finish s t
  rw [h] at hticked
  cases hticked with
  | held hfire _ hprogress => exact .held hfire hprogress
  | continued heval _ => exact .evaluated heval

theorem judgeFinish_grows {answers : Nat → Verdict} {finish : Finish}
    (h : s.judgeFinish answers finish = some (s', none))
    : Grows s.bench s'.bench ∧ s'.chaos = s.chaos := by
  unfold judgeFinish at h
  split at h
  . cases h
    exact ⟨.refl _, rfl⟩
  . dsimp only at h
    split at h
    . cases h
    . next hsometimes =>
      split at h
      . cases h
      . cases h
      . next hcompletion =>
        cases h
        exact ⟨(evalSometimes_grows hsometimes).trans (evalAtCompletion_grows hcompletion), rfl⟩

theorem taken_of_passed {e : Ending} (h : s.tick watched w deadline finish t = .error (.ended s' e))
    (hp : e.verdict = .passed)
    : ∃ s₁, Taken watched w s t s₁ ∧ Grows s₁.bench s'.bench ∧ s'.chaos = s₁.chaos := by
  have hticked := tick_ticked watched w deadline finish s t
  rw [h] at hticked
  generalize hstop : Stop.ended s' e = stop at hticked
  cases hticked with
  | @arrived p s₁ s₂ error heval hreached hfinish =>
    rcases complete_passed hstop.symm hp with ⟨rfl, _, _, rfl, _⟩
    rcases judgeFinish_grows hfinish with ⟨hgrows, hchaos⟩
    exact ⟨s₁, .evaluated heval, hgrows, hchaos⟩
  | retrying => cases hstop
  | _ =>
    cases hstop
    cases hp

theorem applyFaults_same {kills : Nat → Option String} {now i : Nat} {faults : List ScheduledFault}
    {r : Option String} (h : applyFaults watched kills now i faults s = (s', r))
    : s'.probes = s.probes ∧ s'.bench = s.bench := by
  induction faults generalizing i s with
  | nil =>
    cases h
    exact ⟨rfl, rfl⟩
  | cons fault faults ih =>
    unfold applyFaults at h
    split at h
    . split at h
      . cases h
        exact ⟨rfl, rfl⟩
      . split at h
        . cases h
          exact ⟨rfl, rfl⟩
        . have hrest := ih h
          exact hrest
    . exact ih h

theorem fireFaults_same {r : Option String} (h : s.fireFaults watched t = (s', r))
    : s'.probes = s.probes ∧ s'.bench = s.bench := by
  unfold fireFaults at h
  have hsame := applyFaults_same h
  exact hsame

theorem Taken.running (h : Taken watched w s t s') (hrun : Running specs s) : Running specs s' := by
  cases h with
  | held hfire _ => exact hold_running t (fireFaults_running hrun hfire)
  | evaluated heval => exact heval.running hrun

theorem Taken.grows (h : Taken watched w s t s') : Grows s.bench s'.bench := by
  cases h with
  | held hfire _ =>
    rw [← (fireFaults_same hfire).2]
    exact .refl _
  | evaluated heval =>
    rcases heval.eval with ⟨s₁, probes, bench, hfire, htick, rfl⟩
    rw [← (fireFaults_same hfire).2]
    exact (evalTick_liveness htick).1

/--
The tick does not pause the window of the probe: no restart is open, and the fault that the probe
waits for has fired.
-/
def Unpaused (watched : List Watched) (spec : ProbeSpec) (s : PhaseRun) (t : Tick) : Prop :=
  match t.progress with
  | .ok p =>
    spec.paused (s.fireFaults watched t).1.chaos ((s.fireFaults watched t).1.snapshot t p).2 = false
  | .error _ => ((s.fireFaults watched t).1.restart.observe t.samples false).2.holding = false

theorem Running.probe (hrun : Running specs s) (hj : specs[j]? = some spec)
    : ∃ cur, s.probes[j]? = some cur ∧ cur.fresh = spec := by
  rw [← hrun.audited.fresh, List.getElem?_map, Option.map_eq_some_iff] at hj
  exact hj

theorem fresh_cls {cur : ProbeSpec} (h : cur.fresh = spec) : cur.cls = spec.cls := h ▸ rfl

theorem fresh_paused {cur : ProbeSpec} (h : cur.fresh = spec) (chaos : Chaos) (snap : Snapshot)
    : cur.paused chaos snap = spec.paused chaos snap := h ▸ rfl

theorem fresh_livenessWindow {cur : ProbeSpec} (h : cur.fresh = spec)
    : cur.livenessWindow = spec.livenessWindow := h ▸ rfl

/--
An evaluated tick is a turn of every `eventually` probe.
-/
theorem Evaluated.liveness {p : ProgressView} (h : Evaluated watched w s t p none s') (hrun : Running specs s)
    (hj : specs[j]? = some spec) (hcls : spec.cls = .eventually)
    : ∃ cur cur', s.probes[j]? = some cur ∧ cur.fresh = spec ∧ s'.probes[j]? = some cur' ∧
        LivenessTurn (s.fireFaults watched t).1.chaos ((s.fireFaults watched t).1.snapshot t p).2 t.now j
          cur cur' s'.bench := by
  rcases h.eval with ⟨s₁, probes, bench, hfire, htick, rfl⟩
  rcases hrun.probe hj with ⟨cur, hcur, hfresh⟩
  rw [← (fireFaults_same hfire).1] at hcur
  have hcurCls : cur.cls = .eventually := (fresh_cls hfresh).trans hcls
  rcases (evalTick_liveness htick).2 j cur hcur hcurCls with ⟨cur', hcur', hturn⟩
  rw [(fireFaults_same hfire).1] at hcur
  rw [hfire]
  exact ⟨cur, cur', hcur, hfresh, hcur', hturn⟩

-- The window of the probe does not stand later than `n`.
def Since (j n : Nat) (s : PhaseRun) : Prop :=
  ∀ cur x, s.probes[j]? = some cur → cur.lastSatisfied = some x → x ≤ n

theorem creditLiveness_since {probes : List ProbeSpec} {now n : Nat} (hnow : now ≤ n)
    (h : ∀ cur x, probes[j]? = some cur → cur.lastSatisfied = some x → x ≤ n)
    : ∀ cur x, (creditLiveness probes now)[j]? = some cur → cur.lastSatisfied = some x → x ≤ n := by
  intro cur x hcur hx
  unfold creditLiveness at hcur
  rw [List.getElem?_map, Option.map_eq_some_iff] at hcur
  rcases hcur with ⟨old, hold, rfl⟩
  split at hx
  . rw [Option.some.injEq] at hx
    omega
  . exact h old x hold hx

theorem Taken.since {n : Nat} (h : Taken watched w s t s') (hrun : Running specs s)
    (hj : specs[j]? = some spec) (hcls : spec.cls = .eventually) (hnow : t.now ≤ n) (hsince : Since j n s)
    : Since j n s' := by
  cases h with
  | @held s₁ e hfire _ =>
    unfold Since at hsince ⊢
    rw [← (fireFaults_same hfire).1] at hsince
    unfold hold
    dsimp only
    split
    . exact creditLiveness_since hnow hsince
    . exact hsince
  | evaluated heval =>
    rcases heval.liveness hrun hj hcls with ⟨cur, cur', hcur, _, hcur', hturn⟩
    intro c x hc hx
    rw [hcur', Option.some.injEq] at hc
    subst hc
    rcases hturn.moved x hx with rfl | hold
    . exact hnow
    . exact hsince cur x hcur hold

/--
The probe is satisfied, or its window has been running since `n` at the latest.
-/
def Open (j n : Nat) (s : PhaseRun) : Prop :=
  Satisfied s.bench j ∨ ∃ cur x, s.probes[j]? = some cur ∧ cur.lastSatisfied = some x ∧ x ≤ n

section Window

variable (hrun : Running specs s) (hj : specs[j]? = some spec) (hcls : spec.cls = .eventually)
include hrun hj hcls

theorem Evaluated.opens {p : ProgressView} (h : Evaluated watched w s a p none s')
    (hunpaused : Unpaused watched spec s a) (hsince : Since j a.now s)
    : Open j a.now s' := by
  rcases h.liveness hrun hj hcls with ⟨cur, cur', hcur, hfresh, hcur', hturn⟩
  simp only [Unpaused, h.progress, ← fresh_paused hfresh] at hunpaused
  rcases hturn.unpaused hunpaused with hsat | ⟨hlast, _⟩
  . exact Or.inl hsat
  . refine Or.inr ⟨cur', _, hcur', hlast, ?_⟩
    cases hold : cur.lastSatisfied with
    | none => exact Nat.le_refl _
    | some x => exact hsince cur x hcur hold

theorem Taken.stays_open {n : Nat} (h : Taken watched w s t s') (hunpaused : Unpaused watched spec s t)
    (hopen : Open j n s)
    : Open j n s' := by
  rcases hopen with hsat | ⟨cur, x, hcur, hx, hle⟩
  . exact Or.inl (hsat.grows h.grows)
  . cases h with
    | @held s₁ e hfire hprogress =>
      rw [← (fireFaults_same hfire).1] at hcur
      simp only [Unpaused, hprogress, hfire] at hunpaused
      refine Or.inr ⟨cur, x, ?_, hx, hle⟩
      simp only [hold, hunpaused]
      exact hcur
    | evaluated heval =>
      rcases heval.liveness hrun hj hcls with ⟨cur₀, cur', hcur₀, hfresh, hcur', hturn⟩
      rw [hcur, Option.some.injEq] at hcur₀
      subst hcur₀
      simp only [Unpaused, heval.progress, ← fresh_paused hfresh] at hunpaused
      rcases hturn.unpaused hunpaused with hsat | ⟨hlast, _⟩
      . exact Or.inl hsat
      . rw [hx, Option.getD_some] at hlast
        exact Or.inr ⟨cur', x, hcur', hlast, hle⟩

theorem Evaluated.satisfied {p : ProgressView} {n : Nat} (h : Evaluated watched w s t p none s')
    (hunpaused : Unpaused watched spec s t) (hopen : Open j n s) (hlate : n + spec.livenessWindow < t.now)
    (hviolations : s'.bench.violations = [])
    : Satisfied s'.bench j := by
  rcases hopen with hsat | ⟨cur, x, hcur, hx, hle⟩
  . exact hsat.grows (Taken.evaluated h).grows
  . rcases h.liveness hrun hj hcls with ⟨cur₀, cur', hcur₀, hfresh, hcur', hturn⟩
    rw [hcur, Option.some.injEq] at hcur₀
    subst hcur₀
    simp only [Unpaused, h.progress, ← fresh_paused hfresh] at hunpaused
    rcases hturn.unpaused hunpaused with hsat | ⟨_, hwindow⟩
    . exact hsat
    . have hin := hwindow hviolations
      rw [hx, Option.getD_some, fresh_livenessWindow hfresh] at hin
      omega

end Window

/--
The stretch rule: a probe that no tick from `a` to `t` paused was satisfied in this phase, or the
stretch is not longer than its window.
-/
theorem satisfied_of_stretch {s₀ s₁ s₂ : PhaseRun} {pre mid : List Tick} {p q : ProgressView}
    (hrun : Running specs s₀) (hj : specs[j]? = some spec) (hcls : spec.cls = .eventually)
    (hstart : Since j a.now s₀) (hclock : ∀ t ∈ pre, t.now ≤ a.now)
    (hpre : Run.exec (tick watched w deadline finish) s₀ pre = .ok s₁)
    (hmid : Run.exec (tick watched w deadline finish) s₁ (a :: mid) = .ok s₂)
    (hfirst : a.progress = .ok p) (hunpaused : Run.Along (tick watched w deadline finish) (Unpaused watched spec) s₁ (a :: mid))
    (hlast : Evaluated watched w s₂ t q none s') (hlastUnpaused : Unpaused watched spec s₂ t)
    (hlate : a.now + spec.livenessWindow < t.now) (hviolations : s'.bench.violations = [])
    : Satisfied s'.bench j := by
  have hbefore : Running specs s₁ ∧ Since j a.now s₁ := by
    apply Run.exec_invariant_along (I := fun s => Running specs s ∧ Since j a.now s)
      (Q := fun _ t => t.now ≤ a.now) ?_ ⟨hrun, hstart⟩ ?_ hpre
    . rintro s t s' _ ⟨hs, hsince⟩ hnow hstep
      have htaken := taken_of_ok hstep
      exact ⟨htaken.running hs, htaken.since hs hj hcls hnow hsince⟩
    . exact Run.along_of_mem hclock s₀
  rcases hbefore with ⟨hrun₁, hsince₁⟩
  rcases Run.exec_cons_ok hmid with ⟨sₐ, _, hstep, hrest⟩
  have htaken := taken_of_ok hstep
  have hopens : Open j a.now sₐ := by
    cases htaken with
    | held _ hprogress =>
      rw [hfirst] at hprogress
      cases hprogress
    | evaluated heval => exact heval.opens hrun₁ hj hcls hunpaused.1 hsince₁
  have hafter : Running specs s₂ ∧ Open j a.now s₂ := by
    apply Run.exec_invariant_along (I := fun s => Running specs s ∧ Open j a.now s)
      (Q := Unpaused watched spec) ?_ ⟨htaken.running hrun₁, hopens⟩ (hunpaused.2 sₐ () hstep) hrest
    rintro s t s' _ ⟨hs, hopen⟩ hunp hstep
    have htaken := taken_of_ok hstep
    exact ⟨htaken.running hs, htaken.stays_open hs hj hcls hunp hopen⟩
  exact hlast.satisfied hafter.1 hj hcls hlastUnpaused hafter.2 hlate hviolations

end PhaseRun

end Sync
