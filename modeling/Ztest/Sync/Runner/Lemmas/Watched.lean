import Ztest.Sync.Runner.Lemmas.Liveness

namespace Sync

/--
The scheduled kills of a run: each one is still pending, or it meets `P` and its name is on record.
-/
structure Scheduled (origin : Nat) (kills : List ScheduledFault) (P : ScheduledFault → Prop) (c : Chaos)
    : Prop where
  origin : c.origin = origin
  sorted : c.pending.Pairwise fun a b => a.offset ≤ b.offset
  isKill : ∀ f ∈ c.pending, f.kind.isKill = true
  fired : ∀ f ∈ kills, f ∈ c.pending ∨ P f ∧ ∀ name, f.name = some name → c.hasFired name = true

theorem Chaos.hasFired_record {c : Chaos} {name : String} (h : c.hasFired name = true)
    (fault : ScheduledFault) (now : Nat)
    : (c.record fault now).hasFired name = true := by
  unfold Chaos.hasFired Chaos.record at *
  rw [List.any_append, h]
  rfl

theorem Chaos.record_hasFired (c : Chaos) {fault : ScheduledFault} {name : String}
    (h : fault.name = some name) (now : Nat)
    : (c.record fault now).hasFired name = true := by
  unfold Chaos.hasFired Chaos.record
  simp [h]

theorem Chaos.new_scheduled (faults : List ScheduledFault) (origin : Nat) (P : ScheduledFault → Prop)
    : Scheduled origin (faults.filter (·.kind.isKill)) P (.new faults origin) where
  origin := rfl
  sorted := List.pairwise_insertionSort _ _
  isKill := by
    intro f hf
    exact (List.mem_filter.mp ((List.mem_insertionSort _).mp hf)).2
  fired := by
    intro f hf
    exact Or.inl ((List.mem_insertionSort _).mpr hf)

theorem Chaos.takeDue_pending (c : Chaos) (now : Nat)
    : (c.takeDue now).1.pending = c.pending.dropWhile fun f => c.origin + f.offset ≤ now := by
  have hdrop := @List.drop_left _ (c.pending.takeWhile fun f => c.origin + f.offset ≤ now)
    (c.pending.dropWhile fun f => c.origin + f.offset ≤ now)
  rw [List.takeWhile_append_dropWhile] at hdrop
  exact hdrop

theorem Chaos.mem_takeDue {c : Chaos} {now : Nat} {f : ScheduledFault} (h : f ∈ c.pending)
    : f ∈ (c.takeDue now).2 ∨ f ∈ (c.takeDue now).1.pending := by
  rw [← List.takeWhile_append_dropWhile (p := fun f => decide (c.origin + f.offset ≤ now)) (l := c.pending),
    List.mem_append] at h
  rw [Chaos.takeDue_pending]
  exact h

theorem later_of_mem_dropWhile {origin now : Nat} {faults : List ScheduledFault}
    (hsorted : faults.Pairwise fun a b => a.offset ≤ b.offset)
    : ∀ f ∈ faults.dropWhile (fun f => origin + f.offset ≤ now), now < origin + f.offset := by
  induction faults with
  | nil =>
    intro f hf
    cases hf
  | cons a faults ih =>
    rw [List.pairwise_cons] at hsorted
    intro f hf
    rw [List.dropWhile_cons] at hf
    split at hf
    . exact ih hsorted.2 f hf
    . next hlater =>
      rw [decide_eq_true_eq] at hlater
      rcases List.mem_cons.mp hf with rfl | hmem
      . omega
      . have := hsorted.1 f hmem
        omega

namespace PhaseRun

variable {watched : List Watched} {w : World} {s s' : PhaseRun} {t : Tick}

theorem applyFaults_fired {kills : Nat → Option String} {now i : Nat} {faults : List ScheduledFault}
    (h : applyFaults watched kills now i faults s = (s', none))
    : s'.chaos.pending = s.chaos.pending ∧ s'.chaos.origin = s.chaos.origin ∧
        (∀ name, s.chaos.hasFired name = true → s'.chaos.hasFired name = true) ∧
        ∀ f ∈ faults, f.kind.isKill = true → ∀ name, f.name = some name → s'.chaos.hasFired name = true := by
  induction faults generalizing i s with
  | nil =>
    cases h
    refine ⟨rfl, rfl, fun _ h => h, ?_⟩
    intro f hf
    cases hf
  | cons fault faults ih =>
    unfold applyFaults at h
    split at h
    . split at h
      . cases h
      . split at h
        . cases h
        . rcases ih h with ⟨hpending, horigin, hkept, hfired⟩
          refine ⟨hpending, horigin, ?_, ?_⟩
          . intro name hname
            exact hkept name (Chaos.hasFired_record hname fault now)
          . intro f hf hkill name hname
            rcases List.mem_cons.mp hf with rfl | hf
            . exact hkept name (Chaos.record_hasFired _ hname now)
            . exact hfired f hf hkill name hname
    . next hkind =>
      rcases ih h with ⟨hpending, horigin, hkept, hfired⟩
      refine ⟨hpending, horigin, hkept, ?_⟩
      intro f hf hkill name hname
      rcases List.mem_cons.mp hf with rfl | hf
      . cases hk : f.kind with
        | kill component => exact absurd hk (hkind component)
        | _ =>
          rw [hk] at hkill
          cases hkill
      . exact hfired f hf hkill name hname

variable {origin : Nat} {kills : List ScheduledFault} {P : ScheduledFault → Prop}

/--
Behind a tick that fired its faults, what was due meets `P` and nothing that is due is left.
-/
theorem fireFaults_scheduled (hs : Scheduled origin kills P s.chaos) (h : s.fireFaults watched t = (s', none))
    (hdue : ∀ f ∈ (s.chaos.takeDue t.now).2, P f)
    : Scheduled origin kills P s'.chaos ∧ ∀ f ∈ s'.chaos.pending, t.now < origin + f.offset := by
  unfold fireFaults at h
  dsimp only at h
  rcases applyFaults_fired h with ⟨hpending, horigin, hkept, hfired⟩
  rw [Chaos.takeDue_pending] at hpending
  have hsub : s'.chaos.pending.Sublist s.chaos.pending := hpending ▸ List.dropWhile_sublist _
  have hkillOfDue : ∀ f ∈ (s.chaos.takeDue t.now).2, f.kind.isKill = true := by
    intro f hf
    exact hs.isKill f ((List.takeWhile_sublist _).subset hf)
  refine ⟨⟨horigin.trans hs.origin, hs.sorted.sublist hsub, ?_, ?_⟩, ?_⟩
  . intro f hf
    exact hs.isKill f (hsub.subset hf)
  . intro f hf
    rcases hs.fired f hf with hp | ⟨hP, hname⟩
    . rcases Chaos.mem_takeDue hp with hf | hf
      . exact Or.inr ⟨hdue f hf, hfired f hf (hkillOfDue f hf)⟩
      . rw [Chaos.takeDue_pending, ← hpending] at hf
        exact Or.inl hf
    . exact Or.inr ⟨hP, fun name h => hkept name (hname name h)⟩
  . rw [hpending, hs.origin]
    exact later_of_mem_dropWhile hs.sorted

theorem Taken.fires {s' : PhaseRun} (h : Taken watched w s t s')
    : ∃ s₁, s.fireFaults watched t = (s₁, none) ∧ s'.chaos = s₁.chaos := by
  cases h with
  | held hfire _ => exact ⟨_, hfire, rfl⟩
  | evaluated heval =>
    rcases heval.eval with ⟨s₁, probes, bench, hfire, _, rfl⟩
    exact ⟨s₁, hfire, rfl⟩

end PhaseRun

namespace SyncEngine

variable {eng : SyncEngine} {w : World}

def sharedAt (eng : SyncEngine) (w : World) : Nat → Option Shared
  | 0 => some ⟨.new eng.faults w.started, 0⟩
  | i + 1 =>
    match eng.sharedAt w i, eng.phases[i]? with
    | some shared, some phase => (eng.runPhase w i shared phase).map (·.2)
    | _, _ => none

def tickOf (eng : SyncEngine) (w : World) (i : Nat) (phase : Phase) (s : PhaseRun) (t : Tick)
    : Except PhaseRun.Stop (PhaseRun × Unit) :=
  s.tick eng.watched w (phase.timeout.map ((w.timeline i).started + ·)) (w.timeline i).finish t

/--
The `i`-th phase takes the ticks `pre` and is in the state `s` in front of the ticks `rest`.
-/
structure Takes (eng : SyncEngine) (w : World) (i : Nat) (phase : Phase) (pre : List Tick) (s : PhaseRun)
    (rest : List Tick) : Prop where
  here : eng.phases[i]? = some phase
  ticks : (w.timeline i).ticks = pre ++ rest
  state : ∃ shared, eng.sharedAt w i = some shared ∧
    Run.exec (eng.tickOf w i phase)
      (.new phase (eng.probes phase) eng.historyCap (w.timeline i).launched shared) pre = .ok s

/--
The kill was due at a tick of the run, and everything due at that tick was killed.
-/
def Fired (eng : SyncEngine) (w : World) (f : ScheduledFault) : Prop :=
  ∃ i phase pre s t rest, eng.Takes w i phase pre s (t :: rest) ∧ f ∈ (s.chaos.takeDue t.now).2 ∧
    (s.fireFaults eng.watched t).2 = none

/--
The `i`-th phase takes the ticks from `a` to `t`, reads the subject at both of them, and no tick in
between pauses the window of the probe.
-/
def Exposed (eng : SyncEngine) (w : World) (i : Nat) (spec : ProbeSpec) (a t : Tick) : Prop :=
  ∃ phase pre mid rest s₁ s₂,
    eng.Takes w i phase pre s₁ (a :: mid ++ t :: rest) ∧
      Run.exec (eng.tickOf w i phase) s₁ (a :: mid) = .ok s₂ ∧
      a.progress.isOk = true ∧ t.progress.isOk = true ∧
      Run.Along (eng.tickOf w i phase) (PhaseRun.Unpaused eng.watched spec) s₁ (a :: mid) ∧
      PhaseRun.Unpaused eng.watched spec s₂ t

/--
A phase that passed, from the state it starts in to the tick it completes at.
-/
structure PassedPhase (eng : SyncEngine) (w : World) (i : Nat) (phase : Phase) (shared : Shared)
    (r : PhaseResult) (shared' : Shared) : Prop where
  here : eng.phases[i]? = some phase
  before : eng.sharedAt w i = some shared
  next : eng.sharedAt w (i + 1) = some shared'
  ended : ∃ s e, Run.exec (eng.tickOf w i phase)
      (.new phase (eng.probes phase) eng.historyCap (w.timeline i).launched shared)
      (w.timeline i).ticks = .error (.ended s e) ∧ e.verdict = .passed ∧
    s.bench.violations = [] ∧ r.judged = s.bench.judged ∧ shared'.chaos = s.chaos

theorem runPhase_passedPhase {i : Nat} {phase : Phase} {shared shared' : Shared} {r : PhaseResult}
    (hphase : eng.phases[i]? = some phase) (hshared : eng.sharedAt w i = some shared)
    (h : eng.runPhase w i shared phase = some (r, shared')) (hp : r.summary.verdict = .passed)
    : eng.PassedPhase w i phase shared r shared' := by
  rcases runPhase_ran h hp with ⟨s, ending, t, hexec, _, hpassed, hr, hshared'⟩
  refine ⟨hphase, hshared, ?_, ⟨s, ending, hexec, ?_, hpassed.violations, ?_, ?_⟩⟩
  . simp only [sharedAt, hshared, hphase, h, Option.map_some]
  . rw [hpassed.ending]
  . rw [hr]
    rfl
  . rw [hshared']

theorem runPhases_passedPhase {i : Nat} {shared : Shared} {phases : List Phase} {results : List PhaseResult}
    (h : eng.runPhases w i shared phases = some results) (hp : ∀ r ∈ results, r.summary.verdict = .passed)
    (hshared : eng.sharedAt w i = some shared) (hphases : ∀ k, phases[k]? = eng.phases[i + k]?)
    : ∀ k phase, phases[k]? = some phase →
        ∃ shared r shared', results[k]? = some r ∧ eng.PassedPhase w (i + k) phase shared r shared' := by
  induction phases generalizing i shared results with
  | nil =>
    intro k phase hk
    cases hk
  | cons phase rest ih =>
    unfold runPhases at h
    split at h
    . cases h
    . next r shared' hphase =>
      have hhere : eng.phases[i]? = some phase := (hphases 0).symm
      split at h
      . rw [Option.map_eq_some_iff] at h
        rcases h with ⟨results', hrest, rfl⟩
        rw [List.forall_mem_cons] at hp
        have hfirst := runPhase_passedPhase hhere hshared hphase hp.1
        intro k phase' hk
        cases k with
        | zero =>
          cases hk
          exact ⟨shared, r, shared', rfl, hfirst⟩
        | succ k =>
          have hshift : i + 1 + k = i + (k + 1) := by omega
          have hlater := ih hrest hp.2 hfirst.next
            (fun k => by rw [show i + 1 + k = i + (k + 1) from by omega]; exact hphases (k + 1)) k phase' hk
          rw [hshift] at hlater
          exact hlater
      . next hproceed =>
        cases h
        exact absurd (runPhase_passed hphase (hp r List.mem_cons_self)).1 hproceed

theorem run_passedPhase {outcome : SyncOutcome} {results : List PhaseResult}
    (h : eng.run w = some (outcome, results)) (hp : outcome.verdict = .passed)
    : ∀ i phase, eng.phases[i]? = some phase →
        ∃ shared r shared', results[i]? = some r ∧ eng.PassedPhase w i phase shared r shared' := by
  unfold run at h
  dsimp only at h
  split at h
  . cases h
    cases hp
  . split at h
    . cases h
    . next hphases =>
      cases h
      have hall := runPhases_passedPhase hphases (fold_passed hp) rfl (fun k => by rw [Nat.zero_add])
      intro i phase hi
      have hhere := hall i phase hi
      rw [Nat.zero_add] at hhere
      exact hhere

theorem exec_grows {i : Nat} {phase : Phase} {s s' : PhaseRun} {ticks : List Tick}
    (h : Run.exec (eng.tickOf w i phase) s ticks = .ok s')
    : Grows s.bench s'.bench := by
  apply Run.exec_invariant (I := fun v => Grows s.bench v.bench) ?_ (.refl _) h
  intro v t v' _ hv hstep
  exact hv.trans (PhaseRun.taken_of_ok hstep).grows

/--
Every tick that a passed phase takes is taken to its end.
-/
theorem PassedPhase.taken {i : Nat} {phase : Phase} {shared shared' : Shared} {r : PhaseResult}
    (h : eng.PassedPhase w i phase shared r shared') {pre rest : List Tick} {s : PhaseRun} {t : Tick}
    (htakes : eng.Takes w i phase pre s (t :: rest))
    : ∃ s', PhaseRun.Taken eng.watched w s t s' ∧ s'.bench.violations = [] ∧
        ∀ g ∈ s'.bench.judged, g ∈ r.judged := by
  rcases h.ended with ⟨s₂, e, hexec, hp, hviolations, hjudged, _⟩
  rcases htakes.state with ⟨shared₁, hshared, hpre⟩
  rw [h.before, Option.some.injEq] at hshared
  subst hshared
  rw [htakes.ticks, Run.exec_append hpre] at hexec
  have hkeep : ∀ {s' : PhaseRun}, Grows s'.bench s₂.bench →
      s'.bench.violations = [] ∧ ∀ g ∈ s'.bench.judged, g ∈ r.judged := by
    intro s' hgrows
    refine ⟨hgrows.violations hviolations, ?_⟩
    rw [hjudged]
    exact hgrows.judged
  cases hstep : eng.tickOf w i phase s t with
  | error stop =>
    simp only [Run.exec, hstep] at hexec
    cases hexec
    rcases PhaseRun.taken_of_passed hstep hp with ⟨s', htaken, hgrows, _⟩
    exact ⟨s', htaken, hkeep hgrows⟩
  | ok next =>
    rcases next with ⟨s', _⟩
    simp only [Run.exec, hstep] at hexec
    refine ⟨s', PhaseRun.taken_of_ok hstep, hkeep ?_⟩
    rcases Run.exec_error hexec with ⟨pre₂, t₂, post, s₃, _, hpre₂, hlast⟩
    rcases PhaseRun.taken_of_passed hlast hp with ⟨s₄, htaken, hgrows, _⟩
    exact ((exec_grows hpre₂).trans htaken.grows).trans hgrows

-- The kills of the run, by the order of their offsets.
def kills (eng : SyncEngine) : List ScheduledFault := eng.faults.filter (·.kind.isKill)

theorem Takes.fired {i : Nat} {phase : Phase} {pre rest : List Tick} {s s' : PhaseRun} {t : Tick}
    (h : eng.Takes w i phase pre s (t :: rest)) (htaken : PhaseRun.Taken eng.watched w s t s')
    (hs : Scheduled w.started eng.kills (eng.Fired w) s.chaos)
    : Scheduled w.started eng.kills (eng.Fired w) s'.chaos ∧
        ∀ f ∈ s'.chaos.pending, t.now < w.started + f.offset := by
  rcases htaken.fires with ⟨s₁, hfire, hchaos⟩
  rw [hchaos]
  apply PhaseRun.fireFaults_scheduled hs hfire
  intro f hf
  exact ⟨i, phase, pre, s, t, rest, h, hf, by rw [hfire]⟩

theorem Takes.step {i : Nat} {phase : Phase} {pre rest : List Tick} {s s' : PhaseRun} {t : Tick}
    (h : eng.Takes w i phase pre s (t :: rest)) (hstep : eng.tickOf w i phase s t = .ok (s', ()))
    : eng.Takes w i phase (pre ++ [t]) s' rest := by
  rcases h.state with ⟨shared, hshared, hpre⟩
  refine ⟨h.here, ?_, shared, hshared, ?_⟩
  . rw [h.ticks, List.append_assoc]
    rfl
  . rw [Run.exec_append hpre]
    simp only [Run.exec, hstep]

theorem Takes.scheduled {i : Nat} {phase : Phase} {pre mid rest : List Tick} {s s' : PhaseRun}
    (h : eng.Takes w i phase pre s (mid ++ rest)) (hexec : Run.exec (eng.tickOf w i phase) s mid = .ok s')
    (hs : Scheduled w.started eng.kills (eng.Fired w) s.chaos)
    : Scheduled w.started eng.kills (eng.Fired w) s'.chaos ∧ eng.Takes w i phase (pre ++ mid) s' rest := by
  induction mid generalizing pre s with
  | nil =>
    cases hexec
    rw [List.append_nil]
    exact ⟨hs, h⟩
  | cons t mid ih =>
    rcases Run.exec_cons_ok hexec with ⟨s₁, _, hstep, hrest⟩
    have hnext := ih (h.step hstep) hrest (h.fired (PhaseRun.taken_of_ok hstep) hs).1
    rw [List.append_assoc] at hnext
    exact hnext

theorem PassedPhase.start {i : Nat} {phase : Phase} {shared shared' : Shared} {r : PhaseResult}
    (h : eng.PassedPhase w i phase shared r shared')
    : eng.Takes w i phase []
        (.new phase (eng.probes phase) eng.historyCap (w.timeline i).launched shared)
        (w.timeline i).ticks :=
  ⟨h.here, rfl, shared, h.before, rfl⟩

theorem PassedPhase.scheduled {i : Nat} {phase : Phase} {shared shared' : Shared} {r : PhaseResult}
    (h : eng.PassedPhase w i phase shared r shared')
    (hs : Scheduled w.started eng.kills (eng.Fired w) shared.chaos)
    : Scheduled w.started eng.kills (eng.Fired w) shared'.chaos := by
  rcases h.ended with ⟨s₂, e, hexec, hp, _, _, hchaos⟩
  rcases Run.exec_error hexec with ⟨pre, t, post, s, hticks, hpre, hlast⟩
  have hstart := h.start
  rw [hticks] at hstart
  rcases hstart.scheduled hpre hs with ⟨hs₁, htakes⟩
  rcases PhaseRun.taken_of_passed hlast hp with ⟨s₃, htaken, _, hchaos₃⟩
  rw [hchaos, hchaos₃]
  exact (htakes.fired htaken hs₁).1

theorem sharedAt_scheduled
    (hpassed : ∀ i phase, eng.phases[i]? = some phase → ∃ shared r shared', eng.PassedPhase w i phase shared r shared')
    {i : Nat} {shared : Shared} (h : eng.sharedAt w i = some shared)
    : Scheduled w.started eng.kills (eng.Fired w) shared.chaos := by
  induction i generalizing shared with
  | zero =>
    cases h
    exact Chaos.new_scheduled _ _ _
  | succ i ih =>
    have hphase : ∃ phase, eng.phases[i]? = some phase := by
      unfold sharedAt at h
      split at h
      . next phase _ hphase => exact ⟨phase, hphase⟩
      . cases h
    rcases hphase with ⟨phase, hphase⟩
    rcases hpassed i phase hphase with ⟨shared₀, r, shared', hp⟩
    rw [hp.next, Option.some.injEq] at h
    exact h ▸ hp.scheduled (ih hp.before)

theorem new_since (eng : SyncEngine) (phase : Phase) (launched : Nat) (shared : Shared) (j n : Nat)
    : PhaseRun.Since j n (.new phase (eng.probes phase) eng.historyCap launched shared) := by
  intro cur x hcur hx
  rw [← eng.probes_fresh phase (List.mem_of_getElem? hcur)] at hx
  cases hx

/--
A run that passed: an `eventually` probe was satisfied in every phase that left it unpaused for
longer than its window, and every kill whose offset had passed at a tick of the run was fired and
arms the probes that wait for it.
-/
theorem passed_exposed (eng : SyncEngine) (w : World) (outcome : SyncOutcome) (results : List PhaseResult)
    (h : eng.run w = some (outcome, results)) (hp : outcome.verdict = .passed)
    (hclock : ∀ i, (w.timeline i).ticks.Pairwise fun a b => a.now ≤ b.now)
    : (∀ i phase, eng.phases[i]? = some phase → ∃ r, results[i]? = some r ∧
          ∀ j spec, (eng.probes phase)[j]? = some spec → spec.cls = .eventually →
            ∀ a t, eng.Exposed w i spec a t → a.now + spec.livenessWindow < t.now →
              ∃ g ∈ r.judged, g.probe = j ∧ g.verdict = .satisfied) ∧
        ∀ i phase pre s t rest, eng.Takes w i phase pre s (t :: rest) →
          ∀ f ∈ eng.faults, f.kind.isKill = true → w.started + f.offset ≤ t.now →
            eng.Fired w f ∧ ∀ name, f.name = some name →
              (s.fireFaults eng.watched t).1.chaos.hasFired name = true := by
  have hphases := run_passedPhase h hp
  constructor
  . intro i phase hphase
    rcases hphases i phase hphase with ⟨shared, r, shared', hr, hpassed⟩
    refine ⟨r, hr, ?_⟩
    rintro j spec hj hcls a t ⟨phase', pre, mid, rest, s₁, s₂, htakes, hmid, hfirst, hlast, hunpaused, hlastUnpaused⟩ hlate
    have heq : phase' = phase := by
      have := htakes.here
      rw [hphase, Option.some.injEq] at this
      exact this.symm
    subst heq
    rcases htakes.state with ⟨shared₁, hshared, hpre⟩
    have hat : eng.Takes w i phase' (pre ++ a :: mid) s₂ (t :: rest) := by
      refine ⟨htakes.here, by rw [htakes.ticks]; simp, shared₁, hshared, ?_⟩
      rw [Run.exec_append hpre]
      exact hmid
    rcases hpassed.taken hat with ⟨s', htaken, hviolations, hjudged⟩
    have hbefore : ∀ t ∈ pre, t.now ≤ a.now := by
      intro t ht
      have hpair := hclock i
      rw [htakes.ticks, List.pairwise_append] at hpair
      exact hpair.2.2 t ht a List.mem_cons_self
    have hsatisfied : Satisfied s'.bench j := by
      cases htaken with
      | held _ hprogress =>
        rw [hprogress] at hlast
        cases hlast
      | evaluated heval =>
        cases hread : a.progress with
        | error e =>
          rw [hread] at hfirst
          cases hfirst
        | ok p =>
          exact PhaseRun.satisfied_of_stretch (eng.new_running phase' _ shared₁) hj hcls
            (eng.new_since phase' _ shared₁ j _) hbefore hpre hmid hread hunpaused heval hlastUnpaused
            hlate hviolations
    rcases hsatisfied with ⟨g, hg, hrest⟩
    exact ⟨g, hjudged g hg, hrest⟩
  . intro i phase pre s t rest htakes f hf hkill hdue
    rcases hphases i phase htakes.here with ⟨shared, r, shared', _, hpassed⟩
    rcases htakes.state with ⟨shared₁, hshared, hpre⟩
    rw [hpassed.before, Option.some.injEq] at hshared
    subst hshared
    have hall : ∀ i phase, eng.phases[i]? = some phase →
        ∃ shared r shared', eng.PassedPhase w i phase shared r shared' := by
      intro i phase hi
      rcases hphases i phase hi with ⟨shared, r, shared', _, h⟩
      exact ⟨shared, r, shared', h⟩
    have hstart := hpassed.start
    rw [htakes.ticks] at hstart
    have hs := (hstart.scheduled hpre (sharedAt_scheduled hall hpassed.before)).1
    rcases hpassed.taken htakes with ⟨s', htaken, _⟩
    rcases htakes.fired htaken hs with ⟨hs', hlater⟩
    rcases htaken.fires with ⟨s₁, hfire, hchaos⟩
    rw [hfire]
    rcases hs'.fired f (List.mem_filter.mpr ⟨hf, hkill⟩) with hpending | ⟨hfired, hname⟩
    . have := hlater f hpending
      omega
    . rw [hchaos] at hname
      exact ⟨hfired, hname⟩

def crash (offset : Nat) : ScheduledFault := ⟨some "crash", offset, .kill "zai"⟩

-- The subject answers at two ticks far apart and is at its tip at the second one.
def tickAt (now height : Nat) (complete : Bool) : Tick :=
  ⟨false, now, fun _ => none, [], .ok ⟨height, some 7⟩, none, complete⟩

def farApart (answers : Nat → Verdict) : World where
  started := 0
  restartable _ := none
  answers := answers
  ceilQuotient hold d := (hold + d - 1) / d
  timeline _ :=
    { started := 0
      opening := .launched
      launched := 0
      ticks := [tickAt 1 6 false, tickAt 10 7 true]
      finish := ⟨.ok ⟨7, some 7⟩, 11, fun _ => ⟨11, [⟨11, false⟩]⟩⟩ }

def recovers : ProbeBuilder :=
  { ProbeBuilder.new "recovers" .eventually .fatal with cadence := .window 5, after := some "crash" }

def crashed : SyncEngine :=
  { phased (.bound "wallet" [recovers]) [] [] with
    faults := [crash 1]
    watched := [⟨"zai", "zai"⟩] }

def recovering : World := farApart fun _ => .satisfied

theorem recovering_exposed : crashed.Exposed recovering 0 recovers.check (tickAt 1 6 false) (tickAt 10 7 true) := by
  refine ⟨crashed.first, [], [], [], _, _, ⟨rfl, rfl, _, rfl, rfl⟩, rfl, rfl, rfl, ?_, rfl⟩
  exact ⟨rfl, fun _ _ _ => trivial⟩

theorem recovering_clock (i : Nat) : (recovering.timeline i).ticks.Pairwise fun a b => a.now ≤ b.now := by
  change [tickAt 1 6 false, tickAt 10 7 true].Pairwise fun a b => a.now ≤ b.now
  decide

theorem recovering_takes : ∃ s, crashed.Takes recovering 0 crashed.first [] s [tickAt 1 6 false, tickAt 10 7 true] :=
  ⟨_, rfl, rfl, _, rfl, rfl⟩

theorem crashed_passes
    : ∃ outcome results, crashed.run recovering = some (outcome, results) ∧ outcome.verdict = .passed :=
  ⟨_, _, rfl, rfl⟩

theorem crashed_recovers
    : ∃ outcome results r, crashed.run recovering = some (outcome, results) ∧ outcome.verdict = .passed ∧
        results[0]? = some r ∧ (∃ g ∈ r.judged, g.probe = 0 ∧ g.verdict = .satisfied) ∧
        crashed.Fired recovering (crash 1) := by
  rcases crashed_passes with ⟨outcome, results, hrun, hp⟩
  have hexposed := passed_exposed crashed recovering outcome results hrun hp recovering_clock
  rcases hexposed.1 0 crashed.first rfl with ⟨r, hr, hprobes⟩
  rcases recovering_takes with ⟨s, htakes⟩
  refine ⟨outcome, results, r, hrun, hp, hr, ?_, ?_⟩
  . exact hprobes 0 recovers.check rfl rfl _ _ recovering_exposed (by decide)
  . exact (hexposed.2 0 crashed.first [] s _ _ htakes (crash 1) List.mem_cons_self rfl (by decide)).1

-- The first probe is not satisfied at the one tick that judges it, the second one waits for a fault
-- that comes after the end.
def quiet : SyncEngine :=
  { phased (.bound "wallet" [.new "advances" .eventually .fatal,
      { ProbeBuilder.new "recovers" .eventually .fatal with after := some "crash" }]) [] [] with
    faults := [crash 1000]
    watched := [⟨"zai", "zai"⟩] }

theorem quiet_passes
    : ∃ outcome r shared, quiet.run (farApart fun _ => .pending) = some (outcome, [r]) ∧
        outcome.verdict = .passed ∧ (∀ g ∈ r.judged, g.probe = 0 ∧ g.verdict = .pending) ∧
        r.judged.length = 2 ∧
        quiet.sharedAt (farApart fun _ => .pending) 1 = some shared ∧
        shared.chaos.pending = quiet.faults ∧ shared.chaos.hasFired "crash" = false := by
  refine ⟨_, _, _, rfl, rfl, ?_, rfl, rfl, rfl, rfl⟩
  decide

end SyncEngine

end Sync
