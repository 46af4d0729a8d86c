import Ztest.Sync.Vigil.Lemmas.Turn

/-!
This module contains the liveness window of an `eventually` probe against the outages that the ticks
show. A container that cannot be read counts as Ready when the window closes, and a tick without a
reading moves a probe's clock only inside the window.
-/

namespace Sync

def ProbeBuilder.windowed (name : String) (severity : Severity) (window : Nat) (after : Option String)
    : ProbeBuilder :=
  { ProbeBuilder.new name .eventually severity with cadence := .window window, after }

namespace Vigil

variable {n : Nat} {v v' : State n} {b : Beat n} {w : Nat}

def State.aborts (v : State n) (b : Beat n) : Prop := ∃ msg, (v.turn b).2.2.2 = some (.abort msg)

/--
What the window, the probe and the figure are to say at one tick. Only a probe that broke the run by
an error of its own is not asked for a stall.
-/
structure Faithful (w : Nat) (v : State n) (b : Beat n) : Prop where
  holds : Open (v.entry b :: v.past) → (v.watch b).2.holding = true
  stalls : ¬ v.aborts b → (v.records b = true ↔ w < b.now - anchor (v.entry b :: v.past))
  restarts : (v.watch b).2.restarts = total (v.entry b :: v.past)

/--
The tick keeps clear of what goes wrong: an outage does not end on a container that cannot be read, a
restart shows together with those before it, and a subject that does not answer outside an outage
finds a probe that is armed, has met a tick and is within its window.
-/
structure Clear (w : Nat) (v : State n) (b : Beat n) : Prop where
  readable : Event b v.past ∨ Open v.past → b.progress.isSome = true → (¬ ∃ i, Unready b i) →
    ∀ i, b.samples i ≠ none
  together : (∃ i, Restarted b v.past i) → Together v b
  answered : b.progress = none → Open (v.entry b :: v.past) ∨
    v.armed b = true ∧ v.past ≠ [] ∧ b.now ≤ anchor v.past + w

/--
The watch knows what the ticks have shown.
-/
structure Watching (v : State n) : Prop where
  based : Based v
  seen : v.restart.seen = total v.past
  holding : v.restart.holding = true ↔ Open v.past

theorem watching_start (n : Nat) (b : ProbeBuilder) (startedAt : Nat) : Watching (State.start n b startedAt) where
  based := based_start n b startedAt
  seen := by simp [State.start, RestartWatch.default, total, counts, gained, largest]
  holding := by simp [State.start, RestartWatch.default, Open]

theorem Watching.moved_iff (h : Watching v) (htogether : (∃ i, Restarted b v.past i) → Together v b)
    : v.restart.seen < readSum v b ↔ ∃ i, Restarted b v.past i := by
  rw [h.seen]
  constructor
  . intro hlt
    by_contra hnot
    have heq := total_eq_of_not v b hnot
    have hle := readSum_le_total v b
    omega
  . intro hrestarted
    rw [(readSum_eq_total_iff v b).mpr (htogether hrestarted)]
    exact total_lt_of_restarted v b hrestarted

theorem not_closing_iff (hreadable : b.progress.isSome = true → (¬ ∃ i, Unready b i) → ∀ i, b.samples i ≠ none)
    : ¬ Closing b ↔ (∃ i, Unready b i) ∨ b.progress.isSome = false := by
  constructor
  . intro hnot
    by_contra hboth
    rw [not_or, Bool.not_eq_false] at hboth
    apply hnot
    refine ⟨hboth.2, ?_⟩
    intro i
    rcases Option.ne_none_iff_exists'.mp (hreadable hboth.2 hboth.1 i) with ⟨x, hx⟩
    refine ⟨x, hx, ?_⟩
    rw [← Bool.not_eq_false]
    intro hready
    exact hboth.1 ⟨i, x, hx, hready⟩
  . rintro (⟨i, x, hx, hready⟩ | hreading) ⟨hanswered, hall⟩
    . rcases hall i with ⟨y, hy, hyready⟩
      rw [hx, Option.some.injEq] at hy
      subst hy
      rw [hready] at hyready
      cases hyready
    . rw [hreading] at hanswered
      cases hanswered

theorem Watching.holds_iff (h : Watching v)
    (hreadable : Event b v.past ∨ Open v.past → b.progress.isSome = true → (¬ ∃ i, Unready b i) →
      ∀ i, b.samples i ≠ none)
    (htogether : (∃ i, Restarted b v.past i) → Together v b)
    : (v.watch b).2.holding = true ↔ Open (v.entry b :: v.past) := by
  have hspec := watch_spec b h.based
  rw [hspec.holding, hspec.holds, h.holding, h.moved_iff htogether]
  have hevent : (Open v.past ∨ b.faulted = true ∨ (∃ i, Restarted b v.past i) ∨ ∃ i, Unready b i) ↔
      Event b v.past ∨ Open v.past := by
    unfold Event
    rw [exists_or]
    tauto
  rw [hevent]
  change _ ↔ (Event b v.past ∨ Open v.past) ∧ ¬ Closing b
  constructor
  . rintro ⟨hopen, hlast⟩
    exact ⟨hopen, (not_closing_iff (hreadable hopen)).mpr hlast⟩
  . rintro ⟨hopen, hlast⟩
    exact ⟨hopen, (not_closing_iff (hreadable hopen)).mp hlast⟩

/--
The probe's clock stands where the ticks put it.
-/
structure Clocked (w : Nat) (v : State n) : Prop where
  cls : v.spec.cls = .eventually
  cadence : v.spec.cadence = .window w
  clock : v.spec.lastSatisfied = if v.past = [] then none else some (anchor v.past)

theorem clocked_start (n : Nat) (name : String) (severity : Severity) (w : Nat) (after : Option String)
    (startedAt : Nat)
    : Clocked w (State.start n (.windowed name severity w after) startedAt) := ⟨rfl, rfl, rfl⟩

theorem anchor_of_marked {e : Entry n} {es : List (Entry n)}
    (h : (e.satisfied || e.held || !e.armed) = true)
    : anchor (e :: es) = e.beat.now := by
  unfold anchor
  rw [h, Bool.true_or, if_pos rfl]

theorem Clocked.anchor_of_unmarked (h : Clocked w v)
    (hunmarked : ((v.entry b).satisfied || (v.entry b).held || !(v.entry b).armed) = false)
    : anchor (v.entry b :: v.past) = v.spec.lastSatisfied.getD b.now := by
  unfold anchor
  rw [hunmarked, h.clock, Bool.false_or]
  cases hpast : v.past with
  | nil => rfl
  | cons e es => simp

theorem marked_of_paused (h : ((v.watch b).2.holding || !v.armed b) = true)
    : ((v.entry b).satisfied || (v.entry b).held || !(v.entry b).armed) = true := by
  rw [Bool.or_assoc, Bool.or_eq_true]
  exact .inr h

theorem marked_of_satisfied (hreading : b.progress.isSome = true) (hverdict : b.verdict = .satisfied)
    : ((v.entry b).satisfied || (v.entry b).held || !(v.entry b).armed) = true := by
  simp [Entry.satisfied, State.entry, hreading, hverdict]

theorem unmarked_of_unsatisfied (hpaused : ((v.watch b).2.holding || !v.armed b) = false)
    (hverdict : b.progress = none ∨ b.verdict ≠ .satisfied)
    : ((v.entry b).satisfied || (v.entry b).held || !(v.entry b).armed) = false := by
  have hsatisfied : (v.entry b).satisfied = false := by
    rcases hverdict with h | h
    . simp [Entry.satisfied, State.entry, h]
    . simp [Entry.satisfied, State.entry, h]
  rw [Bool.or_assoc, hsatisfied]
  exact hpaused

theorem Clocked.waiting_of_unread (h : Clocked w v) (hclear : Clear w v b)
    (hholds : Open (v.entry b :: v.past) → (v.watch b).2.holding = true) (hreading : b.progress = none)
    (hheld : ((v.watch b).2.holding && v.spec.cls == .eventually) = false)
    : ((v.watch b).2.holding || !v.armed b) = false ∧ v.past ≠ [] ∧ b.now ≤ anchor v.past + w := by
  have hholding : (v.watch b).2.holding = false := by
    rw [h.cls] at hheld
    simpa using hheld
  rcases hclear.answered hreading with hopen | ⟨harmed, hpast, hwithin⟩
  . rw [hholds hopen] at hholding
    cases hholding
  . rw [hholding, harmed]
    exact ⟨rfl, hpast, hwithin⟩

theorem Clocked.stalls (h : Clocked w v) (hclear : Clear w v b)
    (hholds : Open (v.entry b :: v.past) → (v.watch b).2.holding = true) (hruns : ¬ v.aborts b)
    : v.records b = true ↔ w < b.now - anchor (v.entry b :: v.past) := by
  have hwindow : v.spec.livenessWindow = w := by
    unfold ProbeSpec.livenessWindow
    rw [h.cadence]
  have hturn := turn_turned v b
  unfold State.aborts at hruns
  unfold State.records
  generalize (v.turn b).2.1 = spec', (v.turn b).2.2.1 = bench, (v.turn b).2.2.2 = flow at hturn hruns ⊢
  cases hturn with
  | unread hreading hheld =>
    rcases h.waiting_of_unread hclear hholds hreading hheld with ⟨hpaused, hpast, hwithin⟩
    rw [h.anchor_of_unmarked (unmarked_of_unsatisfied hpaused (.inl hreading)), h.clock, if_neg hpast]
    simp only [List.isEmpty_nil, Bool.not_true, Bool.false_eq_true, Option.getD_some, false_iff]
    omega
  | credited hreading hheld =>
    rw [Bool.and_eq_true] at hheld
    rw [anchor_of_marked (marked_of_paused (by rw [hheld.1, Bool.true_or]))]
    simp [State.entry]
  | paused hreading hpaused =>
    rw [anchor_of_marked (marked_of_paused hpaused)]
    simp [State.entry]
  | satisfied hreading hpaused hverdict hbench =>
    rw [anchor_of_marked (marked_of_satisfied hreading hverdict), hbench]
    simp [State.entry]
  | waiting hreading hpaused hverdict hwithin hbench =>
    rw [h.anchor_of_unmarked (unmarked_of_unsatisfied hpaused (.inr hverdict)), hbench]
    rw [hwindow] at hwithin
    simpa using hwithin
  | stalled hreading hpaused hverdict hover hbench =>
    rw [h.anchor_of_unmarked (unmarked_of_unsatisfied hpaused (.inr hverdict))]
    rw [hwindow] at hover
    simp [hbench, hover]
  | aborted => exact absurd ⟨_, rfl⟩ hruns

theorem Clocked.step (h : Clocked w v) (hclear : Clear w v b)
    (hholds : Open (v.entry b :: v.past) → (v.watch b).2.holding = true) (hstep : v.step b = .ok (v', ()))
    : Clocked w v' := by
  rcases step_turned hstep with ⟨_, hpast, bench, hturn⟩
  have hcfg := hturn.config
  refine ⟨hcfg.1.trans h.cls, hcfg.2.trans h.cadence, ?_⟩
  rw [hpast, if_neg (List.cons_ne_nil _ _)]
  generalize v'.spec = spec', hflow : (none : Option Flow) = flow at hturn
  cases hturn with
  | unread hreading hheld =>
    rcases h.waiting_of_unread hclear hholds hreading hheld with ⟨hpaused, hpast, _⟩
    rw [h.anchor_of_unmarked (unmarked_of_unsatisfied hpaused (.inl hreading)), h.clock, if_neg hpast,
      Option.getD_some]
  | credited hreading hheld =>
    rw [Bool.and_eq_true] at hheld
    rw [anchor_of_marked (marked_of_paused (by rw [hheld.1, Bool.true_or]))]
    rfl
  | paused hreading hpaused =>
    rw [anchor_of_marked (marked_of_paused hpaused)]
    rfl
  | satisfied hreading hpaused hverdict hbench =>
    rw [anchor_of_marked (marked_of_satisfied hreading hverdict)]
    rfl
  | waiting hreading hpaused hverdict hwithin hbench =>
    rw [h.anchor_of_unmarked (unmarked_of_unsatisfied hpaused (.inr hverdict)), credit_lastSatisfied]
  | stalled hreading hpaused hverdict hover hbench =>
    rw [h.anchor_of_unmarked (unmarked_of_unsatisfied hpaused (.inr hverdict)), credit_lastSatisfied]
  | aborted => cases hflow

theorem Watching.step (h : Watching v) (hholds : (v.watch b).2.holding = true ↔ Open (v.entry b :: v.past))
    (hrestarts : (v.watch b).2.restarts = total (v.entry b :: v.past)) (hstep : v.step b = .ok (v', ()))
    : Watching v' := by
  rcases step_turned hstep with ⟨hrestart, hpast, _⟩
  have hspec := watch_spec b h.based
  refine ⟨h.based.step hstep, ?_, ?_⟩
  . rw [hrestart, hpast, ← hspec.restarts]
    exact hrestarts
  . rw [hrestart, hpast, ← hspec.holding]
    exact hholds

/--
The window is held through every outage and the figure is right exactly if the samples are clear.
-/
theorem Watching.faithful_iff (h : Watching v)
    : ((Open (v.entry b :: v.past) → (v.watch b).2.holding = true) ∧
        (v.watch b).2.restarts = total (v.entry b :: v.past)) ↔
      (Event b v.past ∨ Open v.past → b.progress.isSome = true → (¬ ∃ i, Unready b i) →
        ∀ i, b.samples i ≠ none) ∧
      ((∃ i, Restarted b v.past i) → Together v b) := by
  have hspec := watch_spec b h.based
  rw [restarts_eq_total_iff v b h.based h.seen]
  constructor
  . rintro ⟨hholds, htogether⟩
    refine ⟨?_, htogether⟩
    intro hopen hanswered hready i hnone
    have hclosing : ¬ Closing b := by
      intro hclosing
      rcases hclosing.2 i with ⟨x, hx, _⟩
      rw [hnone] at hx
      cases hx
    have hholding := hholds ⟨hopen, hclosing⟩
    rw [hspec.holding, hspec.holds, hanswered] at hholding
    rcases hholding.2 with hunready | hsilent
    . exact hready hunready
    . cases hsilent
  . rintro ⟨hreadable, htogether⟩
    exact ⟨(h.holds_iff hreadable htogether).mpr, htogether⟩

theorem faithful_of_clear (hwatching : Watching v) (hclocked : Clocked w v) (h : Clear w v b) : Faithful w v b := by
  rcases hwatching.faithful_iff.mpr ⟨h.readable, h.together⟩ with ⟨hholds, hrestarts⟩
  exact ⟨hholds, hclocked.stalls h hholds, hrestarts⟩

theorem windows_faithful_of_clear (n : Nat) (name : String) (severity : Severity) (w : Nat)
    (after : Option String) (startedAt : Nat) (beats : List (Beat n))
    (h : Run.Along State.step (Clear w) (State.start n (.windowed name severity w after) startedAt) beats)
    : Run.Along State.step (Faithful w) (State.start n (.windowed name severity w after) startedAt) beats := by
  apply Run.along_of_get
  intro pre b post v heq hexec
  subst heq
  have hinv := Run.exec_invariant_along (I := fun v => Watching v ∧ Clocked w v) ?_
    ⟨watching_start n _ startedAt, clocked_start n name severity w after startedAt⟩ h.left hexec
  . exact faithful_of_clear hinv.1 hinv.2 (h.get hexec)
  . rintro v b v' _ ⟨hwatching, hclocked⟩ hclear hstep
    have hfaithful := faithful_of_clear hwatching hclocked hclear
    have hholds := hwatching.holds_iff hclear.readable hclear.together
    exact ⟨hwatching.step hholds hfaithful.restarts hstep, hclocked.step hclear hholds.mpr hstep⟩

/--
For the window and the figure alone the condition on the samples is exact, over every run.
-/
theorem watch_faithful_iff (n : Nat) (b : ProbeBuilder) (startedAt : Nat) (beats : List (Beat n))
    : Run.Along State.step (fun v b => (Open (v.entry b :: v.past) → (v.watch b).2.holding = true) ∧
        (v.watch b).2.restarts = total (v.entry b :: v.past)) (State.start n b startedAt) beats ↔
      Run.Along State.step (fun v b =>
        (Event b v.past ∨ Open v.past → b.progress.isSome = true → (¬ ∃ i, Unready b i) →
          ∀ i, b.samples i ≠ none) ∧
        ((∃ i, Restarted b v.past i) → Together v b)) (State.start n b startedAt) beats := by
  apply Run.along_iff_along (I := Watching)
  . intro v b hwatching
    exact hwatching.faithful_iff
  . intro v b v' _ hwatching hfaithful hstep
    rcases hwatching.faithful_iff.mp hfaithful with ⟨hreadable, htogether⟩
    exact hwatching.step (hwatching.holds_iff hreadable htogether) hfaithful.2 hstep
  . exact watching_start n b startedAt

section Samples

def up (restarts : Nat) : Option ContainerSample := some ⟨restarts, true⟩

def quiet (now : Nat) (samples : Fin n → Option ContainerSample) (reading : Option ProgressView) : Beat n where
  now := now
  faulted := false
  chaos := .new [] 0
  samples := samples
  progress := reading
  verdict := .pending

theorem windows_faithful_through_kill
    : Run.Along State.step (Faithful 10) (State.start 1 (.windowed "live" .recorded 10 none) 0)
        [quiet 0 (fun _ => up 0) (some ⟨0, none⟩),
          { quiet 20 (fun _ => some ⟨0, false⟩) none with faulted := true },
          quiet 40 (fun _ => up 1) (some ⟨0, none⟩)] := by
  apply windows_faithful_of_clear
  refine ⟨⟨?_, ?_, ?_⟩, ?_⟩
  . intro _ _ _ _ hnone
    cases hnone
  . rintro ⟨i, x, _, hnil, _⟩
    exact absurd rfl hnil
  . intro hreading
    cases hreading
  intro v _ h
  cases h
  refine ⟨⟨?_, ?_, ?_⟩, ?_⟩
  . intro _ hanswered
    cases hanswered
  . intro _ i
    exact .inl rfl
  . intro _
    refine .inl ⟨.inl (.inl rfl), ?_⟩
    intro hclosing
    cases hclosing.1
  intro v _ h
  cases h
  refine ⟨⟨?_, ?_, ?_⟩, ?_⟩
  . intro _ _ _ _ hnone
    cases hnone
  . intro _ i
    exact .inr ⟨_, rfl, rfl⟩
  . intro hreading
    cases hreading
  intro _ _ _
  trivial

/--
Three timelines that the code reads wrong. A killed container that cannot be read counts as Ready;
two restarts that no tick reads together count once; and a tick without a reading does not move the
clock of a probe whose fault has yet to fire.
-/
theorem windows_not_faithful
    : ¬ Run.Along State.step (Faithful 10) (State.start 1 (.windowed "live" .recorded 10 none) 0)
        [{ quiet 0 (fun _ => none) (some ⟨0, none⟩) with faulted := true }] ∧
      ¬ Run.Along State.step (Faithful 10) (State.start 2 (.windowed "live" .recorded 10 none) 0)
        [quiet 0 (fun _ => up 0) (some ⟨0, none⟩),
          quiet 1 (fun i => if i = 0 then up 1 else none) (some ⟨0, none⟩),
          quiet 2 (fun i => if i = 0 then none else up 1) (some ⟨0, none⟩)] ∧
      ¬ Run.Along State.step (Faithful 10) (State.start 0 (.windowed "live" .recorded 10 (some "cut")) 0)
        [quiet 0 (fun _ => none) (some ⟨0, none⟩), quiet 100 (fun _ => none) none,
          { quiet 101 (fun _ => none) (some ⟨0, none⟩) with
            faulted := true, chaos := (Chaos.new [] 0).record ⟨some "cut", 101, .kill "node"⟩ 101 }] := by
  refine ⟨?_, ?_, ?_⟩
  . intro h
    have hopen : Open [State.entry (State.start 1 (.windowed "live" .recorded 10 none) 0)
        ({ quiet 0 (fun _ => none) (some ⟨0, none⟩) with faulted := true } : Beat 1)] := by
      refine ⟨.inl (.inl rfl), ?_⟩
      intro hclosing
      rcases hclosing.2 0 with ⟨x, hx, _⟩
      cases hx
    have hholding := h.1.holds hopen
    revert hholding
    decide
  . intro h
    have h : Run.Along _ _ _ ([_, _] ++ [_]) := h
    have hrestarts := (h.get rfl).restarts
    revert hrestarts
    decide
  . intro h
    have h : Run.Along _ _ _ ([_, _] ++ [_]) := h
    have hstalls := (h.get rfl).stalls
    have hover := (hstalls (by rintro ⟨msg, hmsg⟩; cases hmsg)).mp rfl
    revert hover
    decide

end Samples

end Vigil
end Sync
