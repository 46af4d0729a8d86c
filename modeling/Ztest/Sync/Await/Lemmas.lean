import Mathlib.Tactic.Tauto
import Ztest.Lib.Run
import Ztest.Lib.Trace
import Ztest.Sync.Await.Impl

namespace Sync
namespace Await

open Materialize.Watch (Nanos)

/--
Readings in the order they were taken, after the start of the wait.
-/
structure Timeline where
  started : Nanos
  readings : List Reading
  ordered : (started :: readings.map Reading.now).Pairwise (· ≤ ·)

-- `Q` holds at every reading of the wait, of those before it, the state there and the reading.
def Timeline.Along (t : Timeline) (Q : List Reading → Option Nanos → Reading → Prop) : Prop :=
  ∀ pre r post since, t.readings = pre ++ r :: post → Run.exec (await t.started) none pre = .ok since →
    Q pre since r

-- `ReadyWatch` has no say where there is no pod.
def fold (readyTimeout : Nanos) (pre : List Reading) : ReadyWatch :=
  pre.foldl (fun w r => (r.status.map fun status => (w.observe status r.now).1).getD w) (.new readyTimeout)

def verdictAt (readyTimeout : Nanos) (pre : List Reading) (r : Reading) : Option Verdict :=
  r.status.map fun status => ((fold readyTimeout pre).observe status r.now).2

namespace Reading

def running (r : Reading) : Bool := r.status.any PodStatus.isRunning

def unplaced (r : Reading) : Bool := r.status.any fun s => !s.isScheduled

def unready (r : Reading) : Bool := r.status.any fun s => !s.isReady && !s.isScheduled

def erring (r : Reading) : Bool := r.status.any fun s => s.imageError.isSome

-- What sets the grace of an image error, and what clears it.
def graced (r : Reading) : Bool := r.status.any fun s => !s.isReady && s.imageError.isSome

def cleared (r : Reading) : Bool := r.status.any fun s => !s.isReady && s.imageError.isNone

-- The pod is gone, or will not run any more.
def settled (r : Reading) : Prop :=
  ∀ s ∈ r.status, s.phase = some "Succeeded" ∨ s.phase = some "Failed"

end Reading

-- An image error at every reading for as long as the grace.
def Persisted (pre : List Reading) (r : Reading) : Prop :=
  ∃ stretch, stretch <:+ pre ++ [r] ∧ (∀ q ∈ stretch, q.erring = true) ∧
    ∃ first ∈ stretch.head?, imagePullGrace ≤ r.now - first.now

structure Follows (readyTimeout started : Nanos) (pre : List Reading) (since : Option Nanos) (r : Reading)
    : Prop where
  ends : r.settled → ∃ e, await started since r = .error e
  pull : ∀ reason, await started since r = .error (.imageError reason) →
    verdictAt readyTimeout pre r = some (.pullFailed reason) ∧ (reason = "InvalidImageName" ∨ Persisted pre r)
  place : (∃ reason elapsed, await started since r = .error (.unschedulable reason elapsed)) ↔
    ∃ reason elapsed, verdictAt readyTimeout pre r = some (.unschedulable reason elapsed)
  runs : await started since r = .error .running ↔ r.running = true ∧ ∀ q ∈ pre, q.running = false

-- A reading of a kind is as old as the deadline for a pod without a node.
def Overdue (p : Reading → Bool) (pre : List Reading) (r : Reading) : Prop :=
  ∃ q ∈ pre, p q = true ∧ pendingTimeout ≤ r.now - q.now

-- An image error that has not cleared for as long as the grace.
def Uncleared (pre : List Reading) (r : Reading) : Prop :=
  ∃ first ∈ (Stopwatch.since Reading.graced Reading.cleared (pre ++ [r])).head?, imagePullGrace ≤ r.now - first.now

structure Heeds (started : Nanos) (pre : List Reading) (r : Reading) : Prop where
  found : r.status.isSome
  succeeded : ∀ s ∈ r.status, s.phase = some "Succeeded" →
    (s.isScheduled = false ∧ Overdue Reading.unplaced pre r) ∨ s.fault.isSome ∨
      ∃ reason ∈ s.imageError, pullErrorIsTerminal reason started r.now = true
  pull : ∀ s ∈ r.status, ∀ reason ∈ s.imageError, s.isRunning = false → s.fault = none →
    (s.isScheduled = false → ¬Overdue Reading.unplaced pre r) → pullErrorIsTerminal reason started r.now = true →
      s.isReady = false ∧ (reason = "InvalidImageName" ∨ Uncleared pre r ∧ Persisted pre r)
  place : ∀ s ∈ r.status, s.isScheduled = false →
    (s.isRunning = false ∧ Overdue Reading.unplaced pre r ↔ s.isReady = false ∧ Overdue Reading.unready pre r)

-- The deadline of a pod without a node has passed.
def Due (since : Option Nanos) (now : Nanos) : Prop := pendingTimeout ≤ now - since.getD now

-- A pod has a node, or has waited for less than its deadline.
def Placed (s : PodStatus) (since : Option Nanos) (now : Nanos) : Prop := s.isScheduled = false → ¬Due since now

section Turn

variable {started now : Nanos} {since : Option Nanos} {r : Reading} {s : PodStatus} {w : ReadyWatch}

-- What a turn does with a status.
inductive Turned (started : Nanos) (since : Option Nanos) (now : Nanos) (s : PodStatus)
    : Except Outcome (Option Nanos × Unit) → Prop where
  | running (hrun : s.isRunning = true) : Turned started since now s (.error .running)
  | unschedulable (hrun : s.isRunning = false) (hsched : s.isScheduled = false) (hdue : Due since now)
    : Turned started since now s (.error (.unschedulable (s.scheduleBlocker.getD "no PodScheduled condition")
      (now - since.getD now)))
  | faulted {reason : String} (hrun : s.isRunning = false) (hplaced : Placed s since now)
    (hfault : s.fault = some reason) : Turned started since now s (.error (.faulted reason))
  | image {reason : String} (hrun : s.isRunning = false) (hplaced : Placed s since now) (hfault : s.fault = none)
    (himage : s.imageError = some reason) (hterminal : pullErrorIsTerminal reason started now = true)
    : Turned started since now s (.error (.imageError reason))
  | waiting (hrun : s.isRunning = false) (hplaced : Placed s since now) (hfault : s.fault = none)
    (himage : ∀ reason ∈ s.imageError, pullErrorIsTerminal reason started now = false)
    : Turned started since now s (.ok (if s.isScheduled then since else some (since.getD now), ()))

theorem turned_checkStarted (hrun : s.isRunning = false) (hplaced : Placed s since now)
    : Turned started since now s
      (checkStarted started now (if s.isScheduled then since else some (since.getD now)) s) := by
  unfold checkStarted
  cases hfault : s.fault with
  | some reason => exact .faulted hrun hplaced hfault
  | none =>
    cases himage : s.imageError with
    | none => exact .waiting hrun hplaced hfault (by simp [himage])
    | some reason =>
      dsimp only
      cases hterminal : pullErrorIsTerminal reason started now with
      | true => exact .image hrun hplaced hfault himage hterminal
      | false => exact .waiting hrun hplaced hfault (by simp [himage, hterminal])

theorem await_turned (h : r.status = some s) : Turned started since r.now s (await started since r) := by
  unfold await
  rw [h]
  dsimp only
  cases hrun : s.isRunning with
  | true => exact .running hrun
  | false =>
    cases hsched : s.isScheduled with
    | true =>
      have hturned := @turned_checkStarted started r.now since s hrun (by simp [Placed, hsched])
      rwa [hsched] at hturned
    | false =>
      by_cases hdue : pendingTimeout ≤ r.now - since.getD r.now
      . simp only [Bool.false_eq_true, if_false]
        rw [if_pos hdue]
        exact .unschedulable hrun hsched hdue
      . have hturned := @turned_checkStarted started r.now since s hrun (fun _ => hdue)
        simp only [Bool.false_eq_true, if_false]
        rw [if_neg hdue]
        rwa [hsched] at hturned

theorem await_none (h : r.status = none) : await started since r = .ok (since, ()) := by
  rw [await, h]

theorem await_running_iff : await started since r = .error .running ↔ r.running = true := by
  cases h : r.status with
  | none => simp [await_none h, Reading.running, h]
  | some s =>
    have hturned := @await_turned started since r s h
    simp only [Reading.running, h, Option.any_some]
    generalize await started since r = result at hturned
    cases hturned with
    | running hrun => simp [hrun]
    | unschedulable hrun _ _ | faulted hrun _ _ | image hrun _ _ _ _ | waiting hrun _ _ _ => simp [hrun]

theorem await_unschedulable_iff {reason : String} {elapsed : Nanos} (h : r.status = some s)
    : await started since r = .error (.unschedulable reason elapsed) ↔
      (s.isRunning = false ∧ s.isScheduled = false ∧ Due since r.now) ∧
        s.scheduleBlocker.getD "no PodScheduled condition" = reason ∧ r.now - since.getD r.now = elapsed := by
  have hturned := @await_turned started since r s h
  generalize await started since r = result at hturned
  cases hturned with
  | unschedulable hrun hsched hdue => simp [hrun, hsched, hdue]
  | running hrun => simp [hrun]
  | faulted _ hplaced _ | image _ hplaced _ _ _ | waiting _ hplaced _ _ =>
    constructor
    . intro h
      cases h
    . intro hdue
      exact absurd hdue.1.2.2 (hplaced hdue.1.2.1)

theorem await_imageError_iff {reason : String} (h : r.status = some s)
    : await started since r = .error (.imageError reason) ↔
      s.isRunning = false ∧ Placed s since r.now ∧ s.fault = none ∧ s.imageError = some reason ∧
        pullErrorIsTerminal reason started r.now = true := by
  have hturned := @await_turned started since r s h
  generalize await started since r = result at hturned
  cases hturned with
  | image hrun hplaced hfault himage hterminal =>
    simp only [Except.error.injEq, Outcome.imageError.injEq]
    constructor
    . rintro rfl
      exact ⟨hrun, hplaced, hfault, himage, hterminal⟩
    . intro hall
      exact Option.some.inj (himage.symm.trans hall.2.2.2.1)
  | running hrun => simp [hrun]
  | unschedulable _ hsched hdue =>
    simp only [Except.error.injEq, reduceCtorEq, false_iff, not_and]
    intro _ hplaced
    exact absurd hdue (hplaced hsched)
  | faulted _ _ hfault => simp [hfault]
  | waiting _ _ _ himage =>
    simp only [reduceCtorEq, false_iff, not_and]
    intro _ _ _ hsome
    simp [himage reason hsome]

theorem await_error_iff (h : r.status = some s)
    : (∃ e, await started since r = .error e) ↔
      s.isRunning = true ∨ (s.isScheduled = false ∧ Due since r.now) ∨ s.fault.isSome ∨
        ∃ reason ∈ s.imageError, pullErrorIsTerminal reason started r.now = true := by
  have hturned := @await_turned started since r s h
  generalize await started since r = result at hturned
  cases hturned with
  | running hrun => simp [hrun]
  | unschedulable _ hsched hdue => simp [hsched, hdue]
  | faulted _ _ hfault => simp [hfault]
  | image _ _ _ himage hterminal => simp [himage, hterminal]
  | waiting hrun hplaced hfault himage =>
    constructor
    . rintro ⟨_, h⟩
      cases h
    . rintro (h | h | h | ⟨reason, hreason, hterminal⟩)
      . simp [hrun] at h
      . exact absurd h.2 (hplaced h.1)
      . simp [hfault] at h
      . simp [himage reason hreason] at hterminal

theorem observe_due (hready : s.isReady = false) (hsched : s.isScheduled = false) (hdue : Due w.unscheduledSince now)
    : (w.observe s now).2 = .unschedulable (s.scheduleBlocker.getD "no PodScheduled condition")
      (now - w.unscheduledSince.getD now) := by
  unfold ReadyWatch.observe
  simp only [hready, hsched, Bool.false_eq_true, if_false]
  exact congrArg Prod.snd (if_pos hdue)

theorem observe_placed (hready : s.isReady = false) (hplaced : Placed s w.unscheduledSince now)
    : w.observe s now = ReadyWatch.observePlaced
      { w with unscheduledSince := if s.isScheduled then w.unscheduledSince else some (w.unscheduledSince.getD now) }
      s now := by
  unfold ReadyWatch.observe
  simp only [hready, Bool.false_eq_true, if_false]
  cases hsched : s.isScheduled with
  | true => rfl
  | false =>
    simp only [Bool.false_eq_true, if_false]
    exact if_neg (hplaced hsched)

end Turn

section Placed

variable {started now : Nanos} {s : PodStatus} {w : ReadyWatch}

theorem observePlaced_clocks (hfault : s.fault = none)
    : (w.observePlaced s now).1.unscheduledSince = w.unscheduledSince ∧
      (w.observePlaced s now).1.pullErrorSince =
        if s.imageError.isSome then some (w.pullErrorSince.getD now) else none := by
  have hrunning : ∀ w : ReadyWatch, (w.observeRunning s now).1.unscheduledSince = w.unscheduledSince ∧
      (w.observeRunning s now).1.pullErrorSince = w.pullErrorSince := by
    intro w
    unfold ReadyWatch.observeRunning
    split
    . dsimp only
      split <;> exact ⟨rfl, rfl⟩
    . exact ⟨rfl, rfl⟩
  unfold ReadyWatch.observePlaced
  rw [hfault]
  cases himage : s.imageError with
  | none => exact hrunning _
  | some reason =>
    dsimp only
    split
    . exact ⟨rfl, rfl⟩
    . exact hrunning _

theorem observePlaced_ne_unschedulable {reason : String} {elapsed : Nanos}
    : (w.observePlaced s now).2 ≠ .unschedulable reason elapsed := by
  have hrunning : ∀ w : ReadyWatch, (w.observeRunning s now).2 ≠ .unschedulable reason elapsed := by
    intro w
    unfold ReadyWatch.observeRunning
    split
    . dsimp only
      split <;> nofun
    . nofun
  unfold ReadyWatch.observePlaced
  split
  . nofun
  . split
    . dsimp only
      split
      . nofun
      . exact hrunning _
    . exact hrunning _

theorem observePlaced_pullFailed_iff {reason : String} (hfault : s.fault = none) (hrun : s.isRunning = false)
    (himage : s.imageError = some reason)
    : (w.observePlaced s now).2 = .pullFailed reason ↔
      pullErrorIsTerminal reason (w.pullErrorSince.getD now) now = true := by
  unfold ReadyWatch.observePlaced
  rw [hfault, himage]
  dsimp only
  cases hterminal : pullErrorIsTerminal reason (w.pullErrorSince.getD now) now with
  | true => simp
  | false => simp [ReadyWatch.observeRunning, hrun]

theorem observe_unschedulable_iff {reason : String} {elapsed : Nanos}
    : (w.observe s now).2 = .unschedulable reason elapsed ↔
      (s.isReady = false ∧ s.isScheduled = false ∧ Due w.unscheduledSince now) ∧
        s.scheduleBlocker.getD "no PodScheduled condition" = reason ∧
          now - w.unscheduledSince.getD now = elapsed := by
  cases hready : s.isReady with
  | true => simp [ReadyWatch.observe, hready]
  | false =>
    by_cases hdue : s.isScheduled = false ∧ Due w.unscheduledSince now
    . rw [observe_due hready hdue.1 hdue.2]
      simp [hdue]
    . rw [observe_placed hready fun hsched hd => hdue ⟨hsched, hd⟩]
      simp only [true_and, hdue, false_and, iff_false]
      exact observePlaced_ne_unschedulable

end Placed

section History

variable {started readyTimeout : Nanos} {pre : List Reading} {since : Option Nanos} {r : Reading} {s : PodStatus}

theorem fold_concat (readyTimeout : Nanos) (pre : List Reading) (r : Reading)
    : fold readyTimeout (pre ++ [r]) =
      (r.status.map fun status => ((fold readyTimeout pre).observe status r.now).1).getD (fold readyTimeout pre) := by
  rw [fold, List.foldl_append]
  rfl

/--
What the clocks say of the readings, while the wait goes on.
-/
structure Clocks (readyTimeout : Nanos) (pre : List Reading) (since : Option Nanos) : Prop where
  since : since = (pre.find? Reading.unplaced).map Reading.now
  unscheduled : (fold readyTimeout pre).unscheduledSince = (pre.find? Reading.unready).map Reading.now
  pulling : (fold readyTimeout pre).pullErrorSince =
    (Stopwatch.since Reading.graced Reading.cleared pre).head?.map Reading.now
  idle : ∀ q ∈ pre, q.running = false

theorem clocks_nil : Clocks readyTimeout [] none where
  since := rfl
  unscheduled := rfl
  pulling := rfl
  idle := by simp

theorem unplaced_of_unready {q : Reading} (h : q.unready = true) : q.unplaced = true := by
  unfold Reading.unready at h
  unfold Reading.unplaced
  cases hstatus : q.status with
  | none => simp [hstatus] at h
  | some s =>
    simp only [hstatus, Option.any_some, Bool.and_eq_true] at h ⊢
    exact h.2

theorem due_iff_overdue {p : Reading → Bool} (hsorted : (pre.map Reading.now).Pairwise (· ≤ ·))
    : Due ((pre.find? p).map Reading.now) r.now ↔ Overdue p pre r := by
  unfold Due Overdue
  cases hfind : pre.find? p with
  | none =>
    have hnone := List.find?_eq_none.mp hfind
    constructor
    . intro h
      rw [Option.map_none, Option.getD_none, Nat.sub_self] at h
      exact absurd h (by decide)
    . rintro ⟨q, hq, hp, _⟩
      exact absurd hp (hnone q hq)
  | some first =>
    rcases List.find?_eq_some_iff_append.mp hfind with ⟨hp, before, after, rfl, hbefore⟩
    rw [Option.map_some, Option.getD_some]
    constructor
    . intro h
      exact ⟨first, by simp, hp, h⟩
    . rintro ⟨q, hq, hpq, h⟩
      have hle : first.now ≤ q.now := by
        rcases List.mem_append.mp hq with hq | hq
        . have hnot := hbefore q hq
          simp [hpq] at hnot
        . rw [List.map_append, List.map_cons] at hsorted
          have hlater := (List.pairwise_cons.mp (List.pairwise_append.mp hsorted).2.1).1
          rcases List.mem_cons.mp hq with rfl | hq
          . exact le_refl _
          . exact hlater q.now (List.mem_map_of_mem hq)
      exact Nat.le_trans h (Nat.sub_le_sub_left hle r.now)

theorem placed_fold (hsorted : (pre.map Reading.now).Pairwise (· ≤ ·)) (h : Clocks readyTimeout pre since)
    (hplaced : Placed s since r.now) : Placed s (fold readyTimeout pre).unscheduledSince r.now := by
  intro hsched hdue
  rw [h.unscheduled, due_iff_overdue hsorted] at hdue
  rcases hdue with ⟨q, hq, hunready, hle⟩
  apply hplaced hsched
  rw [h.since, due_iff_overdue hsorted]
  exact ⟨q, hq, unplaced_of_unready hunready, hle⟩

theorem find?_concat {p : Reading → Bool}
    : ((pre ++ [r]).find? p).map Reading.now =
      if p r then some (((pre.find? p).map Reading.now).getD r.now) else (pre.find? p).map Reading.now := by
  rw [List.find?_append, List.find?_cons]
  cases p r <;> cases pre.find? p <;> rfl

theorem clocks_gone (h : Clocks readyTimeout pre since) (hgone : r.status = none)
    : Clocks readyTimeout (pre ++ [r]) since where
  since := by
    have hunplaced : r.unplaced = false := by simp [Reading.unplaced, hgone]
    rw [find?_concat, hunplaced, if_neg (by simp), h.since]
  unscheduled := by
    have hunready : r.unready = false := by simp [Reading.unready, hgone]
    rw [fold_concat, hgone, find?_concat, hunready, if_neg (by simp)]
    exact h.unscheduled
  pulling := by
    have hcleared : r.cleared = false := by simp [Reading.cleared, hgone]
    have hgraced : r.graced = false := by simp [Reading.graced, hgone]
    rw [fold_concat, hgone, Stopwatch.head?_since hcleared, hgraced, if_neg (by simp), Option.or_none]
    exact h.pulling
  idle := by
    intro q hq
    rcases List.mem_append.mp hq with hq | hq
    . exact h.idle q hq
    . rw [List.mem_singleton.mp hq]
      simp [Reading.running, hgone]

theorem clocks_waiting (hsorted : (pre.map Reading.now).Pairwise (· ≤ ·)) (h : Clocks readyTimeout pre since)
    (hstatus : r.status = some s) (hrun : s.isRunning = false) (hplaced : Placed s since r.now)
    (hfault : s.fault = none)
    : Clocks readyTimeout (pre ++ [r]) (if s.isScheduled then since else some (since.getD r.now)) where
  since := by
    have hunplaced : r.unplaced = !s.isScheduled := by simp [Reading.unplaced, hstatus]
    rw [find?_concat, hunplaced, ← h.since]
    cases s.isScheduled <;> rfl
  unscheduled := by
    have hunready : r.unready = (!s.isReady && !s.isScheduled) := by simp [Reading.unready, hstatus]
    rw [fold_concat, hstatus, find?_concat, hunready, Option.map_some, Option.getD_some, ← h.unscheduled]
    cases hready : s.isReady with
    | true => simp [ReadyWatch.observe, hready]
    | false =>
      rw [observe_placed hready (placed_fold hsorted h hplaced), (observePlaced_clocks hfault).1]
      cases s.isScheduled <;> rfl
  pulling := by
    have hcleared : r.cleared = (!s.isReady && s.imageError.isNone) := by simp [Reading.cleared, hstatus]
    have hgraced : r.graced = (!s.isReady && s.imageError.isSome) := by simp [Reading.graced, hstatus]
    rw [fold_concat, hstatus, Option.map_some, Option.getD_some]
    cases hready : s.isReady with
    | true =>
      have hsame : ((fold readyTimeout pre).observe s r.now).1 = fold readyTimeout pre := by
        simp [ReadyWatch.observe, hready]
      rw [Stopwatch.head?_since (by simp [hcleared, hready]), hgraced, hready, hsame, h.pulling]
      simp
    | false =>
      rw [observe_placed hready (placed_fold hsorted h hplaced), (observePlaced_clocks hfault).2]
      cases himage : s.imageError with
      | none =>
        rw [Stopwatch.since_clear (by simp [hcleared, hready, himage])]
        rfl
      | some reason =>
        rw [Stopwatch.head?_since (by simp [hcleared, himage]), hgraced, hready, himage, h.pulling]
        cases (Stopwatch.since Reading.graced Reading.cleared pre).head? <;> rfl
  idle := by
    intro q hq
    rcases List.mem_append.mp hq with hq | hq
    . exact h.idle q hq
    . rw [List.mem_singleton.mp hq]
      simp [Reading.running, hstatus, hrun]

theorem clocks_step {since' : Option Nanos} (hsorted : (pre.map Reading.now).Pairwise (· ≤ ·))
    (h : Clocks readyTimeout pre since) (hstep : await started since r = .ok (since', ()))
    : Clocks readyTimeout (pre ++ [r]) since' := by
  cases hstatus : r.status with
  | none =>
    rw [await_none hstatus] at hstep
    cases hstep
    exact clocks_gone h hstatus
  | some s =>
    have hturned := @await_turned started since r s hstatus
    rw [hstep] at hturned
    generalize hresult : Except.ok (ε := Outcome) (since', ()) = result at hturned
    cases hturned with
    | waiting hrun hplaced hfault _ =>
      cases hresult
      exact clocks_waiting hsorted h hstatus hrun hplaced hfault
    | running | unschedulable | faulted | image => cases hresult

theorem clocks_exec (hsorted : (pre.map Reading.now).Pairwise (· ≤ ·))
    (hexec : Run.exec (await started) none pre = .ok since) : Clocks readyTimeout pre since := by
  have hhistory := @Run.exec_history _ _ _ _ (await started)
    (fun past since => (past.map Reading.now).Pairwise (· ≤ ·) → Clocks readyTimeout past since)
    (by
      intro past since r since' u h hstep hsorted
      rw [List.map_append] at hsorted
      have hpast := (List.pairwise_append.mp hsorted).1
      exact clocks_step hpast (h hpast) hstep)
    none since [] pre (fun _ => clocks_nil) hexec
  exact hhistory hsorted

end History

section Step

variable {started readyTimeout : Nanos} {pre : List Reading} {since : Option Nanos} {r : Reading} {s : PodStatus}

theorem ends_iff (hsorted : (pre.map Reading.now).Pairwise (· ≤ ·)) (h : Clocks readyTimeout pre since)
    : (r.settled → ∃ e, await started since r = .error e) ↔
      r.status.isSome ∧ ∀ s ∈ r.status, s.phase = some "Succeeded" →
        (s.isScheduled = false ∧ Overdue Reading.unplaced pre r) ∨ s.fault.isSome ∨
          ∃ reason ∈ s.imageError, pullErrorIsTerminal reason started r.now = true := by
  cases hstatus : r.status with
  | none => simp [Reading.settled, hstatus, await_none hstatus]
  | some s =>
    have hdue : Due since r.now ↔ Overdue Reading.unplaced pre r := by
      rw [h.since, due_iff_overdue hsorted]
    rw [await_error_iff hstatus, hdue]
    simp only [Reading.settled, hstatus, Option.mem_some_iff, forall_eq', Option.isSome_some, true_and]
    constructor
    . intro hends hphase
      have hrun : s.isRunning = false := by simp [PodStatus.isRunning, hphase]
      rcases hends (.inl hphase) with hrunning | hrest
      . simp [hrun] at hrunning
      . exact hrest
    . intro hends hphase
      rcases hphase with hphase | hphase
      . exact .inr (hends hphase)
      . exact .inr (.inr (.inl (by simp [PodStatus.fault, hphase])))

theorem place_iff (hsorted : (pre.map Reading.now).Pairwise (· ≤ ·)) (h : Clocks readyTimeout pre since)
    : ((∃ reason elapsed, await started since r = .error (.unschedulable reason elapsed)) ↔
        ∃ reason elapsed, verdictAt readyTimeout pre r = some (.unschedulable reason elapsed)) ↔
      ∀ s ∈ r.status, s.isScheduled = false →
        (s.isRunning = false ∧ Overdue Reading.unplaced pre r ↔
          s.isReady = false ∧ Overdue Reading.unready pre r) := by
  cases hstatus : r.status with
  | none => simp [await_none hstatus, verdictAt, hstatus]
  | some s =>
    have hdue : Due since r.now ↔ Overdue Reading.unplaced pre r := by
      rw [h.since, due_iff_overdue hsorted]
    have hdueWatch : Due (fold readyTimeout pre).unscheduledSince r.now ↔ Overdue Reading.unready pre r := by
      rw [h.unscheduled, due_iff_overdue hsorted]
    have hawait : (∃ reason elapsed, await started since r = .error (.unschedulable reason elapsed)) ↔
        s.isRunning = false ∧ s.isScheduled = false ∧ Overdue Reading.unplaced pre r := by
      simp only [await_unschedulable_iff hstatus, hdue]
      constructor
      . rintro ⟨_, _, hall, _⟩
        exact hall
      . intro hall
        exact ⟨_, _, hall, rfl, rfl⟩
    have hverdict : (∃ reason elapsed, verdictAt readyTimeout pre r = some (.unschedulable reason elapsed)) ↔
        s.isReady = false ∧ s.isScheduled = false ∧ Overdue Reading.unready pre r := by
      simp only [verdictAt, hstatus, Option.map_some, Option.some.injEq, observe_unschedulable_iff, hdueWatch]
      constructor
      . rintro ⟨_, _, hall, _⟩
        exact hall
      . intro hall
        exact ⟨_, _, hall, rfl, rfl⟩
    rw [hawait, hverdict]
    cases hsched : s.isScheduled with
    | true => simp [hsched]
    | false => simp [hsched]

theorem terminal_iff {reason : String} (h : Clocks readyTimeout pre since) (hstatus : r.status = some s)
    (hready : s.isReady = false) (himage : s.imageError = some reason)
    : pullErrorIsTerminal reason ((fold readyTimeout pre).pullErrorSince.getD r.now) r.now = true ↔
      reason = "InvalidImageName" ∨ Uncleared pre r := by
  have hcleared : r.cleared = false := by simp [Reading.cleared, hstatus, himage]
  have hgraced : r.graced = true := by simp [Reading.graced, hstatus, hready, himage]
  have hfirst : ∀ first, first ∈ (Stopwatch.since Reading.graced Reading.cleared (pre ++ [r])).head? →
      first.now = (fold readyTimeout pre).pullErrorSince.getD r.now := by
    intro first hfirst
    rw [Stopwatch.head?_since hcleared, hgraced, if_pos rfl] at hfirst
    rw [h.pulling]
    cases hhead : (Stopwatch.since Reading.graced Reading.cleared pre).head? with
    | none =>
      rw [hhead] at hfirst
      cases hfirst
      rfl
    | some q =>
      rw [hhead] at hfirst
      cases hfirst
      rfl
  have hsome : ∃ first, first ∈ (Stopwatch.since Reading.graced Reading.cleared (pre ++ [r])).head? := by
    rw [Stopwatch.head?_since hcleared, hgraced, if_pos rfl]
    cases (Stopwatch.since Reading.graced Reading.cleared pre).head? with
    | none => exact ⟨r, rfl⟩
    | some q => exact ⟨q, rfl⟩
  unfold pullErrorIsTerminal Materialize.Watch.PodStatus.pullErrorIsTerminal Uncleared
  rw [decide_eq_true_eq]
  apply or_congr Iff.rfl
  constructor
  . intro hle
    rcases hsome with ⟨first, hmem⟩
    exact ⟨first, hmem, by rwa [hfirst first hmem]⟩
  . rintro ⟨first, hmem, hle⟩
    rwa [hfirst first hmem] at hle

theorem pull_iff (hsorted : (pre.map Reading.now).Pairwise (· ≤ ·)) (h : Clocks readyTimeout pre since)
    : (∀ reason, await started since r = .error (.imageError reason) →
        verdictAt readyTimeout pre r = some (.pullFailed reason) ∧
          (reason = "InvalidImageName" ∨ Persisted pre r)) ↔
      ∀ s ∈ r.status, ∀ reason ∈ s.imageError, s.isRunning = false → s.fault = none →
        (s.isScheduled = false → ¬Overdue Reading.unplaced pre r) → pullErrorIsTerminal reason started r.now = true →
          s.isReady = false ∧ (reason = "InvalidImageName" ∨ Uncleared pre r ∧ Persisted pre r) := by
  cases hstatus : r.status with
  | none => simp [await_none hstatus]
  | some s =>
    have hdue : Placed s since r.now ↔ (s.isScheduled = false → ¬Overdue Reading.unplaced pre r) := by
      unfold Placed
      rw [h.since, due_iff_overdue hsorted]
    have hverdict : ∀ reason, s.isRunning = false → Placed s since r.now → s.fault = none →
        s.imageError = some reason → (verdictAt readyTimeout pre r = some (.pullFailed reason) ↔
          s.isReady = false ∧ (reason = "InvalidImageName" ∨ Uncleared pre r)) := by
      intro reason hrun hplaced hfault himage
      simp only [verdictAt, hstatus, Option.map_some, Option.some.injEq]
      cases hready : s.isReady with
      | true => simp [ReadyWatch.observe, hready]
      | false =>
        rw [observe_placed hready (placed_fold hsorted h hplaced), observePlaced_pullFailed_iff hfault hrun himage]
        simp only [true_and]
        exact terminal_iff h hstatus hready himage
    simp only [await_imageError_iff hstatus, Option.mem_def, Option.some.injEq, forall_eq', ← hdue]
    constructor
    . intro hall reason himage hrun hfault hplaced hterminal
      rcases hall reason ⟨hrun, hplaced, hfault, himage, hterminal⟩ with ⟨hpull, hpersist⟩
      rw [hverdict reason hrun hplaced hfault himage] at hpull
      refine ⟨hpull.1, ?_⟩
      tauto
    . rintro hall reason ⟨hrun, hplaced, hfault, himage, hterminal⟩
      rcases hall reason himage hrun hfault hplaced hterminal with ⟨hready, hcause⟩
      rw [hverdict reason hrun hplaced hfault himage]
      tauto

theorem follows_iff (hsorted : (pre.map Reading.now).Pairwise (· ≤ ·)) (h : Clocks readyTimeout pre since)
    : Follows readyTimeout started pre since r ↔ Heeds started pre r := by
  constructor
  . intro hfollows
    have hends := (ends_iff hsorted h).mp hfollows.ends
    exact ⟨hends.1, hends.2, (pull_iff hsorted h).mp hfollows.pull, (place_iff hsorted h).mp hfollows.place⟩
  . intro hheeds
    refine ⟨(ends_iff hsorted h).mpr ⟨hheeds.found, hheeds.succeeded⟩, (pull_iff hsorted h).mpr hheeds.pull,
      (place_iff hsorted h).mpr hheeds.place, ?_⟩
    rw [await_running_iff]
    constructor
    . intro hrun
      exact ⟨hrun, h.idle⟩
    . intro hrun
      exact hrun.1

end Step

theorem follows_along_iff (readyTimeout : Nanos) (t : Timeline)
    : t.Along (Follows readyTimeout t.started) ↔ t.Along fun pre _ r => Heeds t.started pre r := by
  have hsorted : ∀ {pre r post}, t.readings = pre ++ r :: post → (pre.map Reading.now).Pairwise (· ≤ ·) := by
    intro pre r post heq
    have hordered := (List.pairwise_cons.mp t.ordered).2
    rw [heq, List.map_append] at hordered
    exact (List.pairwise_append.mp hordered).1
  constructor
  . intro h pre r post since heq hexec
    exact (follows_iff (hsorted heq) (clocks_exec (hsorted heq) hexec)).mp (h pre r post since heq hexec)
  . intro h pre r post since heq hexec
    exact (follows_iff (hsorted heq) (clocks_exec (hsorted heq) hexec)).mpr (h pre r post since heq hexec)

-- A driver that is done before the first reading.
def succeededAt (now : Nanos) : Reading where
  now := now
  status := some ⟨some "Succeeded", none, some [⟨"PodScheduled", "True", none, none⟩], none⟩

def doneBefore : Timeline where
  started := 0
  readings := [succeededAt 0]
  ordered := by decide

theorem done_driver_awaited : ¬doneBefore.Along (Follows 0 0) := by
  intro h
  rcases (h [] (succeededAt 0) [] none rfl rfl).ends (by simp [Reading.settled, succeededAt]) with ⟨e, he⟩
  have hwaits : await 0 none (succeededAt 0) = .ok (none, ()) := by decide
  rw [hwaits] at he
  cases he

end Await
end Sync
