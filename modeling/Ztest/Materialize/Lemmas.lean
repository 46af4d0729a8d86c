import Ztest.Materialize.Impl
import Ztest.Lib.Trace

/-!
This module is about the safety of seed publishing. The name of the Job is a lock only as long as it
denotes the Job a run means: a delete by name and a verdict read by name hit whatever stands there by
then. `Meets` rules the steps out at which it denotes another one, and the ways in which a run can
still be on its way to a create once a puller Job has succeeded.
-/

namespace Materialize

namespace Event

def isCompleted : Event → Bool
  | .completed _ => true
  | _ => false

def isCreated : Event → Bool
  | .created .. => true
  | _ => false

def isReadySet : Event → Bool
  | .readySet _ => true
  | _ => false

def isTrouble : Event → Bool
  | .failed _ => true
  | .trouble _ => true
  | _ => false

end Event

def succeededIn (tr : List Event) : Bool := tr.any Event.isCompleted

def Clean (tr : List Event) : Prop := ∀ ev ∈ tr, ev.isTrouble = false

/--
The history of a volume: the label is set after a success, a run deletes only terminal Jobs and its
own, no Job is created after a success, and without trouble no run ends with an error.
-/
structure Safe (tr : List Event) : Prop where
  ready : Trace.Before (fun pre ev => ev.isReadySet = true → succeededIn pre = true) tr
  deletes : ∀ r j, .deleted r j ∈ tr → isJobFinished j = true ∨ j.creator = r
  once : Trace.Before (fun pre ev => ev.isCreated = true → succeededIn pre = false) tr
  noError : Clean tr → ∀ r e, .result r (.error e) ∉ tr

namespace State

/--
No run enters `publish` after a success, no Job succeeds while a run is on its way to a create, a
waiter that found no Job does not read the label between the delete and `mark_ready`, and a delete
finds the Job that the run looked up or created, if any.
-/
def Meets (s : State) : Input → Prop
  | .start _ => succeededIn s.trace = false
  | .finish .complete => ∀ r, (s.runs r).preCreate = false
  | .act r .ok =>
    match s.runs r with
    | .labelRead _ => succeededIn s.trace = true → s.ready = true
    | .reapDelete _ uid => ∀ j, s.job = some j → j.uid = uid
    | .stuck uid => ∀ j, s.job = some j → j.uid = uid
    | .ownDelete uid => ∀ j, s.job = some j → j.uid = uid
    | _ => True
  | _ => True

-- What holds where a run stands, `done` saying whether a Job has succeeded.
def PcOk (job : Option Job) (nextUid : Nat) (done : Bool) (r : Nat) : Pc → Prop
  | .idle => True
  | .probe _ => done = false
  | .create _ => done = false
  | .reapGet _ => done = false
  | .reapDelete _ uid =>
    done = false ∧ uid < nextUid ∧ ∀ j, job = some j → j.uid = uid → isJobFinished j = true
  | .recreate _ => done = false
  | .awaitFinished uid => uid < nextUid ∧ ∀ j, job = some j → j.uid = uid → j.creator = r
  | .stuck uid => uid < nextUid ∧ ∀ j, job = some j → j.uid = uid → j.creator = r
  | .verdict uid => uid < nextUid ∧ ∀ j, job = some j → j.uid = uid → j.creator = r
  | .ownDelete uid =>
    done = true ∧ uid < nextUid ∧ ∀ j, job = some j → j.uid = uid → j.creator = r
  | .markReady => done = true
  | _ => True

-- The same for a history without trouble: there is one Job, its creator ends it.
def CleanPc (job : Option Job) (nextUid : Nat) (done : Bool) (r : Nat) : Pc → Prop
  | .reapGet _ => 0 < nextUid
  | .reapDelete _ _ => False
  | .recreate _ => False
  | .stuck _ => False
  | .awaitFinished uid => ∃ j, job = some j ∧ j.uid = uid ∧ j.creator = r
  | .verdict uid => ∃ j, job = some j ∧ j.uid = uid ∧ j.creator = r ∧ succeeded j = true
  | .ownDelete uid => ∃ j, job = some j ∧ j.uid = uid ∧ j.creator = r ∧ succeeded j = true
  | .awaitSettled _ => 0 < nextUid
  | .labelRead _ => done = true
  | _ => True

structure CleanInv (s : State) : Prop where
  job : ∀ j, s.job = some j → isJobFinished j = true → succeeded j = true
  gone : succeededIn s.trace = false → s.job = none → s.nextUid = 0
  pcs : ∀ r, CleanPc s.job s.nextUid (succeededIn s.trace) r (s.runs r)
  noError : ∀ r e, .result r (.error e) ∉ s.trace

structure Inv (s : State) : Prop where
  uid : ∀ j, s.job = some j → j.uid < s.nextUid
  success : ∀ j, s.job = some j → succeeded j = true → succeededIn s.trace = true
  pcs : ∀ r, PcOk s.job s.nextUid (succeededIn s.trace) r (s.runs r)
  ready : Trace.Before (fun pre ev => ev.isReadySet = true → succeededIn pre = true) s.trace
  deletes : ∀ r j, .deleted r j ∈ s.trace → isJobFinished j = true ∨ j.creator = r
  once : Trace.Before (fun pre ev => ev.isCreated = true → succeededIn pre = false) s.trace

variable {s s' : State}

@[simp]
theorem succeededIn_append (tr : List Event) (ev : Event)
    : succeededIn (tr ++ [ev]) = (succeededIn tr || ev.isCompleted) := by
  simp [succeededIn]

theorem Clean.of_append {tr : List Event} {ev : Event} (h : Clean (tr ++ [ev]))
    : Clean tr ∧ ev.isTrouble = false := by
  constructor
  . exact fun e he => h e (List.mem_append_left _ he)
  . exact h ev (by simp)

theorem Inv.goto {r : Nat} {pc : Pc} (h : Inv s)
    (hpc : PcOk s.job s.nextUid (succeededIn s.trace) r pc)
    : Inv (s.goto r pc) := by
  refine ⟨h.uid, h.success, ?_, h.ready, h.deletes, h.once⟩
  intro r'
  unfold State.goto
  by_cases heq : r' = r
  . subst heq
    simpa using hpc
  . simpa [Function.update_of_ne heq] using h.pcs r'

theorem CleanInv.goto {r : Nat} {pc : Pc} (h : CleanInv s)
    (hpc : CleanPc s.job s.nextUid (succeededIn s.trace) r pc)
    : CleanInv (s.goto r pc) := by
  refine ⟨h.job, h.gone, ?_, h.noError⟩
  intro r'
  unfold State.goto
  by_cases heq : r' = r
  . subst heq
    simpa using hpc
  . simpa [Function.update_of_ne heq] using h.pcs r'

def Event.neutral : Event → Bool
  | .result .. => true
  | .trouble _ => true
  | _ => false

theorem Inv.log {ev : Event} (h : Inv s) (hev : Event.neutral ev = true) : Inv (s.log ev) := by
  have hcompleted : ev.isCompleted = false := by
    cases ev <;> simp_all [Event.neutral, Event.isCompleted]
  constructor
  . exact h.uid
  . intro j hj hsucc
    simp [State.log, h.success j hj hsucc]
  . intro r
    simpa [State.log, hcompleted] using h.pcs r
  . apply h.ready.concat
    cases ev <;> simp_all [Event.neutral, Event.isReadySet]
  . intro r j hmem
    rcases List.mem_append.mp hmem with hmem | hmem
    . exact h.deletes r j hmem
    . rw [← List.mem_singleton.mp hmem] at hev
      cases hev
  . apply h.once.concat
    cases ev <;> simp_all [Event.neutral, Event.isCreated]

theorem Inv.return_ {r : Nat} (h : Inv s) (res : Except PublishErr Unit) : Inv (s.return_ r res) := by
  apply Inv.goto (h.log rfl)
  trivial

theorem Inv.fatal {r : Nat} (h : Inv s) (e : PublishErr) : Inv (s.fatal r e) := by
  apply Inv.return_
  exact h.log rfl

theorem CleanInv.ok {r : Nat} (h : CleanInv s) : CleanInv (s.return_ r (.ok ())) := by
  apply CleanInv.goto
  . refine ⟨h.job, ?_, ?_, ?_⟩
    . intro hdone
      simp only [State.log, succeededIn_append, Event.isCompleted, Bool.or_false] at hdone
      exact h.gone hdone
    . intro r'
      simpa [State.log, Event.isCompleted] using h.pcs r'
    . intro r' e hmem
      rcases List.mem_append.mp hmem with hmem | hmem
      . exact h.noError r' e hmem
      . cases List.mem_singleton.mp hmem
  . trivial

/--
A Job that is replaced leaves no trace with the runs that meant it, one that goes on keeps its creator
and does not become unfinished.
-/
theorem PcOk.mono {job job' : Option Job} {n n' r : Nat} {done done' : Bool} {pc : Pc}
    (h : PcOk job n done r pc) (hn : n ≤ n')
    (hjob : ∀ j', job' = some j' → j'.uid < n → ∃ j, job = some j ∧ j.uid = j'.uid
      ∧ j.creator = j'.creator ∧ (isJobFinished j = true → isJobFinished j' = true))
    (hdone : done = true → done' = true)
    (hpre : done = false → pc.preCreate = true → done' = false)
    : PcOk job' n' done' r pc := by
  have hcreator : ∀ uid < n, (∀ j, job = some j → j.uid = uid → j.creator = r) →
      ∀ j, job' = some j → j.uid = uid → j.creator = r := by
    intro uid hlt hown j' hj' huid
    obtain ⟨j, hj, heq, hsame, _⟩ := hjob j' hj' (by omega)
    rw [← hsame]
    exact hown j hj (by omega)
  cases pc with
  | probe lap => exact hpre h rfl
  | create lap => exact hpre h rfl
  | reapGet lap => exact hpre h rfl
  | recreate lap => exact hpre h rfl
  | reapDelete lap uid =>
    obtain ⟨hfalse, hlt, hseen⟩ := h
    refine ⟨hpre hfalse rfl, by omega, ?_⟩
    intro j' hj' huid
    obtain ⟨j, hj, heq, _, hfinished⟩ := hjob j' hj' (by omega)
    exact hfinished (hseen j hj (by omega))
  | awaitFinished uid => exact ⟨by have := h.1; omega, hcreator uid h.1 h.2⟩
  | stuck uid => exact ⟨by have := h.1; omega, hcreator uid h.1 h.2⟩
  | verdict uid => exact ⟨by have := h.1; omega, hcreator uid h.1 h.2⟩
  | ownDelete uid => exact ⟨hdone h.1, by have := h.2.1; omega, hcreator uid h.2.1 h.2.2⟩
  | markReady => exact hdone h
  | _ => trivial

theorem Inv.createJob {r : Nat} (h : Inv s) (hdone : succeededIn s.trace = false)
    : Inv (s.createJob r) := by
  have hbase : Inv ({ s with
      job := some { uid := s.nextUid, creator := r }, nextUid := s.nextUid + 1 }.log
        (.created r s.nextUid)) := by
    constructor
    . intro j hj
      cases hj
      exact Nat.lt_succ_self _
    . intro j hj hsucc
      cases hj
      cases hsucc
    . intro r'
      apply (h.pcs r').mono (Nat.le_succ _)
      . intro j' hj' hlt
        cases hj'
        exact absurd hlt (Nat.lt_irrefl _)
      . intro hd
        simp [State.log, hd]
      . intro hd _
        simp [State.log, hd, Event.isCompleted]
    . apply h.ready.concat
      intro hready
      cases hready
    . intro r' j hmem
      rcases List.mem_append.mp hmem with hmem | hmem
      . exact h.deletes r' j hmem
      . cases List.mem_singleton.mp hmem
    . exact h.once.concat fun _ => hdone
  apply hbase.goto
  refine ⟨Nat.lt_succ_self _, ?_⟩
  intro j hj _
  cases hj
  rfl

theorem CleanInv.createJob {r : Nat} (h : CleanInv s) (hdone : succeededIn s.trace = false)
    (hjob : s.job = none)
    : CleanInv (s.createJob r) := by
  have hbase : CleanInv ({ s with
      job := some { uid := s.nextUid, creator := r }, nextUid := s.nextUid + 1 }.log
        (.created r s.nextUid)) := by
    constructor
    . intro j hj hfinished
      cases hj
      cases hfinished
    . intro _ hnone
      cases hnone
    . intro r'
      have hpc := h.pcs r'
      rw [hjob, hdone] at hpc
      show CleanPc _ (s.nextUid + 1) _ r' (s.runs r')
      cases hr : s.runs r' <;> rw [hr] at hpc <;> simp_all [CleanPc]
    . intro r' e hmem
      rcases List.mem_append.mp hmem with hmem | hmem
      . exact h.noError r' e hmem
      . cases List.mem_singleton.mp hmem
  apply hbase.goto
  exact ⟨_, rfl, rfl, rfl⟩

theorem Inv.deleteJob {r : Nat} (h : Inv s)
    (hown : ∀ j, s.job = some j → isJobFinished j = true ∨ j.creator = r)
    : Inv (s.deleteJob r) := by
  unfold State.deleteJob
  split
  . exact h
  . next j hj =>
    constructor
    . intro j' hj'
      cases hj'
    . intro j' hj'
      cases hj'
    . intro r'
      apply (h.pcs r').mono (Nat.le_refl _)
      . intro j' hj'
        cases hj'
      . intro hd
        simp [State.log, hd]
      . intro hd _
        simp [State.log, hd, Event.isCompleted]
    . apply h.ready.concat
      intro hready
      cases hready
    . intro r' j' hmem
      rcases List.mem_append.mp hmem with hmem | hmem
      . exact h.deletes r' j' hmem
      . cases List.mem_singleton.mp hmem
        exact hown j hj
    . apply h.once.concat
      intro hcreated
      cases hcreated

theorem succeededIn_deleteJob {r : Nat} {done : Bool} (h : succeededIn s.trace = done)
    : succeededIn (s.deleteJob r).trace = done := by
  unfold State.deleteJob
  split
  . exact h
  . simp [State.log, h, Event.isCompleted]

theorem Clean.of_deleteJob {r : Nat} (h : Clean (s.deleteJob r).trace) : Clean s.trace := by
  unfold State.deleteJob at h
  split at h
  . exact h
  . exact (Clean.of_append h).1

theorem CleanInv.deleteJob {r : Nat} {pc : Pc} {j : Job} (h : CleanInv s) (hj : s.job = some j)
    (hcreator : j.creator = r) (hdone : succeededIn s.trace = true)
    (hpc : CleanPc none s.nextUid true r pc)
    : CleanInv ((s.deleteJob r).goto r pc) := by
  unfold State.deleteJob
  rw [hj]
  constructor
  . intro j' hj'
    cases hj'
  . intro hfalse
    simp [State.goto, State.log, hdone] at hfalse
  . intro r'
    have hsucc : succeededIn (s.trace ++ [.deleted r j]) = true := by simp [hdone]
    simp only [State.goto, State.log, hsucc]
    by_cases heq : r' = r
    . subst heq
      simpa using hpc
    . rw [Function.update_of_ne heq]
      have hpc' := h.pcs r'
      rw [hj, hdone] at hpc'
      have hne : j.creator ≠ r' := by
        rw [hcreator]
        exact Ne.symm heq
      cases hr : s.runs r' <;> rw [hr] at hpc' <;> simp_all [CleanPc]
  . intro r' e hmem
    rcases List.mem_append.mp hmem with hmem | hmem
    . exact h.noError r' e hmem
    . cases List.mem_singleton.mp hmem

theorem Inv.setReady {r : Nat} (h : Inv s) (hdone : succeededIn s.trace = true)
    : Inv ({ s with ready := true }.log (.readySet r)) := by
  constructor
  . exact h.uid
  . intro j hj hsucc
    simp [State.log, hdone]
  . intro r'
    simpa [State.log, Event.isCompleted] using h.pcs r'
  . exact h.ready.concat fun _ => hdone
  . intro r' j hmem
    rcases List.mem_append.mp hmem with hmem | hmem
    . exact h.deletes r' j hmem
    . cases List.mem_singleton.mp hmem
  . apply h.once.concat
    intro hcreated
    cases hcreated

theorem CleanInv.setReady {r : Nat} (h : CleanInv s)
    : CleanInv ({ s with ready := true }.log (.readySet r)) := by
  constructor
  . exact h.job
  . intro hdone
    simp only [State.log, succeededIn_append, Event.isCompleted, Bool.or_false] at hdone
    exact h.gone hdone
  . intro r'
    simpa [State.log, Event.isCompleted] using h.pcs r'
  . intro r' e hmem
    rcases List.mem_append.mp hmem with hmem | hmem
    . exact h.noError r' e hmem
    . cases List.mem_singleton.mp hmem

/--
The invariant of a volume. The second part is that of a history without trouble.
-/
structure Holds (s : State) : Prop where
  inv : Inv s
  clean : Clean s.trace → CleanInv s

theorem Holds.fatal {r : Nat} (h : Holds s) (e : PublishErr) : Holds (s.fatal r e) := by
  refine ⟨h.inv.fatal e, ?_⟩
  intro hclean
  have htrouble := hclean (.trouble r) (by simp [State.fatal, State.return_, State.log, State.goto])
  cases htrouble

theorem Holds.trouble {r : Nat} {pc : Pc} (h : Holds s)
    (hpc : PcOk s.job s.nextUid (succeededIn s.trace) r pc)
    : Holds ((s.log (.trouble r)).goto r pc) := by
  constructor
  . apply (h.inv.log rfl).goto
    simpa [State.log, Event.isCompleted] using hpc
  . intro hclean
    have htrouble := hclean (.trouble r) (by simp [State.log, State.goto])
    cases htrouble

theorem Holds.goto {r : Nat} {pc : Pc} (h : Holds s)
    (hpc : PcOk s.job s.nextUid (succeededIn s.trace) r pc)
    (hclean : CleanInv s → CleanPc s.job s.nextUid (succeededIn s.trace) r pc)
    : Holds (s.goto r pc) := by
  refine ⟨h.inv.goto hpc, ?_⟩
  intro hc
  exact (h.clean hc).goto (hclean (h.clean hc))

theorem Holds.error {r : Nat} (h : Holds s) (e : PublishErr) (hno : CleanInv s → False)
    : Holds (s.return_ r (.error e)) := by
  refine ⟨h.inv.return_ _, ?_⟩
  intro hclean
  exact absurd (h.clean (Clean.of_append hclean).1) hno

theorem Holds.createJob {r : Nat} (h : Holds s) (hdone : succeededIn s.trace = false)
    (hjob : s.job = none)
    : Holds (s.createJob r) := by
  refine ⟨h.inv.createJob hdone, ?_⟩
  intro hclean
  exact (h.clean (Clean.of_append hclean).1).createJob hdone hjob

theorem Holds.actClaim {r : Nat} {reply : Reply} (h : Holds s) (hmeets : s.Meets (.act r reply))
    (hok : s.actClaim r reply (s.runs r) = .ok s')
    : Holds s' := by
  have hpc := h.inv.pcs r
  cases hr : s.runs r with
  | probe lap =>
    rw [hr] at hpc hok
    cases reply with
    | ok =>
      cases hok
      exact h.goto hpc fun _ => trivial
    | missing =>
      cases hok
      exact h.fatal _
    | failed =>
      cases hok
      exact h.fatal _
  | create lap =>
    rw [hr] at hpc hok
    simp only [State.actClaim] at hok
    split at hok
    . split at hok
      . next hjob =>
        cases hok
        exact h.createJob hpc hjob
      . next j hj =>
        cases hok
        apply h.goto
        . exact hpc
        . intro _
          exact Nat.lt_of_le_of_lt (Nat.zero_le _) (h.inv.uid j hj)
    . cases hok
      exact h.fatal _
  | reapGet lap =>
    rw [hr] at hpc hok
    simp only [State.actClaim] at hok
    split at hok
    . split at hok
      . next hjob =>
        cases hok
        apply h.goto
        . exact hpc
        . intro hc
          have hpos := hc.pcs r
          rw [hr] at hpos
          exact absurd (hc.gone hpc hjob) (Nat.ne_of_gt hpos)
      . next j hj =>
        split at hok
        . next hfinished =>
          cases hok
          apply h.goto
          . refine ⟨hpc, h.inv.uid j hj, ?_⟩
            intro j' hj' _
            cases hj.symm.trans hj'
            exact hfinished
          . intro hc
            have hsucc := h.inv.success j hj (hc.job j hj hfinished)
            exact absurd (hpc.symm.trans hsucc) (by simp)
        . cases hok
          apply h.goto
          . trivial
          . intro hc
            have hpos := hc.pcs r
            rw [hr] at hpos
            exact hpos
    . cases hok
      exact h.trouble trivial
  | reapDelete lap uid =>
    rw [hr] at hpc hok
    simp only [State.actClaim] at hok
    split at hok
    . next hreply =>
      cases hok
      subst hreply
      obtain ⟨hdone, _, hseen⟩ := hpc
      simp only [Meets, hr] at hmeets
      have hinv := h.inv.deleteJob (r := r) fun j hj => .inl (hseen j hj (hmeets j hj))
      constructor
      . apply hinv.goto
        exact succeededIn_deleteJob hdone
      . intro hclean
        have hfalse := (h.clean (Clean.of_deleteJob hclean)).pcs r
        rw [hr] at hfalse
        cases hfalse
    . cases hok
      exact h.trouble trivial
  | recreate lap =>
    rw [hr] at hpc hok
    simp only [State.actClaim] at hok
    split at hok
    . split at hok
      . next hjob =>
        cases hok
        exact h.createJob hpc hjob
      . cases hok
        apply h.error
        intro hc
        have hfalse := hc.pcs r
        rw [hr] at hfalse
        cases hfalse
    . cases hok
      exact h.fatal _
  | _ =>
    rw [hr] at hok
    cases hok

theorem Holds.actOwn {r : Nat} {reply : Reply} (h : Holds s) (hmeets : s.Meets (.act r reply))
    (hok : s.actOwn r reply (s.runs r) = .ok s')
    : Holds s' := by
  have hpc := h.inv.pcs r
  cases hr : s.runs r with
  | awaitFinished uid =>
    rw [hr] at hpc hok
    simp only [State.actOwn] at hok
    split at hok
    . split at hok
      . cases hok
      . next j hj =>
        split at hok
        . next hfinished =>
          cases hok
          apply h.goto
          . exact hpc
          . intro hc
            have hown := hc.pcs r
            rw [hr] at hown
            obtain ⟨j', hj', huid, hcreator⟩ := hown
            cases hj.symm.trans hj'
            exact ⟨j, hj, huid, hcreator, hc.job j hj hfinished⟩
        . cases hok
    . cases hok
      exact h.fatal _
  | stuck uid =>
    rw [hr] at hpc hok
    simp only [State.actOwn] at hok
    split at hok
    . next hreply =>
      cases hok
      subst hreply
      simp only [Meets, hr] at hmeets
      have hinv := h.inv.deleteJob (r := r) fun j hj => .inr (hpc.2 j hj (hmeets j hj))
      refine ⟨hinv.return_ _, ?_⟩
      intro hclean
      have hbefore : Clean s.trace := Clean.of_deleteJob (Clean.of_append hclean).1
      have hfalse := (h.clean hbefore).pcs r
      rw [hr] at hfalse
      cases hfalse
    . cases hok
      exact h.fatal _
  | verdict uid =>
    rw [hr] at hpc hok
    simp only [State.actOwn] at hok
    split at hok
    . split at hok
      . next hsucc =>
        cases hok
        cases hj : s.job with
        | none => simp [hj] at hsucc
        | some j =>
          have hjsucc : succeeded j = true := by simpa [hj] using hsucc
          apply h.goto
          . exact ⟨h.inv.success j hj hjsucc, hpc⟩
          . intro hc
            have hown := hc.pcs r
            rw [hr] at hown
            exact hown
      . next hsucc =>
        cases hok
        apply h.error
        intro hc
        have hown := hc.pcs r
        rw [hr] at hown
        obtain ⟨j, hj, _, _, hjsucc⟩ := hown
        simp [hj, hjsucc] at hsucc
    . cases hok
      exact h.fatal _
  | ownDelete uid =>
    rw [hr] at hpc hok
    simp only [State.actOwn] at hok
    split at hok
    . next hreply =>
      cases hok
      subst hreply
      simp only [Meets, hr] at hmeets
      obtain ⟨hdone, _, hown⟩ := hpc
      have hinv := h.inv.deleteJob (r := r) fun j hj => .inr (hown j hj (hmeets j hj))
      constructor
      . apply hinv.goto
        exact succeededIn_deleteJob hdone
      . intro hclean
        have hc := h.clean (Clean.of_deleteJob hclean)
        have hjob := hc.pcs r
        rw [hr] at hjob
        obtain ⟨j, hj, _, hcreator, _⟩ := hjob
        exact hc.deleteJob hj hcreator hdone trivial
    . cases hok
      exact h.trouble hpc.1
  | markReady =>
    rw [hr] at hpc hok
    simp only [State.actOwn] at hok
    split at hok
    . cases hok
      refine ⟨(h.inv.setReady hpc).return_ _, ?_⟩
      intro hclean
      have hbefore := (Clean.of_append (Clean.of_append hclean).1).1
      exact (h.clean hbefore).setReady.ok
    . cases hok
      exact h.fatal _
  | _ =>
    rw [hr] at hok
    cases hok

theorem Holds.actWait {r : Nat} {reply : Reply} (h : Holds s) (hmeets : s.Meets (.act r reply))
    (hok : s.actWait r reply (s.runs r) = .ok s')
    : Holds s' := by
  cases hr : s.runs r with
  | awaitSettled lap =>
    rw [hr] at hok
    simp only [State.actWait] at hok
    split at hok
    . split at hok
      . next hjob =>
        cases hok
        apply h.goto
        . trivial
        . intro hc
          have hpos := hc.pcs r
          rw [hr] at hpos
          cases hdone : succeededIn s.trace with
          | true => rfl
          | false => exact absurd (hc.gone hdone hjob) (Nat.ne_of_gt hpos)
      . next j hj =>
        split at hok
        . next hfinished =>
          split at hok
          . next hsucc =>
            cases hok
            apply h.goto
            . exact h.inv.success j hj hsucc
            . exact fun _ => trivial
          . next hsucc =>
            cases hok
            apply h.error
            intro hc
            exact hsucc (hc.job j hj hfinished)
        . cases hok
    . cases hok
      exact h.fatal _
  | labelRead lap =>
    rw [hr] at hok
    simp only [State.actWait] at hok
    split at hok
    . next hreply =>
      subst hreply
      simp only [Meets, hr] at hmeets
      split at hok
      . cases hok
        refine ⟨h.inv.return_ _, ?_⟩
        intro hclean
        exact (h.clean (Clean.of_append hclean).1).ok
      . next hready =>
        cases hok
        have hdone : succeededIn s.trace = false := by
          cases hd : succeededIn s.trace with
          | false => rfl
          | true => exact absurd (hmeets hd) hready
        have hno : CleanInv s → False := by
          intro hc
          have htrue := hc.pcs r
          rw [hr] at htrue
          exact absurd (hdone.symm.trans htrue) (by simp)
        unfold State.takeOver
        split
        . apply h.goto
          . exact hdone
          . exact fun _ => trivial
        . exact h.error _ hno
    . cases hok
      exact h.fatal _
  | _ =>
    rw [hr] at hok
    cases hok

theorem Holds.act {r : Nat} {reply : Reply} (h : Holds s) (hmeets : s.Meets (.act r reply))
    (hok : s.act r reply = .ok s')
    : Holds s' := by
  unfold State.act at hok
  simp only at hok
  split at hok
  . exact h.actClaim hmeets hok
  . split at hok
    . exact h.actWait hmeets hok
    . exact h.actWait hmeets hok
    . exact h.actOwn hmeets hok

theorem Holds.stall {r : Nat} (h : Holds s) (hok : s.stall r = .ok s') : Holds s' := by
  have hpc := h.inv.pcs r
  unfold State.stall at hok
  split at hok
  . next uid hr =>
    cases hok
    rw [hr] at hpc
    exact h.trouble hpc
  . cases hok
    exact h.fatal _
  . cases hok

theorem Holds.complete {j : Job} (h : Holds s) (hj : s.job = some j)
    (hpre : ∀ r, (s.runs r).preCreate = false)
    : Holds ({ s with job := some { j with condition := some .complete, succeeded := 1 } }.log
        (.completed j.uid)) := by
  have hdone : succeededIn (s.trace ++ [.completed j.uid]) = true := by simp [Event.isCompleted]
  constructor
  . constructor
    . intro j' hj'
      cases hj'
      exact h.inv.uid j hj
    . intro j' _ _
      exact hdone
    . intro r
      apply (h.inv.pcs r).mono (Nat.le_refl _)
      . intro j' hj' _
        cases hj'
        exact ⟨j, hj, rfl, rfl, fun _ => rfl⟩
      . exact fun _ => hdone
      . intro _ htrue
        rw [hpre r] at htrue
        cases htrue
    . apply h.inv.ready.concat
      intro hready
      cases hready
    . intro r j' hmem
      rcases List.mem_append.mp hmem with hmem | hmem
      . exact h.inv.deletes r j' hmem
      . cases List.mem_singleton.mp hmem
    . apply h.inv.once.concat
      intro hcreated
      cases hcreated
  . intro hclean
    have hc := h.clean (Clean.of_append hclean).1
    constructor
    . intro j' hj' _
      cases hj'
      rfl
    . intro hfalse
      cases hdone.symm.trans hfalse
    . intro r
      have hpc := hc.pcs r
      rw [hj] at hpc
      show CleanPc (some { j with condition := some .complete, succeeded := 1 }) s.nextUid
        (succeededIn (s.trace ++ [.completed j.uid])) r (s.runs r)
      rw [hdone]
      cases hr : s.runs r <;> rw [hr] at hpc <;> simp_all [CleanPc, succeeded]
    . intro r e hmem
      rcases List.mem_append.mp hmem with hmem | hmem
      . exact hc.noError r e hmem
      . cases List.mem_singleton.mp hmem

theorem Holds.failed {j : Job} (h : Holds s) (hj : s.job = some j)
    : Holds ({ s with job := some { j with condition := some .failed } }.log (.failed j.uid)) := by
  constructor
  . constructor
    . intro j' hj'
      cases hj'
      exact h.inv.uid j hj
    . intro j' hj' hsucc
      cases hj'
      simp [State.log, h.inv.success j hj hsucc]
    . intro r
      apply (h.inv.pcs r).mono (Nat.le_refl _)
      . intro j' hj' _
        cases hj'
        exact ⟨j, hj, rfl, rfl, fun _ => rfl⟩
      . intro hd
        simp [State.log, hd]
      . intro hd _
        simp [State.log, hd, Event.isCompleted]
    . apply h.inv.ready.concat
      intro hready
      cases hready
    . intro r j' hmem
      rcases List.mem_append.mp hmem with hmem | hmem
      . exact h.inv.deletes r j' hmem
      . cases List.mem_singleton.mp hmem
    . apply h.inv.once.concat
      intro hcreated
      cases hcreated
  . intro hclean
    have htrouble := (Clean.of_append hclean).2
    cases htrouble

theorem Holds.step {input : Input} {u : Unit} (h : Holds s) (hmeets : s.Meets input)
    (hok : s.step input = .ok (s', u))
    : Holds s' := by
  obtain ⟨t, hnext, heq⟩ := Run.map_ok hok
  cases heq
  cases input with
  | start r =>
    simp only [next] at hnext
    split at hnext
    . cases hnext
      apply h.goto
      . exact hmeets
      . exact fun _ => trivial
    . cases hnext
  | act r reply => exact h.act hmeets hnext
  | stall r => exact h.stall hnext
  | crash r =>
    cases hnext
    apply h.goto
    . trivial
    . exact fun _ => trivial
  | finish condition =>
    simp only [next, finishJob] at hnext
    split at hnext
    . cases hnext
    . next j hj =>
      split at hnext
      . cases hnext
      . cases condition with
        | complete =>
          cases hnext
          exact h.complete hj hmeets
        | failed =>
          cases hnext
          exact h.failed hj

theorem holds_init : Holds init := by
  constructor
  . constructor
    . intro j hj
      cases hj
    . intro j hj
      cases hj
    . exact fun _ => trivial
    . exact Trace.before_nil
    . intro r j hmem
      cases hmem
    . exact Trace.before_nil
  . intro _
    constructor
    . intro j hj
      cases hj
    . exact fun _ _ => rfl
    . exact fun _ => trivial
    . intro r e hmem
      cases hmem

theorem Holds.safe (h : Holds s) : Safe s.trace := by
  constructor
  . exact h.inv.ready
  . exact h.inv.deletes
  . exact h.inv.once
  . exact fun hclean => (h.clean hclean).noError

/--
Every history of a volume whose steps all meet `Meets` is safe, for any number of runs and whichever
of them crash.
-/
theorem publish_safe (inputs : List Input) (s : State)
    (halong : Run.Along step Meets init inputs) (hexec : Run.exec step init inputs = .ok s)
    : Safe s.trace := by
  apply Holds.safe
  apply Run.exec_invariant_along ?_ holds_init halong hexec
  intro s i s' r h hmeets hok
  exact h.step hmeets hok

-- Run 1 waits for the pull of run 0 and finds the label set.
theorem publish_safe_waiter
    : ∃ s, Run.exec step init
          [.start 0, .act 0 .ok, .act 0 .ok, .start 1, .act 1 .ok, .act 1 .ok, .act 1 .ok,
            .finish .complete, .act 0 .ok, .act 0 .ok, .act 0 .ok, .act 0 .ok, .act 1 .ok,
            .act 1 .ok] = .ok s
        ∧ s.runs 0 = .returned ∧ s.runs 1 = .returned ∧ s.ready = true ∧ Safe s.trace := by
  refine ⟨_, rfl, rfl, rfl, rfl, ?_⟩
  apply publish_safe
    [.start 0, .act 0 .ok, .act 0 .ok, .start 1, .act 1 .ok, .act 1 .ok, .act 1 .ok,
      .finish .complete, .act 0 .ok, .act 0 .ok, .act 0 .ok, .act 0 .ok, .act 1 .ok, .act 1 .ok]
    _ ?_ rfl
  refine ⟨rfl, fun _ _ hs => ?_⟩
  cases hs
  refine ⟨trivial, fun _ _ hs => ?_⟩
  cases hs
  refine ⟨trivial, fun _ _ hs => ?_⟩
  cases hs
  refine ⟨rfl, fun _ _ hs => ?_⟩
  cases hs
  refine ⟨trivial, fun _ _ hs => ?_⟩
  cases hs
  refine ⟨trivial, fun _ _ hs => ?_⟩
  cases hs
  refine ⟨trivial, fun _ _ hs => ?_⟩
  cases hs
  refine ⟨?_, fun _ _ hs => ?_⟩
  . intro r
    match r with
    | 0 => rfl
    | 1 => rfl
    | r + 2 => rfl
  cases hs
  refine ⟨trivial, fun _ _ hs => ?_⟩
  cases hs
  refine ⟨trivial, fun _ _ hs => ?_⟩
  cases hs
  refine ⟨?_, fun _ _ hs => ?_⟩
  . intro j hj
    cases hj
    rfl
  cases hs
  refine ⟨trivial, fun _ _ hs => ?_⟩
  cases hs
  refine ⟨trivial, fun _ _ hs => ?_⟩
  cases hs
  exact ⟨fun _ => rfl, fun _ _ _ => trivial⟩

-- Without trouble, run 1 reaps the complete Job of run 0 before the verdict of run 0 and pulls again,
-- and run 0 reads the verdict off that second Job. After a failed pull, runs 1 and 2 look the same
-- corpse up, and run 2 deletes the Job with which run 1 has replaced it.
theorem publish_not_safe
    : (∃ s, Run.exec step init
          [.start 0, .act 0 .ok, .act 0 .ok, .start 1, .act 1 .ok, .finish .complete, .act 0 .ok,
            .act 1 .ok, .act 1 .ok, .act 1 .ok, .act 1 .ok, .act 0 .ok] = .ok s
        ∧ Clean s.trace ∧ .result 0 (.error .pullerFailed) ∈ s.trace
        ∧ ¬Trace.Before (fun pre ev => ev.isCreated = true → succeededIn pre = false) s.trace)
      ∧ ∃ s, Run.exec step init
          [.start 0, .act 0 .ok, .act 0 .ok, .finish .failed, .start 1, .start 2, .act 1 .ok,
            .act 2 .ok, .act 1 .ok, .act 2 .ok, .act 1 .ok, .act 2 .ok, .act 1 .ok, .act 1 .ok,
            .act 2 .ok] = .ok s
        ∧ .deleted 2 ⟨1, 1, none, 0⟩ ∈ s.trace ∧ ¬Safe s.trace := by
  refine ⟨⟨_, rfl, ?_, ?_, ?_⟩, ⟨_, rfl, ?_, ?_⟩⟩
  . unfold Clean
    decide
  . exact List.mem_of_getElem? (i := 4) rfl
  . intro honce
    have := honce [.created 0 0, .completed 0, .deleted 1 ⟨0, 0, some .complete, 1⟩] (.created 1 1)
      [.result 0 (.error .pullerFailed)] rfl rfl
    cases this
  . exact List.mem_of_getElem? (i := 4) rfl
  . intro hsafe
    have := hsafe.deletes 2 ⟨1, 1, none, 0⟩ (List.mem_of_getElem? (i := 4) rfl)
    revert this
    decide

end State
end Materialize
