import Ztest.Engine.Schedule.Lemmas.Drain
import Ztest.Lib.Trace

/-!
This module is about the stream of events of a run: which events come first and last, what may follow
a cancellation or a tripped fail-fast, and what has to precede the end of a test.

Two clauses do not hold of every run. A tick reports an attempt again that an earlier tick reported,
and a cancellation that lands within the completion of the last running test ends the loop before the
check at its top. `SlowFresh` and `CancelSeen` rule these out.
-/

namespace Engine

namespace TestEvent

def isRunStarted : TestEvent → Bool
  | .runStarted .. => true
  | _ => false

def isRunFinished : TestEvent → Bool
  | .runFinished .. => true
  | _ => false

def isRunCancelling : TestEvent → Bool
  | .runCancelling .. => true
  | _ => false

def trips (cfg : LoopConfig) : TestEvent → Bool
  | .testFinished _ _ verdict .. => cfg.failFast && verdict ≠ .pass && verdict ≠ .terminated
  | _ => false

def isStartOf (k : String × String) (attempt : Nat) : TestEvent → Bool
  | .testStarted binaryId testName _ n => (binaryId, testName) = k && n = attempt
  | _ => false

def isSlowOf (k : String × String) (attempt : Nat) : TestEvent → Bool
  | .testSlow binaryId testName _ _ n => (binaryId, testName) = k && n = attempt
  | _ => false

-- The test an event takes out of the queue: it starts, or it never will.
def settledKey : TestEvent → Option (String × String)
  | .testStarted binaryId testName .. => some (binaryId, testName)
  | .testSkipped binaryId testName _ => some (binaryId, testName)
  | _ => none

-- The events nothing is asked of.
def quiet : TestEvent → Bool
  | .testSkipped .. => true
  | .testRetrying .. => true
  | _ => false

end TestEvent

-- What an event needs of the events before it.
def Justified (cfg : LoopConfig) (pre : List TestEvent) : TestEvent → Prop
  | .testStarted .. => ∀ e ∈ pre, e.isRunCancelling = false ∧ e.trips cfg = false
  | .testFinished binaryId testName _ _ attempt _ _ =>
    ∃ e ∈ pre, e.isStartOf (binaryId, testName) attempt = true
  | _ => True

/--
The contract of the stream of a whole run.
-/
structure StreamContract (cfg : LoopConfig) (evs : List TestEvent) : Prop where
  first : ∃ total runId rest, evs = .runStarted total runId :: rest
    ∧ ∀ ev ∈ rest, ev.isRunStarted = false
  last : ∃ stats elapsed rest, evs = rest ++ [.runFinished stats elapsed]
    ∧ ∀ ev ∈ rest, ev.isRunFinished = false
  cancelling : evs.countP TestEvent.isRunCancelling ≤ 1
  justified : Trace.Before (Justified cfg) evs
  slow : ∀ k attempt,
    evs.countP (TestEvent.isSlowOf k attempt) ≤ evs.countP (TestEvent.isStartOf k attempt)

namespace LoopState

open Qos

variable {cfg : LoopConfig} {items : List WorkItem} {s s' : LoopState}

-- Running attempts that no tick has marked.
def unmarked (k : String × String) (attempt : Nat) (r : Running) : Nat :=
  if (r.item.binaryId, r.item.testName) = k ∧ r.attempt = attempt ∧ r.slowEmitted = false then 1 else 0

structure StreamInv (cfg : LoopConfig) (s : LoopState) : Prop where
  first : ∃ total runId rest, s.events = .runStarted total runId :: rest
    ∧ ∀ ev ∈ rest, ev.isRunStarted = false
  unfinished : ∀ ev ∈ s.events, ev.isRunFinished = false
  cancelling : s.events.countP TestEvent.isRunCancelling = if s.cancelled = none then 0 else 1
  flagged : s.cancelled ≠ none → s.cancelFlag = true
  tripped : ∀ ev ∈ s.events, ev.trips cfg = true → s.failFastTripped = true
  justified : Trace.Before (Justified cfg) s.events
  inflight : ∀ e ∈ s.inflight.entries, ∃ ev ∈ s.events,
    ev.isStartOf (e.2.item.binaryId, e.2.item.testName) e.2.attempt = true
  slow : ∀ k attempt, s.events.countP (TestEvent.isSlowOf k attempt)
      + s.inflight.weight (fun _ r => unmarked k attempt r)
    ≤ s.events.countP (TestEvent.isStartOf k attempt)

/--
A step that adds `new` at the end of the stream and neither starts nor marks anything.
-/
structure Extends (s s' : LoopState) (new : List TestEvent) : Prop where
  events : s'.events = s.events ++ new
  cancelled : s'.cancelled = s.cancelled
  cancelFlag : s.cancelFlag = true → s'.cancelFlag = true
  failFastTripped : s.failFastTripped = true → s'.failFastTripped = true
  inflight : s'.inflight.entries.Sublist s.inflight.entries

theorem Extends.refl (s : LoopState) : Extends s s [] := by
  constructor
  . simp
  . rfl
  . exact fun h => h
  . exact fun h => h
  . exact List.Sublist.refl _

theorem Extends.trans {t : LoopState} {new new' : List TestEvent} (h : Extends s t new)
    (h' : Extends t s' new')
    : Extends s s' (new ++ new') := by
  constructor
  . rw [h'.events, h.events, List.append_assoc]
  . exact h'.cancelled.trans h.cancelled
  . exact fun hflag => h'.cancelFlag (h.cancelFlag hflag)
  . exact fun htripped => h'.failFastTripped (h.failFastTripped htripped)
  . exact h'.inflight.trans h.inflight

-- A quiet event, or the end of a test that started.
def Plain (cfg : LoopConfig) (s s' : LoopState) (ev : TestEvent) : Prop :=
  ev.quiet = true
    ∨ ∃ binaryId testName verdict duration attempt output components,
        ev = .testFinished binaryId testName verdict duration attempt output components
          ∧ (∃ e ∈ s.events, e.isStartOf (binaryId, testName) attempt = true)
          ∧ (ev.trips cfg = true → s'.failFastTripped = true)

theorem Plain.silent {ev : TestEvent} (h : Plain cfg s s' ev)
    : ev.isRunStarted = false ∧ ev.isRunFinished = false ∧ ev.isRunCancelling = false
      ∧ (∀ k attempt, ev.isStartOf k attempt = false)
      ∧ (∀ k attempt, ev.isSlowOf k attempt = false) := by
  rcases h with hquiet | ⟨_, _, _, _, _, _, _, rfl, _, _⟩
  . cases ev <;> simp_all [TestEvent.quiet, TestEvent.isRunStarted, TestEvent.isRunFinished,
      TestEvent.isRunCancelling, TestEvent.isStartOf, TestEvent.isSlowOf]
  . exact ⟨rfl, rfl, rfl, fun _ _ => rfl, fun _ _ => rfl⟩

theorem Plain.trips {ev : TestEvent} (h : Plain cfg s s' ev) (htrips : ev.trips cfg = true)
    : s'.failFastTripped = true := by
  rcases h with hquiet | ⟨_, _, _, _, _, _, _, rfl, _, h⟩
  . cases ev <;> simp_all [TestEvent.quiet, TestEvent.trips]
  . exact h htrips

theorem Plain.justified {ev : TestEvent} (h : Plain cfg s s' ev) {pre : List TestEvent}
    (hpre : s.events ⊆ pre)
    : Justified cfg pre ev := by
  rcases h with hquiet | ⟨_, _, _, _, _, _, _, rfl, ⟨e, he, hstart⟩, _⟩
  . cases ev <;> simp_all [TestEvent.quiet, Justified]
  . exact ⟨e, hpre he, hstart⟩

theorem countP_eq_zero_of_silent {p : TestEvent → Bool} {new : List TestEvent}
    (h : ∀ ev ∈ new, p ev = false)
    : new.countP p = 0 := by
  rw [List.countP_eq_zero]
  intro ev hev
  simp [h ev hev]

theorem weight_unmarked_le (k : String × String) (attempt : Nat)
    (h : s'.inflight.entries.Sublist s.inflight.entries)
    : s'.inflight.weight (fun _ r => unmarked k attempt r)
      ≤ s.inflight.weight (fun _ r => unmarked k attempt r) := by
  unfold AList.weight
  apply List.Sublist.sum_le_sum
  . exact h.map _
  . exact fun _ _ => Nat.zero_le _

theorem StreamInv.first_append {new : List TestEvent} (h : StreamInv cfg s)
    (hevents : s'.events = s.events ++ new) (hnew : ∀ ev ∈ new, ev.isRunStarted = false)
    : ∃ total runId rest, s'.events = .runStarted total runId :: rest
        ∧ ∀ ev ∈ rest, ev.isRunStarted = false := by
  obtain ⟨total, runId, rest, heq, hrest⟩ := h.first
  refine ⟨total, runId, rest ++ new, ?_, ?_⟩
  . rw [hevents, heq]
    rfl
  . intro ev hev
    rcases List.mem_append.mp hev with hev | hev
    . exact hrest ev hev
    . exact hnew ev hev

theorem StreamInv.unfinished_append {new : List TestEvent} (h : StreamInv cfg s)
    (hevents : s'.events = s.events ++ new) (hnew : ∀ ev ∈ new, ev.isRunFinished = false)
    : ∀ ev ∈ s'.events, ev.isRunFinished = false := by
  intro ev hev
  rw [hevents] at hev
  rcases List.mem_append.mp hev with hev | hev
  . exact h.unfinished ev hev
  . exact hnew ev hev

theorem StreamInv.tripped_append {new : List TestEvent} (h : StreamInv cfg s)
    (hevents : s'.events = s.events ++ new)
    (htripped : s.failFastTripped = true → s'.failFastTripped = true)
    (hnew : ∀ ev ∈ new, ev.trips cfg = true → s'.failFastTripped = true)
    : ∀ ev ∈ s'.events, ev.trips cfg = true → s'.failFastTripped = true := by
  intro ev hev htrips
  rw [hevents] at hev
  rcases List.mem_append.mp hev with hev | hev
  . exact htripped (h.tripped ev hev htrips)
  . exact hnew ev hev htrips

theorem StreamInv.extend {new : List TestEvent} (h : StreamInv cfg s) (hext : Extends s s' new)
    (hnew : ∀ ev ∈ new, Plain cfg s s' ev)
    : StreamInv cfg s' := by
  constructor
  . exact h.first_append hext.events fun ev hev => (hnew ev hev).silent.1
  . exact h.unfinished_append hext.events fun ev hev => (hnew ev hev).silent.2.1
  . rw [hext.events, hext.cancelled, List.countP_append, h.cancelling,
      countP_eq_zero_of_silent fun ev hev => (hnew ev hev).silent.2.2.1]
    rfl
  . intro hcancelled
    rw [hext.cancelled] at hcancelled
    exact hext.cancelFlag (h.flagged hcancelled)
  . exact h.tripped_append hext.events hext.failFastTripped fun ev hev => (hnew ev hev).trips
  . rw [hext.events]
    apply h.justified.append
    intro pre ev post heq
    apply (hnew ev (by simp [heq])).justified
    exact fun _ hmem => List.mem_append_left _ hmem
  . intro e he
    obtain ⟨ev, hev, hstart⟩ := h.inflight e (hext.inflight.subset he)
    refine ⟨ev, ?_, hstart⟩
    rw [hext.events]
    exact List.mem_append_left _ hev
  . intro k attempt
    have hslow := h.slow k attempt
    have hle := weight_unmarked_le k attempt hext.inflight
    rw [hext.events, List.countP_append, List.countP_append,
      countP_eq_zero_of_silent fun ev hev => (hnew ev hev).silent.2.2.2.1 k attempt,
      countP_eq_zero_of_silent fun ev hev => (hnew ev hev).silent.2.2.2.2 k attempt]
    omega

theorem StreamInv.quiet {new : List TestEvent} (h : StreamInv cfg s) (hext : Extends s s' new)
    (hnew : ∀ ev ∈ new, ev.quiet = true)
    : StreamInv cfg s' := by
  apply h.extend hext
  exact fun ev hev => .inl (hnew ev hev)

theorem StreamInv.same (h : StreamInv cfg s) (hext : Extends s s' []) : StreamInv cfg s' := by
  apply h.quiet hext
  intro ev hev
  cases hev

theorem Extends.placeGrants (s : LoopState) (grants : List Admitted)
    : Extends s (s.placeGrants grants) [] := by
  induction grants generalizing s with
  | nil => exact .refl s
  | cons g gs ih =>
    have hg : Extends s (s.placeGrant g) [] := by
      unfold placeGrant
      split
      . exact ⟨by simp, rfl, fun h => h, fun h => h, .refl _⟩
      . exact .refl s
    exact hg.trans (ih (s.placeGrant g))

theorem Extends.publishDemand (s : LoopState) (cfg : LoopConfig)
    : Extends s (s.publishDemand cfg) [] := by
  unfold LoopState.publishDemand
  split
  . exact ⟨by simp, rfl, fun h => h, fun h => h, .refl _⟩
  . exact .refl s

theorem Extends.raise (s : LoopState) (flag : Bool) : Extends s (s.raise flag) [] := by
  refine ⟨by simp [LoopState.raise], rfl, ?_, fun h => h, .refl _⟩
  intro h
  simp [LoopState.raise, h]

-- What filing and submitting do to the stream.
def Quietly (s s' : LoopState) : Prop :=
  s'.failFastTripped = s.failFastTripped
    ∧ ∃ new, Extends s s' new ∧ ∀ ev ∈ new, ev.quiet = true

theorem Quietly.skip (s : LoopState) (item : WorkItem) (reason : SkipReason)
    : Quietly s (s.skip item reason) := by
  refine ⟨rfl, [.testSkipped item.binaryId item.testName reason], ?_, ?_⟩
  . exact ⟨rfl, rfl, fun h => h, fun h => h, .refl _⟩
  . simp [TestEvent.quiet]

theorem Quietly.filed (s : LoopState) (item : WorkItem) (attempt : Nat) (sched : Scheduler)
    (a : Admission SlotId)
    : Quietly s (s.filed item attempt sched a) := by
  cases a with
  | granted lease =>
    refine ⟨rfl, [], ?_, by simp⟩
    exact ⟨by simp [LoopState.filed], rfl, fun h => h, fun h => h, .refl _⟩
  | queued =>
    refine ⟨rfl, [], ?_, by simp⟩
    exact ⟨by simp [LoopState.filed], rfl, fun h => h, fun h => h, .refl _⟩
  | rejected reason =>
    obtain ⟨htripped, new, hext, hnew⟩ := Quietly.skip { s with sched } item (skipReason reason)
    exact ⟨htripped, new, ⟨hext.events, hext.cancelled, hext.cancelFlag, hext.failFastTripped,
      hext.inflight⟩, hnew⟩

theorem Quietly.file {item : WorkItem} {attempt : Nat} (hok : s.file cfg item attempt = .ok s')
    : Quietly s s' := by
  unfold LoopState.file at hok
  split at hok
  . cases hok
  . cases hok
    apply Quietly.filed

theorem Quietly.submit {item : WorkItem} (hok : s.submit cfg item = .ok s') : Quietly s s' := by
  unfold LoopState.submit at hok
  split at hok
  . next reason _ =>
    cases hok
    apply Quietly.skip
  . exact Quietly.file hok

theorem Quietly.trans {t : LoopState} (h : Quietly s t) (h' : Quietly t s') : Quietly s s' := by
  obtain ⟨htripped, new, hext, hnew⟩ := h
  obtain ⟨htripped', new', hext', hnew'⟩ := h'
  refine ⟨htripped'.trans htripped, new ++ new', hext.trans hext', ?_⟩
  intro ev hev
  rcases List.mem_append.mp hev with hev | hev
  . exact hnew ev hev
  . exact hnew' ev hev

theorem Quietly.submitAll {rest : List WorkItem} (hok : s.submitAll cfg rest = .ok s')
    : Quietly s s' := by
  induction rest generalizing s with
  | nil =>
    cases hok
    exact ⟨rfl, [], .refl _, by simp⟩
  | cons item rest ih =>
    unfold LoopState.submitAll at hok
    split at hok
    . next t ht => exact (Quietly.submit ht).trans (ih hok)
    . cases hok

theorem StreamInv.noCancelling (h : StreamInv cfg s) (hcancelled : s.cancelled = none)
    : ∀ ev ∈ s.events, ev.isRunCancelling = false := by
  have hcount := h.cancelling
  rw [if_pos hcancelled, List.countP_eq_zero] at hcount
  intro ev hev
  simpa using hcount ev hev

theorem StreamInv.spawnGranted (h : StreamInv cfg s) (hcancelled : s.cancelled = none)
    (htripped : s.failFastTripped = false) (now : Nat) (slot : SlotId) (item : WorkItem)
    (attempt : Nat)
    : StreamInv cfg (s.spawnGranted now slot item attempt) := by
  have hevents : (s.spawnGranted now slot item attempt).events
      = s.events ++ [.testStarted item.binaryId item.testName item.cls attempt] := rfl
  constructor
  . exact h.first_append hevents (by simp [TestEvent.isRunStarted])
  . exact h.unfinished_append hevents (by simp [TestEvent.isRunFinished])
  . rw [hevents, List.countP_append, h.cancelling]
    rfl
  . exact h.flagged
  . exact h.tripped_append hevents (fun h => h) (by simp [TestEvent.trips])
  . rw [hevents]
    apply h.justified.concat
    intro e he
    refine ⟨h.noCancelling hcancelled e he, ?_⟩
    cases htrips : e.trips cfg with
    | false => rfl
    | true =>
      have := h.tripped e he htrips
      rw [htripped] at this
      cases this
  . intro e he
    have hmem : e ∈ (s.inflight.insert slot ⟨item, attempt, now, false⟩).entries := he
    rw [AList.entries_insert] at hmem
    rcases List.mem_cons.mp hmem with rfl | hmem
    . refine ⟨.testStarted item.binaryId item.testName item.cls attempt, ?_, ?_⟩
      . exact List.mem_append_right _ List.mem_cons_self
      . simp [TestEvent.isStartOf]
    . obtain ⟨ev, hev, hstart⟩ := h.inflight e ((List.kerase_sublist _ _).subset hmem)
      exact ⟨ev, List.mem_append_left _ hev, hstart⟩
  . intro k n
    have hslow := h.slow k n
    have hweight : (s.spawnGranted now slot item attempt).inflight.weight (fun _ r => unmarked k n r)
        = unmarked k n ⟨item, attempt, now, false⟩
          + (s.inflight.erase slot).weight (fun _ r => unmarked k n r) :=
      AList.weight_insert _ _ _ _
    have hle := AList.weight_erase_le (fun _ r => unmarked k n r) slot s.inflight
    have hstart : [TestEvent.testStarted item.binaryId item.testName item.cls attempt].countP
        (TestEvent.isStartOf k n) = unmarked k n ⟨item, attempt, now, false⟩ := by
      simp only [List.countP_singleton, TestEvent.isStartOf, unmarked, and_true]
      by_cases hk : (item.binaryId, item.testName) = k <;> by_cases hn : attempt = n <;> simp [hk, hn]
    rw [hevents, hweight, List.countP_append, List.countP_append, hstart]
    have hnone : [TestEvent.testStarted item.binaryId item.testName item.cls attempt].countP
        (TestEvent.isSlowOf k n) = 0 := rfl
    omega

theorem StreamInv.pump (h : StreamInv cfg s) (hcancelled : s.cancelled = none)
    (htripped : s.failFastTripped = false) (now : Nat)
    : StreamInv cfg (s.pump cfg now) := by
  have hall : StreamInv cfg (s.pump cfg now) ∧ (s.pump cfg now).cancelled = none
      ∧ (s.pump cfg now).failFastTripped = false := by
    apply pump_induction (I := fun t => StreamInv cfg t ∧ t.cancelled = none ∧ t.failFastTripped = false) ?_
      ⟨h, hcancelled, htripped⟩
    rintro t slot item attempt rest ⟨ht, hcancelled, htripped⟩
    have hready : StreamInv cfg t := ht.same ⟨by simp, rfl, fun h => h, fun h => h, .refl _⟩
    refine ⟨?_, hcancelled, htripped⟩
    apply (hready.spawnGranted hcancelled htripped now slot item attempt).same
    exact ⟨by simp, rfl, fun h => h, fun h => h, .refl _⟩
  exact hall.1

theorem StreamInv.admitGrants (h : StreamInv cfg s) (grants : List Admitted) (now : Nat)
    : StreamInv cfg (s.admitGrants cfg grants now) := by
  unfold LoopState.admitGrants
  split
  . next hopen =>
    simp only [Bool.and_eq_true, Bool.not_eq_true'] at hopen
    have hext := Extends.placeGrants s grants
    have hcancelled : s.cancelled = none := by
      by_contra hne
      have := h.flagged hne
      rw [hopen.2] at this
      cases this
    apply (h.same hext).pump
    . rw [hext.cancelled]
      exact hcancelled
    . rw [(placed s grants).frame.failFastTripped]
      exact hopen.1
  . exact h

theorem Ended.trips {running : Running} {outcome : TestOutcome} {stats : RunStats} {tripped : Bool}
    (h : Ended cfg s running outcome stats tripped)
    : (s.failFastTripped = true → tripped = true)
      ∧ (cfg.failFast = true → outcome.verdict ≠ .pass → outcome.verdict ≠ .terminated →
          tripped = true) := by
  cases h with
  | passed hverdict => exact ⟨fun h => h, fun _ hne => absurd hverdict hne⟩
  | terminated hverdict => exact ⟨fun h => h, fun _ _ hne => absurd hverdict hne⟩
  | failed _ _ =>
    constructor
    . intro h
      simp [h]
    . intro h _ _
      simp [h]

theorem StreamInv.settle {running : Running} {outcome : TestOutcome} (h : StreamInv cfg s)
    (hstarted : ∃ e ∈ s.events,
      e.isStartOf (running.item.binaryId, running.item.testName) running.attempt = true)
    (hsettle : s.settle cfg running outcome = .ok s')
    : StreamInv cfg s' ∧ ∃ new, Extends s s' new := by
  rcases settle_cases s cfg with ⟨_, heq⟩ | ⟨_, stats, tripped, hended, heq⟩
  . rw [heq] at hsettle
    have hemit : Extends s (s.emitRetrying running outcome) _ :=
      ⟨rfl, rfl, fun h => h, fun h => h, .refl _⟩
    obtain ⟨_, new, hext, hnew⟩ := Quietly.file hsettle
    constructor
    . apply (h.quiet hemit ?_).quiet hext hnew
      simp [TestEvent.quiet]
    . exact ⟨_, hemit.trans hext⟩
  . rw [heq] at hsettle
    cases hsettle
    have hext : Extends s { s.emitFinished running outcome with stats, failFastTripped := tripped }
        [.testFinished running.item.binaryId running.item.testName outcome.verdict outcome.duration
          running.attempt outcome.output outcome.components] :=
      ⟨rfl, rfl, fun h => h, hended.trips.1, .refl _⟩
    refine ⟨?_, _, hext⟩
    apply h.extend hext
    intro ev hev
    rw [List.mem_singleton.mp hev]
    refine .inr ⟨_, _, _, _, _, _, _, rfl, hstarted, ?_⟩
    intro htrips
    simp only [TestEvent.trips, Bool.and_eq_true, decide_eq_true_eq] at htrips
    exact hended.trips.2 htrips.1.1 htrips.1.2 htrips.2

theorem Extends.released (s : LoopState) (lease : SlotId) (sched : Scheduler)
    : Extends s (s.released lease sched) [] := by
  refine ⟨by simp [LoopState.released], rfl, fun h => h, fun h => h, ?_⟩
  exact List.kerase_sublist lease s.inflight.entries

theorem StreamInv.complete {now : Nat} {lease : SlotId} {outcome : TestOutcome}
    {raiseRetry raiseAdmit : Bool} (h : StreamInv cfg s)
    (hok : s.complete cfg now lease outcome raiseRetry raiseAdmit = .ok s')
    : StreamInv cfg s' := by
  obtain ⟨running, sched, grants, t, _, hrunning, _, hsettle, rfl⟩ := complete_ok hok
  have hext := (Extends.released s lease sched).trans (.raise _ raiseRetry)
  have hstarted := h.inflight ⟨lease, running⟩ (AList.mem_lookup_iff.mp hrunning)
  have ht := ((h.same hext).settle (s := (s.released lease sched).raise raiseRetry) hstarted hsettle).1
  exact ((ht.same (.raise t raiseAdmit)).admitGrants grants now).same (.publishDemand _ cfg)

theorem StreamInv.moveCeiling {now : Nat} {newCeiling : Resources} {raiseAdmit : Bool}
    (h : StreamInv cfg s) (hok : s.moveCeiling cfg now newCeiling raiseAdmit = .ok s')
    : StreamInv cfg s' := by
  obtain ⟨sched, grants, _, _, rfl⟩ := moveCeiling_ok hok
  have hext : Extends s { s with sched } [] := ⟨by simp, rfl, fun h => h, fun h => h, .refl _⟩
  exact (((h.same hext).same (.raise _ raiseAdmit)).admitGrants grants now).same
    (.publishDemand _ cfg)

theorem StreamInv.loopTop (h : StreamInv cfg s) : StreamInv cfg s.loopTop := by
  unfold LoopState.loopTop
  split
  . next hraised =>
    simp only [Bool.and_eq_true, decide_eq_true_eq] at hraised
    obtain ⟨hcancelled, hflag⟩ := hraised
    constructor
    . exact h.first_append rfl (by simp [TestEvent.isRunStarted])
    . exact h.unfinished_append rfl (by simp [TestEvent.isRunFinished])
    . have hcount := h.cancelling
      rw [if_pos hcancelled] at hcount
      simp [emit, hcount, TestEvent.isRunCancelling]
    . exact fun _ => hflag
    . exact h.tripped_append rfl (fun h => h) (by simp [TestEvent.trips])
    . exact h.justified.concat trivial
    . intro e he
      obtain ⟨ev, hev, hstart⟩ := h.inflight e he
      exact ⟨ev, List.mem_append_left _ hev, hstart⟩
    . intro k attempt
      have hslow := h.slow k attempt
      simpa [emit, TestEvent.isSlowOf, TestEvent.isStartOf] using hslow
  . exact h

def marked (now after : Nat) (r : Running) : Running :=
  { r with slowEmitted := r.slowEmitted || after ≤ now - r.started }

def slowEvent (now after : Nat) (r : Running) : Option TestEvent :=
  if r.slowEmitted && after ≤ now - r.started then
    some (.testSlow r.item.binaryId r.item.testName (now - r.started) false r.attempt)
  else
    none

/--
A tick that meets no attempt marked before: what it reports is what it marks.
-/
theorem countP_slowEvents_add {now after : Nat} (k : String × String) (attempt : Nat)
    (l : List (Sigma fun _ : SlotId => Running))
    (hfresh : ∀ e ∈ l, e.2.slowEmitted = true → now - e.2.started < after)
    : (l.filterMap fun e => slowEvent now after (marked now after e.2)).countP
          (TestEvent.isSlowOf k attempt)
        + (l.map fun e => unmarked k attempt (marked now after e.2)).sum
      = (l.map fun e => unmarked k attempt e.2).sum := by
  induction l with
  | nil => rfl
  | cons e l ih =>
    have hrest := ih fun e he => hfresh e (List.mem_cons_of_mem _ he)
    rw [List.map_cons, List.sum_cons, List.map_cons, List.sum_cons]
    by_cases hpast : after ≤ now - e.2.started
    . have hfirst : e.2.slowEmitted = false := by
        cases hslow : e.2.slowEmitted with
        | false => rfl
        | true =>
          have := hfresh e List.mem_cons_self hslow
          omega
      have hevent : slowEvent now after (marked now after e.2)
          = some (.testSlow e.2.item.binaryId e.2.item.testName (now - e.2.started) false
              e.2.attempt) := by
        simp [slowEvent, marked, hpast]
      have hone : unmarked k attempt e.2 = if TestEvent.isSlowOf k attempt
          (.testSlow e.2.item.binaryId e.2.item.testName (now - e.2.started) false e.2.attempt) = true
          then 1 else 0 := by
        simp [unmarked, TestEvent.isSlowOf, hfirst]
      have hzero : unmarked k attempt (marked now after e.2) = 0 := by
        simp [unmarked, marked, hpast]
      simp only [List.filterMap_cons, hevent, List.countP_cons, hzero, hone]
      omega
    . have hevent : slowEvent now after (marked now after e.2) = none := by
        simp [slowEvent, marked, hpast]
      have hsame : marked now after e.2 = e.2 := by
        simp [marked, hpast]
      simp only [List.filterMap_cons, hevent]
      rw [hsame]
      omega

-- A tick finds no running attempt that an earlier tick marked and that is past the threshold.
def SlowFresh (cfg : LoopConfig) (s : LoopState) (input : Input) : Prop :=
  match input with
  | .select .tick now => ∀ after, cfg.slowAfter = some after → ∀ e ∈ s.inflight.entries,
      e.2.slowEmitted = true → now - e.2.started < after
  | _ => True

theorem StreamInv.tick {now : Nat} (h : StreamInv cfg s) (hfresh : SlowFresh cfg s (.select .tick now))
    : StreamInv cfg (s.tick cfg now) := by
  unfold LoopState.tick
  split
  . exact h
  . next after hafter =>
    have hnew : ∀ ev ∈ (s.markSlow now after).slowEvents now after, ∃ binaryId testName elapsed attempt,
        ev = .testSlow binaryId testName elapsed false attempt := by
      intro ev hev
      obtain ⟨e, _, he⟩ := List.mem_filterMap.mp hev
      split at he
      . cases he
        exact ⟨_, _, _, _, rfl⟩
      . cases he
    have hsilent : ∀ p : TestEvent → Bool, (∀ b t d a, p (.testSlow b t d false a) = false) →
        ∀ ev ∈ (s.markSlow now after).slowEvents now after, p ev = false := by
      intro p hp ev hev
      obtain ⟨b, t, d, a, rfl⟩ := hnew ev hev
      exact hp b t d a
    constructor
    . exact h.first_append rfl (hsilent _ fun _ _ _ _ => rfl)
    . exact h.unfinished_append rfl (hsilent _ fun _ _ _ _ => rfl)
    . have hcount := countP_eq_zero_of_silent (hsilent TestEvent.isRunCancelling fun _ _ _ _ => rfl)
      change (s.events ++ (s.markSlow now after).slowEvents now after).countP _ = _
      rw [List.countP_append, hcount]
      exact h.cancelling
    . exact h.flagged
    . intro ev hev htrips
      rcases List.mem_append.mp hev with hev | hev
      . exact h.tripped ev hev htrips
      . rw [hsilent (TestEvent.trips cfg) (fun _ _ _ _ => rfl) ev hev] at htrips
        cases htrips
    . apply h.justified.append
      intro pre ev post heq
      obtain ⟨b, t, d, a, rfl⟩ := hnew ev (by simp [heq])
      trivial
    . intro e he
      obtain ⟨e₀, he₀, rfl⟩ := List.mem_map.mp he
      obtain ⟨ev, hev, hstart⟩ := h.inflight e₀ he₀
      exact ⟨ev, List.mem_append_left _ hev, hstart⟩
    . intro k attempt
      have hslow := h.slow k attempt
      have hsum := countP_slowEvents_add k attempt s.inflight.entries (hfresh after hafter)
      have hstart := countP_eq_zero_of_silent
        (hsilent (TestEvent.isStartOf k attempt) fun _ _ _ _ => rfl)
      have hevents : (s.markSlow now after).slowEvents now after
          = s.inflight.entries.filterMap fun e => slowEvent now after (marked now after e.2) := by
        simp only [slowEvents, markSlow, AList.mapVals, List.filterMap_map]
        rfl
      have hweight : (s.markSlow now after).inflight.weight (fun _ r => unmarked k attempt r)
          = (s.inflight.entries.map fun e => unmarked k attempt (marked now after e.2)).sum := by
        simp only [AList.weight, markSlow, AList.mapVals, List.map_map]
        rfl
      change (s.events ++ (s.markSlow now after).slowEvents now after).countP _
          + (s.markSlow now after).inflight.weight _
        ≤ (s.events ++ (s.markSlow now after).slowEvents now after).countP _
      rw [List.countP_append, List.countP_append, hstart, hweight, hevents]
      simp only [AList.weight] at hslow
      omega

theorem StreamInv.step {input : Input} {r : Unit} (h : StreamInv cfg s)
    (hfresh : SlowFresh cfg s input) (hok : LoopState.step cfg s input = .ok (s', r))
    : StreamInv cfg s' := by
  rcases step_cases hok with ⟨_, rfl⟩ | ⟨arm, now, rfl, _, hrun⟩
  . apply h.same
    exact ⟨by simp, rfl, fun _ => rfl, fun h => h, .refl _⟩
  . have htop := h.loopTop
    cases arm with
    | cancelWake =>
      rw [cancelWake_ok hrun]
      exact htop.same (.raise _ true)
    | complete lease outcome raiseRetry raiseAdmit => exact htop.complete hrun
    | ceiling newCeiling raiseAdmit => exact htop.moveCeiling hrun
    | tick =>
      cases hrun
      apply htop.tick
      intro after hafter e he
      have hentries : s.loopTop.inflight = s.inflight := by
        unfold LoopState.loopTop
        split <;> rfl
      rw [hentries] at he
      exact hfresh after hafter e he

theorem StreamInv.init (cfg : LoopConfig) (items : List WorkItem) (ceiling : Resources)
    (cancelFlag : Bool) (now : Nat)
    : StreamInv cfg (init cfg items ceiling cancelFlag now) := by
  constructor
  . exact ⟨_, _, [], rfl, by simp⟩
  . simp [LoopState.init, TestEvent.isRunFinished]
  . rfl
  . exact fun h => absurd rfl h
  . simp [LoopState.init, TestEvent.trips]
  . exact Trace.before_nil.concat (l := []) trivial
  . intro e he
    cases he
  . exact fun _ _ => Nat.le_refl _

theorem StreamInv.start {ceiling : Resources} {cancelFlag : Bool} {now : Nat}
    (hok : start cfg items ceiling cancelFlag now = .ok s)
    : StreamInv cfg s := by
  unfold LoopState.start at hok
  split at hok
  . next t ht =>
    cases hok
    obtain ⟨htripped, new, hext, hnew⟩ := Quietly.submitAll ht
    have hinv := (StreamInv.init cfg items ceiling cancelFlag now).quiet hext hnew
    exact (hinv.pump hext.cancelled htripped now).same (.publishDemand _ cfg)
  . cases hok

def NeverRun (items : List WorkItem) (s : LoopState) : Prop :=
  ∃ item ∈ items, ∀ ev ∈ s.events, ev.settledKey ≠ some (key item)

theorem NeverRun.of_extends {new : List TestEvent} (h : NeverRun items s')
    (hevents : s'.events = s.events ++ new)
    : NeverRun items s := by
  obtain ⟨item, hitem, hno⟩ := h
  refine ⟨item, hitem, ?_⟩
  intro ev hev
  apply hno
  rw [hevents]
  exact List.mem_append_left _ hev

/--
The flag does not rise within the completion of the last running test, unless every test ran or
fail-fast has closed the run.
-/
def CancelSeen (cfg : LoopConfig) (items : List WorkItem) (s : LoopState) (input : Input) : Prop :=
  match input with
  | .select (.complete lease outcome raiseRetry raiseAdmit) _ =>
    s.cancelFlag = false → s.futs = [lease] → (raiseRetry || raiseAdmit) = true →
      NeverRun items s → s.failFastTripped = false →
        ∀ running, s.inflight.lookup lease = some running →
          cfg.failFast = true ∧ outcome.verdict ≠ .pass ∧ outcome.verdict ≠ .terminated
            ∧ ¬(s.raise raiseRetry).Retried running outcome
  | _ => True

theorem settle_tripped {running : Running} {outcome : TestOutcome}
    (hsettle : s.settle cfg running outcome = .ok s') (hfast : cfg.failFast = true)
    (hpass : outcome.verdict ≠ .pass) (hterminated : outcome.verdict ≠ .terminated)
    (hretried : ¬s.Retried running outcome)
    : s'.failFastTripped = true := by
  rcases settle_cases s cfg with ⟨h, _⟩ | ⟨_, stats, tripped, hended, heq⟩
  . exact absurd h hretried
  . rw [heq] at hsettle
    cases hsettle
    exact hended.trips.2 hfast hpass hterminated

/--
A loop that ends with the flag set, the flag having risen within the last completion: no test is left
that never ran, or fail-fast has closed the run.
-/
theorem CancelSeen.complete {now : Nat} {lease : SlotId} {outcome : TestOutcome}
    {raiseRetry raiseAdmit : Bool}
    (hseen : CancelSeen cfg items s (.select (.complete lease outcome raiseRetry raiseAdmit) now))
    (hinv : StreamInv cfg s) (hflag : s.cancelFlag = false)
    (hok : s.complete cfg now lease outcome raiseRetry raiseAdmit = .ok s') (hidle : s'.futs = [])
    (hflag' : s'.cancelFlag = true) (htripped : s'.failFastTripped = false)
    : ¬NeverRun items s' := by
  intro hnever
  obtain ⟨running, sched, grants, t, hmem, hrunning, _, hsettle, rfl⟩ := complete_ok hok
  obtain ⟨htfuts, htflag⟩ := settle_keeps hsettle
  have hstarted := hinv.inflight ⟨lease, running⟩ (AList.mem_lookup_iff.mp hrunning)
  have hfrom := (Extends.released s lease sched).trans (.raise _ raiseRetry)
  obtain ⟨_, new, hext⟩ := (hinv.same hfrom).settle (s := (s.released lease sched).raise raiseRetry)
    hstarted hsettle
  -- The frame of what follows the settling.
  have hframe := (admitGrants_frame (t.raise raiseAdmit) cfg grants now).trans
    (publishDemand_frame _ cfg)
  rw [hframe.failFastTripped] at htripped
  rw [hframe.cancelFlag] at hflag'
  rw [publishDemand_futs] at hidle
  have hlast : s.futs = [lease] := by
    have hnil : s.futs.erase lease = [] := by
      have hsub := admitGrants_futs (t.raise raiseAdmit) cfg grants now
      rw [hidle] at hsub
      exact htfuts.symm.trans (List.subset_nil.mp hsub)
    rcases List.erase_eq_nil_iff.mp hnil with h | h
    . rw [h] at hmem
      cases hmem
    . exact h
  have hraised : (raiseRetry || raiseAdmit) = true := by
    have htflag' : t.cancelFlag = (s.cancelFlag || raiseRetry) := htflag
    simpa [LoopState.raise, htflag', hflag] using hflag'
  rw [admitGrants_of_closed (.inr hflag')] at hnever
  have hevents : ((t.raise raiseAdmit).publishDemand cfg).events = s.events ++ new := by
    rw [(Extends.publishDemand _ cfg).events, List.append_nil]
    exact hext.events
  have hopen : s.failFastTripped = false := by
    cases hs : s.failFastTripped with
    | false => rfl
    | true =>
      have := hext.failFastTripped hs
      exact absurd (htripped.symm.trans this) (by simp)
  obtain ⟨hfast, hpass, hterminated, hretried⟩ :=
    hseen hflag hlast hraised (hnever.of_extends hevents) hopen running hrunning
  have htrips := settle_tripped hsettle hfast hpass hterminated hretried
  exact absurd (htripped.symm.trans htrips) (by simp)

theorem runArm_cancelled {arm : Arm} {now : Nat} (hok : s.runArm cfg arm now = .ok s')
    (hinv : StreamInv cfg s)
    : s'.cancelled = s.cancelled := by
  cases arm with
  | cancelWake =>
    rw [cancelWake_ok hok]
    rfl
  | complete lease outcome raiseRetry raiseAdmit =>
    obtain ⟨running, sched, grants, t, _, hrunning, _, hsettle, rfl⟩ := complete_ok hok
    have hstarted := hinv.inflight ⟨lease, running⟩ (AList.mem_lookup_iff.mp hrunning)
    have hfrom := (Extends.released s lease sched).trans (.raise _ raiseRetry)
    obtain ⟨_, new, hext⟩ := (hinv.same hfrom).settle
      (s := (s.released lease sched).raise raiseRetry) hstarted hsettle
    have hframe := (admitGrants_frame (t.raise raiseAdmit) cfg grants now).trans
      (publishDemand_frame _ cfg)
    exact hframe.cancelled.trans hext.cancelled
  | ceiling newCeiling raiseAdmit =>
    obtain ⟨sched, grants, _, _, rfl⟩ := moveCeiling_ok hok
    exact ((admitGrants_frame ({ s with sched }.raise raiseAdmit) cfg grants now).trans
      (publishDemand_frame _ cfg)).cancelled
  | tick =>
    cases hok
    exact (Frame.tick s cfg now).cancelled

/--
The wake-up that ends the loop with tests left that never ran, the flag set and fail-fast not tripped,
has announced the cancellation.
-/
theorem StreamInv.announced {arm : Arm} {now : Nat} {r : Unit} (h : StreamInv cfg s)
    (hfresh : SlowFresh cfg s (.select arm now)) (hseen : CancelSeen cfg items s (.select arm now))
    (hok : LoopState.step cfg s (.select arm now) = .ok (s', r)) (hidle : s'.futs = [])
    (hflag : s'.cancelFlag = true) (htripped : s'.failFastTripped = false)
    (hnever : NeverRun items s')
    : ∃ ev ∈ s'.events, ev.isRunCancelling = true := by
  have hinv := h.step hfresh hok
  rcases step_cases hok with ⟨hinput, _⟩ | ⟨arm', now', hinput, hfuts, hrun⟩
  . cases hinput
  . cases hinput
    cases hs : s.cancelFlag with
    | true =>
      have htop : s.loopTop.cancelled ≠ none := by
        unfold LoopState.loopTop
        split
        . simp
        . next hno =>
          simpa [hs] using hno
      have hcancelled : s'.cancelled ≠ none := by
        rw [runArm_cancelled hrun h.loopTop]
        exact htop
      have hcount := hinv.cancelling
      rw [if_neg hcancelled] at hcount
      have hpos : 0 < s'.events.countP TestEvent.isRunCancelling := by omega
      simpa using List.countP_pos_iff.mp hpos
    | false =>
      have htop : s.loopTop = s := by
        simp [LoopState.loopTop, hs]
      rw [htop] at hrun
      cases arm with
      | complete lease outcome raiseRetry raiseAdmit =>
        exact absurd hnever (hseen.complete h hs hrun hidle hflag htripped)
      | _ =>
        apply absurd hidle
        apply runArm_futs_ne_nil hrun hfuts
        intro _ _ _ _ harm
        cases harm

theorem events_of_idle {inputs : List Input} (hexec : Run.exec (step cfg) s inputs = .ok s')
    (hidle : s.futs = [])
    : s'.events = s.events := by
  induction inputs generalizing s with
  | nil =>
    cases hexec
    rfl
  | cons i is ih =>
    obtain ⟨t, r, hstep, hrest⟩ := Run.exec_cons_ok hexec
    rcases step_cases hstep with ⟨_, rfl⟩ | ⟨arm, now, _, hne, _⟩
    . have hsame := ih hrest hidle
      exact hsame
    . exact absurd hidle hne

theorem StreamInv.contract (h : StreamInv cfg s) (now : Nat)
    : StreamContract cfg (s.finish now).events := by
  constructor
  . exact h.first_append rfl (by simp [TestEvent.isRunStarted])
  . exact ⟨_, _, s.events, rfl, h.unfinished⟩
  . have hcount := h.cancelling
    simp only [finish, emit, List.countP_append, hcount]
    split <;> simp [TestEvent.isRunCancelling]
  . exact h.justified.concat trivial
  . intro k attempt
    have hslow := h.slow k attempt
    simp only [finish, emit, List.countP_append]
    have hnone : [TestEvent.runFinished s.stats (now - s.origin)].countP
        (TestEvent.isSlowOf k attempt) = 0 := rfl
    omega

/--
The wake-up that ended the loop left a test that never ran, with the flag set and fail-fast not
tripped.
-/
def StoppedByCancel (cfg : LoopConfig) (items : List WorkItem) (s₀ : LoopState) (inputs : List Input)
    : Prop :=
  ∃ pre arm now post t u, inputs = pre ++ .select arm now :: post
    ∧ Run.exec (step cfg) s₀ pre = .ok t ∧ step cfg t (.select arm now) = .ok (u, ())
    ∧ u.futs = [] ∧ u.cancelFlag = true ∧ u.failFastTripped = false ∧ NeverRun items u

/--
A run in which no tick meets an attempt that an earlier one reported, and in which the flag does not
rise within the completion that ends the loop: its events obey the contract, and a run that cancel
stopped short has announced it before `RunFinished`.
-/
theorem run_stream (cfg : LoopConfig) (items : List WorkItem) (ceiling : Resources)
    (cancelFlag : Bool) (now : Nat) (inputs : List Input) (s₀ s : LoopState)
    (hstart : start cfg items ceiling cancelFlag now = .ok s₀)
    (halong : Run.Along (step cfg) (fun s i => SlowFresh cfg s i ∧ CancelSeen cfg items s i) s₀ inputs)
    (hexec : Run.exec (step cfg) s₀ inputs = .ok s) (ended : Nat)
    : StreamContract cfg (s.finish ended).events
      ∧ (StoppedByCancel cfg items s₀ inputs → ∃ ev ∈ s.events, ev.isRunCancelling = true) := by
  have hinit := StreamInv.start hstart
  have hstep : ∀ s i s' r, StreamInv cfg s → SlowFresh cfg s i ∧ CancelSeen cfg items s i →
      step cfg s i = .ok (s', r) → StreamInv cfg s' :=
    fun s i s' r h hmeets hok => h.step hmeets.1 hok
  constructor
  . exact (Run.exec_invariant_along hstep hinit halong hexec).contract ended
  . rintro ⟨pre, arm, n, post, t, u, rfl, hpre, hlast, hidle, hflag, htripped, hnever⟩
    have ht := Run.exec_invariant_along hstep hinit halong.left hpre
    obtain ⟨hfresh, hseen⟩ := halong.get hpre
    have hrest : Run.exec (step cfg) u post = .ok s := by
      rw [Run.exec_append hpre] at hexec
      obtain ⟨u', r, hstep', hrest⟩ := Run.exec_cons_ok hexec
      cases hlast.symm.trans hstep'
      exact hrest
    rw [events_of_idle hrest hidle]
    exact ht.announced hfresh hseen hlast hidle hflag htripped hnever

-- `a` is slow at the tick, the flag is raised while it runs, `b` never starts.
theorem run_stream_interrupted
    : ∃ s₀ s, start ⟨false, some 5, "acme", "run", ∅, none, false, false⟩
          [⟨"bin", "a", .wallet, ⟨2, 2, 0, 0, 0⟩, 0, []⟩,
            ⟨"bin", "b", .wallet, ⟨2, 2, 0, 0, 0⟩, 0, []⟩] ⟨2, 2, 0, 0, 0⟩ false 0 = .ok s₀
        ∧ Run.exec (step ⟨false, some 5, "acme", "run", ∅, none, false, false⟩) s₀
            [.select .tick 7, .interrupt,
              .select (.complete ⟨0⟩ ⟨.terminated, [], [], 8⟩ false false) 8] = .ok s
        ∧ s.futs = [] ∧ s.stats.notRun = 1
        ∧ StreamContract ⟨false, some 5, "acme", "run", ∅, none, false, false⟩ (s.finish 9).events := by
  refine ⟨_, _, rfl, rfl, rfl, rfl, ?_⟩
  have hstream := run_stream ⟨false, some 5, "acme", "run", ∅, none, false, false⟩
    [⟨"bin", "a", .wallet, ⟨2, 2, 0, 0, 0⟩, 0, []⟩, ⟨"bin", "b", .wallet, ⟨2, 2, 0, 0, 0⟩, 0, []⟩]
    ⟨2, 2, 0, 0, 0⟩ false 0
    [.select .tick 7, .interrupt,
      .select (.complete ⟨0⟩ ⟨.terminated, [], [], 8⟩ false false) 8] _ _ rfl ?_ rfl 9
  . exact hstream.1
  . refine ⟨⟨?_, trivial⟩, ?_⟩
    . intro after _ e he hslow
      rw [List.mem_singleton.mp he] at hslow
      cases hslow
    . intro s' r hstep
      cases hstep
      refine ⟨⟨trivial, trivial⟩, ?_⟩
      intro s' r hstep
      cases hstep
      refine ⟨⟨trivial, ?_⟩, fun _ _ _ => trivial⟩
      intro hflag
      cases hflag

-- Two ticks report the one attempt of `a` twice. A flag raised within the completion of `a`, while `b`
-- waits for its slot, ends the loop without a word.
theorem run_stream_broken
    : (∃ s, run ⟨false, some 5, "acme", "run", ∅, none, false, false⟩
          [⟨"bin", "a", .wallet, ⟨2, 2, 0, 0, 0⟩, 0, []⟩] ⟨2, 2, 0, 0, 0⟩ false 0
          [.select .tick 7, .select .tick 8,
            .select (.complete ⟨0⟩ ⟨.pass, [], [], 9⟩ false false) 9] = .ok s
        ∧ s.futs = []
        ∧ (s.finish 9).events.countP (TestEvent.isSlowOf ("bin", "a") 1) = 2
        ∧ (s.finish 9).events.countP (TestEvent.isStartOf ("bin", "a") 1) = 1)
      ∧ (∃ s, run ⟨false, none, "acme", "run", ∅, none, false, false⟩
          [⟨"bin", "a", .wallet, ⟨2, 2, 0, 0, 0⟩, 0, []⟩,
            ⟨"bin", "b", .wallet, ⟨2, 2, 0, 0, 0⟩, 0, []⟩] ⟨2, 2, 0, 0, 0⟩ false 0
          [.select (.complete ⟨0⟩ ⟨.pass, [], [], 1⟩ false true) 1] = .ok s
        ∧ s.futs = [] ∧ s.cancelFlag = true ∧ s.failFastTripped = false
        ∧ s.stats.notRun = 1
        ∧ ∀ ev ∈ (s.finish 2).events, ev.isRunCancelling = false) := by
  constructor
  . refine ⟨_, rfl, rfl, ?_, ?_⟩ <;> decide
  . refine ⟨_, rfl, rfl, rfl, rfl, rfl, ?_⟩
    decide

end LoopState
end Engine
