import Ztest.Engine.Schedule.Lemmas.Invariant
import Mathlib.Data.List.Induction
import Mathlib.Data.List.Perm.Subperm

namespace Engine

inductive Phase where
  | waiting (attempt : Nat)
  | running (attempt : Nat)
  | ended
  deriving DecidableEq

namespace TestEvent

-- The test an event moves on; a slow mark moves none.
def moved : TestEvent → Option (String × String)
  | .testStarted binaryId testName _ _ => some (binaryId, testName)
  | .testRetrying binaryId testName _ _ _ _ => some (binaryId, testName)
  | .testFinished binaryId testName _ _ _ _ _ => some (binaryId, testName)
  | .testSkipped binaryId testName _ => some (binaryId, testName)
  | _ => none

end TestEvent

inductive Moves (item : WorkItem) : Phase → TestEvent → Phase → Prop where
  | other {p : Phase} {ev : TestEvent} (hev : ev.moved ≠ some (key item)) : Moves item p ev p
  | start (cls : QosClass) (attempt : Nat)
    : Moves item (.waiting attempt) (.testStarted item.binaryId item.testName cls attempt) (.running attempt)
  | retry {attempt : Nat} {verdict : Verdict} (delay duration : Nat) (hverdict : verdict.retryable = true)
      (hattempt : attempt ≤ item.retries)
    : Moves item (.running attempt)
        (.testRetrying item.binaryId item.testName (attempt + 1) delay verdict duration) (.waiting (attempt + 1))
  | finish (attempt : Nat) (verdict : Verdict) (duration : Nat) (output components : List UInt8)
    : Moves item (.running attempt)
        (.testFinished item.binaryId item.testName verdict duration attempt output components) .ended
  | skip (attempt : Nat) (reason : SkipReason)
    : Moves item (.waiting attempt) (.testSkipped item.binaryId item.testName reason) .ended

inductive Lived (item : WorkItem) : List TestEvent → Phase → Prop where
  | nil : Lived item [] (.waiting 1)
  | snoc {evs : List TestEvent} {ev : TestEvent} {p q : Phase} (h : Lived item evs p) (hmove : Moves item p ev q)
    : Lived item (evs ++ [ev]) q

theorem Lived.append_other {item : WorkItem} {evs new : List TestEvent} {p : Phase} (h : Lived item evs p)
    (hnew : ∀ ev ∈ new, ev.moved ≠ some (key item))
    : Lived item (evs ++ new) p := by
  induction new generalizing evs with
  | nil =>
    rw [List.append_nil]
    exact h
  | cons ev new ih =>
    rw [← List.singleton_append, ← List.append_assoc]
    apply ih
    . exact h.snoc (.other (hnew ev List.mem_cons_self))
    . exact fun ev' hmem => hnew ev' (List.mem_cons_of_mem _ hmem)

section Word

variable {item : WorkItem} {evs pre post : List TestEvent} {ev : TestEvent} {p : Phase}

def TestEvent.startOf (k : String × String) : TestEvent → Option Nat
  | .testStarted binaryId testName _ attempt => if (binaryId, testName) = k then some attempt else none
  | _ => none

theorem moved_of_startOf {k : String × String} {attempt : Nat} (h : ev.startOf k = some attempt) : ev.moved = some k := by
  cases ev with
  | testStarted binaryId testName cls attempt =>
    simp only [TestEvent.startOf, Option.ite_none_right_eq_some] at h
    exact congrArg some h.1
  | _ => cases h

theorem moved_of_terminalKey {k : String × String} (h : ev.terminalKey = some k) : ev.moved = some k := by
  cases ev <;> first | exact h | cases h

theorem startOf_of_moved {k : String × String} (h : ev.moved ≠ some k) : ev.startOf k = none := by
  cases hstart : ev.startOf k with
  | none => rfl
  | some attempt => exact absurd (moved_of_startOf hstart) h

/--
What the events of a run say of one test.
-/
structure RetriesInOrder (item : WorkItem) (evs : List TestEvent) : Prop where
  starts : ∃ n ≤ item.retries + 1, evs.filterMap (TestEvent.startOf (key item)) = List.range' 1 n
  retried : ∀ pre post cls attempt,
    evs = pre ++ .testStarted item.binaryId item.testName cls (attempt + 1) :: post → attempt = 0 ∨
      ∃ before between after cls' delay verdict duration, verdict.retryable = true ∧
        pre = before ++ .testStarted item.binaryId item.testName cls' attempt :: (between ++
          .testRetrying item.binaryId item.testName (attempt + 1) delay verdict duration :: after)
  once : evs.countP (fun ev => ev.terminalKey = some (key item)) ≤ 1
  last : ∀ pre ev post, evs = pre ++ ev :: post → ev.terminalKey = some (key item) →
    ∀ ev' ∈ post, ev'.startOf (key item) = none

def Phase.After (item : WorkItem) (n : Nat) : Phase → Prop
  | .waiting attempt => attempt = n + 1 ∧ n ≤ item.retries
  | .running attempt => attempt = n ∧ n ≤ item.retries + 1
  | .ended => n ≤ item.retries + 1

theorem Lived.starts (h : Lived item evs p)
    : ∃ n, p.After item n ∧ evs.filterMap (TestEvent.startOf (key item)) = List.range' 1 n := by
  induction h with
  | nil => exact ⟨0, ⟨rfl, Nat.zero_le _⟩, rfl⟩
  | snoc _ hmove ih =>
    rcases ih with ⟨n, hafter, hstarts⟩
    rw [List.filterMap_append, hstarts]
    cases hmove with
    | other hev => exact ⟨n, hafter, by simp [startOf_of_moved hev]⟩
    | start cls attempt =>
      rcases hafter with ⟨rfl, hle⟩
      refine ⟨n + 1, ⟨rfl, Nat.succ_le_succ hle⟩, ?_⟩
      simp [TestEvent.startOf, key, List.range'_1_concat, Nat.add_comm]
    | retry delay duration _ hattempt =>
      rcases hafter with ⟨rfl, _⟩
      exact ⟨_, ⟨rfl, hattempt⟩, by simp [TestEvent.startOf]⟩
    | finish =>
      rcases hafter with ⟨rfl, hle⟩
      exact ⟨_, hle, by simp [TestEvent.startOf]⟩
    | skip attempt reason =>
      rcases hafter with ⟨_, hle⟩
      exact ⟨n, Nat.le_succ_of_le hle, by simp [TestEvent.startOf]⟩

theorem Lived.once (h : Lived item evs p)
    : evs.countP (fun ev => ev.terminalKey = some (key item)) = if p = .ended then 1 else 0 := by
  induction h with
  | nil => rfl
  | snoc _ hmove ih =>
    rw [List.countP_append, ih]
    cases hmove with
    | other hev =>
      have hnone : ∀ {ev : TestEvent}, ev.moved ≠ some (key item) → ev.terminalKey ≠ some (key item) :=
        fun hev hkey => hev (moved_of_terminalKey hkey)
      simp [hnone hev]
    | start => simp [TestEvent.terminalKey]
    | retry => simp [TestEvent.terminalKey]
    | finish => simp [TestEvent.terminalKey, key]
    | skip => simp [TestEvent.terminalKey, key]

theorem Lived.snoc_inv {q : Phase} (h : Lived item (evs ++ [ev]) q) : ∃ p, Lived item evs p ∧ Moves item p ev q := by
  generalize heq : evs ++ [ev] = evs' at h
  cases h with
  | nil => exact absurd heq (by simp)
  | snoc h hmove =>
    rcases List.append_inj' heq rfl with ⟨rfl, hev⟩
    cases hev
    exact ⟨_, h, hmove⟩

theorem Lived.left (h : Lived item (pre ++ post) p) : ∃ q, Lived item pre q := by
  induction post using List.reverseRecOn generalizing p with
  | nil =>
    rw [List.append_nil] at h
    exact ⟨p, h⟩
  | append_singleton post ev ih =>
    rw [← List.append_assoc] at h
    rcases h.snoc_inv with ⟨q, hq, _⟩
    exact ih hq

theorem Lived.at_event (h : Lived item (pre ++ ev :: post) p) : ∃ q q', Lived item pre q ∧ Moves item q ev q' := by
  rw [← List.singleton_append, ← List.append_assoc] at h
  rcases h.left with ⟨q', hq'⟩
  rcases hq'.snoc_inv with ⟨q, hq, hmove⟩
  exact ⟨q, q', hq, hmove⟩

theorem Moves.ended_of_terminal {q : Phase} (h : Moves item p ev q) (hev : ev.terminalKey = some (key item)) : q = .ended := by
  cases h with
  | other hother => exact absurd (moved_of_terminalKey hev) hother
  | start => cases hev
  | retry => cases hev
  | finish => rfl
  | skip => rfl

theorem Lived.last (h : Lived item (pre ++ ev :: post) p) (hev : ev.terminalKey = some (key item))
    : p = .ended ∧ ∀ ev' ∈ post, ev'.startOf (key item) = none := by
  induction post using List.reverseRecOn generalizing p with
  | nil =>
    rcases h.snoc_inv with ⟨_, _, hmove⟩
    exact ⟨hmove.ended_of_terminal hev, by simp⟩
  | append_singleton post ev' ih =>
    rw [← List.cons_append, ← List.append_assoc] at h
    rcases h.snoc_inv with ⟨q, hq, hmove⟩
    rcases ih hq with ⟨rfl, hpost⟩
    cases hmove with
    | other hother =>
      refine ⟨rfl, ?_⟩
      intro ev'' hmem
      rcases List.mem_append.mp hmem with hmem | hmem
      . exact hpost ev'' hmem
      . rw [List.mem_singleton.mp hmem]
        exact startOf_of_moved hother

theorem Lived.running {attempt : Nat} (h : Lived item evs (.running attempt))
    : ∃ before after cls, evs = before ++ .testStarted item.binaryId item.testName cls attempt :: after := by
  generalize hp : Phase.running attempt = p at h
  induction h with
  | nil => cases hp
  | @snoc evs ev _ _ _ hmove ih =>
    cases hmove with
    | other =>
      rcases ih hp with ⟨before, after, cls, rfl⟩
      exact ⟨before, after ++ [ev], cls, by simp⟩
    | start cls =>
      cases hp
      exact ⟨evs, [], cls, rfl⟩
    | retry => cases hp
    | finish => cases hp
    | skip => cases hp

theorem Lived.waiting {attempt : Nat} (h : Lived item evs (.waiting (attempt + 1)))
    : attempt = 0 ∨ ∃ before between after cls delay verdict duration, Verdict.retryable verdict = true ∧
        evs = before ++ .testStarted item.binaryId item.testName cls attempt :: (between ++
          .testRetrying item.binaryId item.testName (attempt + 1) delay verdict duration :: after) := by
  generalize hp : Phase.waiting (attempt + 1) = p at h
  induction h with
  | nil =>
    cases hp
    exact .inl rfl
  | @snoc evs ev _ _ hlived hmove ih =>
    cases hmove with
    | other =>
      rcases ih hp with hzero | ⟨before, between, after, cls, delay, verdict, duration, hverdict, rfl⟩
      . exact .inl hzero
      . exact .inr ⟨before, between, after ++ [ev], cls, delay, verdict, duration, hverdict, by simp⟩
    | start => cases hp
    | retry delay duration hverdict =>
      cases hp
      rcases hlived.running with ⟨before, between, cls, rfl⟩
      exact .inr ⟨before, between, [], cls, delay, _, duration, hverdict, by simp⟩
    | finish => cases hp
    | skip => cases hp

theorem Lived.inOrder (h : Lived item evs p) : RetriesInOrder item evs := by
  constructor
  . rcases h.starts with ⟨n, hafter, hstarts⟩
    refine ⟨n, ?_, hstarts⟩
    cases p with
    | waiting => exact Nat.le_succ_of_le hafter.2
    | running => exact hafter.2
    | ended => exact hafter
  . rintro pre post cls attempt rfl
    rcases h.at_event with ⟨q, _, hq, hmove⟩
    cases hmove with
    | other hother => exact absurd rfl hother
    | start => exact hq.waiting
  . rw [h.once]
    split <;> decide
  . rintro pre ev post rfl hev
    exact (h.last hev).2

end Word

namespace LoopState

open Qos

variable {cfg : LoopConfig} {items : List WorkItem} {s s' : LoopState} {moving moving' : List (WorkItem × Phase)}

-- Where the loop holds a test, and what the place says of its attempt.
def places (s : LoopState) : List (WorkItem × Phase) :=
  (s.inflight.entries.map fun e => (e.2.item, .running e.2.attempt))
    ++ (s.ready.map fun e => (e.2.1, .waiting e.2.2))
    ++ s.parked.entries.map fun e => (e.2.1, .waiting e.2.2)

/--
No test is held twice, and each is held as its events say. `moving` are the tests between two places.
-/
structure Disciplined (items : List WorkItem) (s : LoopState) (moving : List (WorkItem × Phase)) : Prop where
  alone : ((s.places ++ moving).map fun e => key e.1).Nodup
  held : ∀ e ∈ s.places ++ moving, e.1 ∈ items ∧ Lived e.1 s.events e.2
  lived : ∀ item ∈ items, ∃ p, Lived item s.events p

theorem nodup_map_of_subperm {α β : Type} {f : α → β} {l l' : List α} (h : l.Subperm l') (hnodup : (l'.map f).Nodup)
    : (l.map f).Nodup := by
  rcases h with ⟨m, hperm, hsub⟩
  rw [← (hperm.map f).nodup_iff]
  exact hnodup.sublist (hsub.map f)

section Moving

theorem Disciplined.relocate (h : Disciplined items s moving) (hevents : s'.events = s.events)
    (hplaces : (s'.places ++ moving').Subperm (s.places ++ moving))
    : Disciplined items s' moving' := by
  constructor
  . exact nodup_map_of_subperm hplaces h.alone
  . intro e he
    rw [hevents]
    exact h.held e (hplaces.subset he)
  . rw [hevents]
    exact h.lived

theorem Disciplined.append {new : List TestEvent} (h : Disciplined items s moving)
    (hevents : s'.events = s.events ++ new) (hnew : ∀ ev ∈ new, ev.moved = none)
    (hplaces : (s'.places ++ moving').Subperm (s.places ++ moving))
    : Disciplined items s' moving' := by
  have hother : ∀ item, ∀ ev ∈ new, ev.moved ≠ some (key item) := by
    intro item ev hev
    rw [hnew ev hev]
    exact (Option.some_ne_none _).symm
  constructor
  . exact nodup_map_of_subperm hplaces h.alone
  . intro e he
    rcases h.held e (hplaces.subset he) with ⟨hitem, hlived⟩
    rw [hevents]
    exact ⟨hitem, hlived.append_other (hother e.1)⟩
  . intro item hitem
    rcases h.lived item hitem with ⟨p, hp⟩
    rw [hevents]
    exact ⟨p, hp.append_other (hother item)⟩

theorem Disciplined.advance {item : WorkItem} {p q : Phase} {ev : TestEvent} {rest : List (WorkItem × Phase)}
    (h : Disciplined items s moving) (hitems : (items.map key).Nodup)
    (hbefore : ((item, p) :: rest).Subperm (s.places ++ moving)) (hevents : s'.events = s.events ++ [ev])
    (hmoved : ev.moved = some (key item)) (hmove : Moves item p ev q)
    (hafter : (s'.places ++ moving').Subperm ((item, q) :: rest))
    : Disciplined items s' moving' := by
  have halone := nodup_map_of_subperm hbefore h.alone
  rcases h.held _ (hbefore.subset List.mem_cons_self) with ⟨hitem, hlived⟩
  have hother : ∀ {other : WorkItem} {r : Phase}, key other ≠ key item → Lived other s.events r →
      Lived other s'.events r := by
    intro other r hne hr
    rw [hevents]
    apply hr.snoc
    apply Moves.other
    rw [hmoved]
    intro heq
    exact hne (Option.some.inj heq).symm
  have hown : Lived item s'.events q := by
    rw [hevents]
    exact hlived.snoc hmove
  constructor
  . exact nodup_map_of_subperm hafter halone
  . intro e he
    rcases List.mem_cons.mp (hafter.subset he) with rfl | hrest
    . exact ⟨hitem, hown⟩
    . rcases h.held e (hbefore.subset (List.mem_cons_of_mem _ hrest)) with ⟨hmem, hr⟩
      refine ⟨hmem, hother ?_ hr⟩
      intro heq
      rw [List.map_cons, List.nodup_cons] at halone
      exact halone.1 (heq ▸ List.mem_map_of_mem hrest)
  . intro other hmem
    by_cases hkey : key other = key item
    . have heq : other = item := List.inj_on_of_nodup_map hitems hmem hitem hkey
      rw [heq]
      exact ⟨q, hown⟩
    . rcases h.lived other hmem with ⟨r, hr⟩
      exact ⟨r, hother hkey hr⟩

end Moving

section Loop

variable {grants : List Admitted} {item : WorkItem} {attempt : Nat}

theorem Disciplined.skip (h : Disciplined items s ((item, .waiting attempt) :: moving))
    (hitems : (items.map key).Nodup) (reason : SkipReason)
    : Disciplined items (s.skip item reason) moving := by
  refine h.advance hitems List.perm_middle.symm.subperm rfl rfl (.skip attempt reason) ?_
  exact List.Subperm.cons_self

theorem Disciplined.filed (h : Disciplined items s ((item, .waiting attempt) :: moving))
    (hitems : (items.map key).Nodup) (sched : Scheduler) (a : Admission SlotId)
    : Disciplined items (s.filed item attempt sched a) moving := by
  cases a with
  | granted lease =>
    refine h.relocate rfl ?_
    apply List.Perm.subperm
    simp only [LoopState.filed, places, List.map_append, List.map_cons, List.map_nil, List.append_assoc,
      List.cons_append, List.nil_append]
    apply List.Perm.append_left
    apply List.Perm.append_left
    exact List.perm_middle.symm
  | queued =>
    refine h.relocate rfl ?_
    simp only [LoopState.filed, places, AList.entries_insert, List.map_cons, List.append_assoc, List.cons_append]
    rw [List.subperm_append_left, List.subperm_append_left]
    refine List.Subperm.trans ?_ List.perm_middle.symm.subperm
    rw [List.subperm_cons, List.subperm_append_right]
    exact ((List.kerase_sublist _ _).map _).subperm
  | rejected reason =>
    have hsched : Disciplined items { s with sched } ((item, .waiting attempt) :: moving) :=
      h.relocate rfl (List.Subperm.refl _)
    exact hsched.skip hitems (skipReason reason)

theorem Disciplined.file (h : Disciplined items s ((item, .waiting attempt) :: moving))
    (hitems : (items.map key).Nodup) (hok : s.file cfg item attempt = .ok s')
    : Disciplined items s' moving := by
  unfold LoopState.file at hok
  split at hok
  . cases hok
  . cases hok
    exact h.filed hitems _ _

theorem Disciplined.spawn {slot : SlotId} {rest : List (SlotId × WorkItem × Nat)} (now : Nat)
    (h : Disciplined items { s with ready := (slot, item, attempt) :: rest } moving) (hitems : (items.map key).Nodup)
    : Disciplined items { s.spawnGranted now slot item attempt with ready := rest } moving := by
  have hbefore : (((item, .waiting attempt) : WorkItem × Phase) :: (places { s with ready := rest } ++ moving)).Subperm
      (places { s with ready := (slot, item, attempt) :: rest } ++ moving) := by
    apply List.Perm.subperm
    simp only [places, List.map_cons, List.append_assoc, List.cons_append]
    exact List.perm_middle.symm
  refine h.advance hitems hbefore rfl rfl (.start item.cls attempt) ?_
  simp only [LoopState.spawnGranted, LoopState.emit, places, AList.entries_insert, List.map_cons, List.cons_append, List.append_assoc]
  rw [List.subperm_cons, List.subperm_append_right]
  exact ((List.kerase_sublist _ _).map _).subperm

theorem Disciplined.pump (h : Disciplined items s moving) (hitems : (items.map key).Nodup) (now : Nat)
    : Disciplined items (s.pump cfg now) moving :=
  pump_induction (I := fun s => Disciplined items s moving) (fun _ _ _ _ _ h => h.spawn now hitems) h

theorem Disciplined.placeGrant (h : Disciplined items s moving) (g : Admitted)
    : Disciplined items (s.placeGrant g) moving := by
  unfold LoopState.placeGrant
  split
  . next item attempt hlookup =>
    refine h.relocate rfl ?_
    have hparked := (AList.entries_perm_of_lookup hlookup).map fun e => (e.2.1, Phase.waiting e.2.2)
    rw [List.map_cons] at hparked
    apply List.Perm.subperm
    simp only [places, List.map_append, List.map_cons, List.map_nil, List.append_assoc, List.cons_append,
      List.nil_append]
    apply List.Perm.append_left
    apply List.Perm.append_left
    exact (hparked.symm.append_right moving)
  . exact h

theorem Disciplined.admitGrants (h : Disciplined items s moving) (hitems : (items.map key).Nodup)
    (grants : List Admitted) (now : Nat)
    : Disciplined items (s.admitGrants cfg grants now) moving :=
  admitGrants_induction (I := fun s => Disciplined items s moving) (fun _ g h => h.placeGrant g)
    (fun _ _ _ _ _ h => h.spawn now hitems) h

theorem Disciplined.publishDemand (h : Disciplined items s moving) : Disciplined items (s.publishDemand cfg) moving := by
  unfold LoopState.publishDemand
  split
  . exact h.relocate rfl (List.Subperm.refl _)
  . exact h

theorem Disciplined.raise (h : Disciplined items s moving) (flag : Bool) : Disciplined items (s.raise flag) moving :=
  h.relocate rfl (List.Subperm.refl _)

theorem Disciplined.settle {running : Running} {outcome : TestOutcome} (hitems : (items.map key).Nodup)
    (h : Disciplined items s ((running.item, .running running.attempt) :: moving))
    (hok : s.settle cfg running outcome = .ok s')
    : Disciplined items s' moving := by
  have hbefore : (((running.item, .running running.attempt) : WorkItem × Phase) :: (s.places ++ moving)).Subperm
      (s.places ++ (running.item, .running running.attempt) :: moving) := List.perm_middle.symm.subperm
  rcases settle_cases s cfg with ⟨⟨hverdict, hattempt, _, _⟩, heq⟩ | ⟨_, stats, tripped, _, heq⟩
  . rw [heq] at hok
    have hretrying : Disciplined items (s.emitRetrying running outcome)
        ((running.item, .waiting (running.attempt + 1)) :: moving) := by
      refine h.advance hitems hbefore rfl rfl (.retry 0 outcome.duration hverdict hattempt) ?_
      exact List.perm_middle.subperm
    exact hretrying.file hitems hok
  . rw [heq] at hok
    cases hok
    refine h.advance hitems hbefore rfl rfl
      (.finish running.attempt outcome.verdict outcome.duration outcome.output outcome.components) ?_
    exact List.Subperm.cons_self

theorem Disciplined.released {lease : SlotId} {running : Running} (h : Disciplined items s moving)
    (hrunning : s.inflight.lookup lease = some running) (sched : Scheduler)
    : Disciplined items (s.released lease sched) ((running.item, .running running.attempt) :: moving) := by
  refine h.relocate rfl ?_
  have hinflight := (AList.entries_perm_of_lookup hrunning).map fun e => (e.2.item, Phase.running e.2.attempt)
  rw [List.map_cons] at hinflight
  apply List.Perm.subperm
  refine List.perm_middle.trans ?_
  simp only [places, LoopState.released, List.append_assoc]
  exact hinflight.symm.append_right _

theorem moved_slowEvents {now after : Nat} {ev : TestEvent} (h : ev ∈ s.slowEvents now after) : ev.moved = none := by
  unfold slowEvents at h
  rw [List.mem_filterMap] at h
  rcases h with ⟨e, _, hev⟩
  split at hev
  . cases hev
    rfl
  . cases hev

theorem Disciplined.tick (h : Disciplined items s moving) (now : Nat) : Disciplined items (s.tick cfg now) moving := by
  unfold LoopState.tick
  split
  . exact h
  . next after _ =>
    refine h.append rfl (fun ev hev => moved_slowEvents hev) ?_
    have hplaces : (s.markSlow now after).places = s.places := by
      simp [places, LoopState.markSlow, AList.mapVals]
    show ((s.markSlow now after).places ++ moving).Subperm _
    rw [hplaces]

theorem Disciplined.loopTop (h : Disciplined items s moving) : Disciplined items s.loopTop moving := by
  unfold LoopState.loopTop
  split
  . refine h.append (show _ = s.events ++ [.runCancelling .interrupt s.inflight.entries.length] from rfl) ?_ ?_
    . intro ev hev
      rw [List.mem_singleton.mp hev]
      rfl
    . exact List.Subperm.refl _
  . exact h

theorem Disciplined.runArm (h : Disciplined items s []) (hitems : (items.map key).Nodup) {arm : Arm} {now : Nat}
    (hok : s.runArm cfg arm now = .ok s')
    : Disciplined items s' [] := by
  cases arm with
  | cancelWake =>
    rw [cancelWake_ok hok]
    exact h.raise true
  | complete lease outcome raiseRetry raiseAdmit =>
    rcases complete_ok hok with ⟨running, sched, grants, t, _, hrunning, _, hsettle, rfl⟩
    have ht := ((h.released hrunning sched).raise raiseRetry).settle hitems hsettle
    exact ((ht.raise raiseAdmit).admitGrants hitems grants now).publishDemand
  | ceiling newCeiling raiseAdmit =>
    rcases moveCeiling_ok hok with ⟨sched, grants, _, _, rfl⟩
    have hsched : Disciplined items { s with sched } [] := h.relocate rfl (List.Subperm.refl _)
    exact ((hsched.raise raiseAdmit).admitGrants hitems grants now).publishDemand
  | tick =>
    cases hok
    exact h.tick now

theorem Disciplined.step (h : Disciplined items s []) (hitems : (items.map key).Nodup) {input : Input} {r : Unit}
    (hok : step cfg s input = .ok (s', r))
    : Disciplined items s' [] := by
  rcases step_cases hok with ⟨_, rfl⟩ | ⟨arm, now, _, _, hrun⟩
  . exact h.relocate rfl (List.Subperm.refl _)
  . exact h.loopTop.runArm hitems hrun

theorem Disciplined.submitAll {rest : List WorkItem} (hitems : (items.map key).Nodup)
    (h : Disciplined items s (rest.map fun item => (item, .waiting 1))) (hok : s.submitAll cfg rest = .ok s')
    : Disciplined items s' [] := by
  induction rest generalizing s with
  | nil =>
    cases hok
    exact h
  | cons item rest ih =>
    unfold LoopState.submitAll at hok
    split at hok
    . next t ht =>
      refine ih ?_ hok
      unfold LoopState.submit at ht
      split at ht
      . cases ht
        exact h.skip hitems _
      . exact h.file hitems ht
    . cases hok

theorem Disciplined.init (cfg : LoopConfig) (ceiling : Resources) (cancelFlag : Bool) (now : Nat)
    (hitems : (items.map key).Nodup)
    : Disciplined items (init cfg items ceiling cancelFlag now) (items.map fun item => (item, .waiting 1)) := by
  have hlived : ∀ item, Lived item (LoopState.init cfg items ceiling cancelFlag now).events (.waiting 1) := by
    intro item
    exact Lived.nil.snoc (.other (Option.some_ne_none _).symm)
  constructor
  . rw [show (LoopState.init cfg items ceiling cancelFlag now).places = [] from rfl, List.nil_append, List.map_map]
    exact hitems
  . intro e he
    rcases List.mem_map.mp he with ⟨item, hitem, rfl⟩
    exact ⟨hitem, hlived item⟩
  . intro item _
    exact ⟨_, hlived item⟩

theorem run_disciplined {ceiling : Resources} {cancelFlag : Bool} {now : Nat} {inputs : List Input}
    (hitems : (items.map key).Nodup) (hrun : run cfg items ceiling cancelFlag now inputs = .ok s)
    : Disciplined items s [] := by
  rcases run_ok hrun with ⟨s₀, hstart, hexec⟩
  have hfirst : Disciplined items s₀ [] := by
    unfold LoopState.start at hstart
    split at hstart
    . next t ht =>
      cases hstart
      exact (((Disciplined.init cfg ceiling cancelFlag now hitems).submitAll hitems ht).pump hitems now).publishDemand
    . cases hstart
  refine Run.exec_invariant (I := fun t => Disciplined items t []) ?_ hfirst hexec
  intro t input t' r ht hstep
  exact ht.step hitems hstep

end Loop

section Futures

-- The futures that are awaited are those of the tests in flight.
def Awaited (s : LoopState) : Prop := s.futs.Perm s.inflight.keys

theorem open_or_closed (s : LoopState) : Open s ∨ (s.failFastTripped = true ∨ s.cancelFlag = true) := by
  cases htripped : s.failFastTripped with
  | true => exact .inr (.inl rfl)
  | false =>
    cases hflag : s.cancelFlag with
    | true => exact .inr (.inr rfl)
    | false => exact .inl ⟨htripped, hflag⟩

theorem Open.frame (h : Open s) (hframe : Frame s s') : Open s' :=
  ⟨hframe.failFastTripped.trans h.failFastTripped, hframe.cancelFlag.trans h.cancelFlag⟩

theorem Awaited.of_admitGrants {grants : List Admitted} {now : Nat} (h : s.Awaited)
    (hclosed : ¬ Open ((s.admitGrants cfg grants now).publishDemand cfg))
    : ((s.admitGrants cfg grants now).publishDemand cfg).Awaited := by
  rcases open_or_closed s with hopen | hshut
  . exact absurd ((hopen.frame (admitGrants_frame _ _ _ _)).frame (publishDemand_frame _ _)) hclosed
  . rw [admitGrants_of_closed hshut]
    unfold LoopState.publishDemand
    split <;> exact h

theorem Awaited.runArm (h : s.Awaited) {arm : Arm} {now : Nat} (hok : s.runArm cfg arm now = .ok s') (hclosed : ¬ Open s')
    : s'.Awaited := by
  cases arm with
  | cancelWake =>
    rw [cancelWake_ok hok]
    exact h
  | complete lease outcome raiseRetry raiseAdmit =>
    rcases complete_ok hok with ⟨running, sched, grants, t, hmem, hrunning, _, hsettle, rfl⟩
    apply Awaited.of_admitGrants ?_ hclosed
    show t.futs.Perm t.inflight.keys
    rw [settle_inflight hsettle, (settle_keeps hsettle).1]
    apply List.Perm.cons_inv (a := lease)
    exact (List.perm_cons_erase hmem).symm.trans (h.trans (AList.keys_perm_of_lookup hrunning))
  | ceiling newCeiling raiseAdmit =>
    rcases moveCeiling_ok hok with ⟨sched, grants, _, _, rfl⟩
    exact Awaited.of_admitGrants h hclosed
  | tick =>
    cases hok
    rcases tick_places s cfg now with ⟨hkeys, _, _, _, hfuts, _⟩
    unfold Awaited
    rw [hkeys, hfuts]
    exact h

theorem Awaited.step (h : s.Awaited) {input : Input} {r : Unit} (hok : step cfg s input = .ok (s', r)) (hclosed : ¬ Open s')
    : s'.Awaited := by
  rcases step_cases hok with ⟨_, rfl⟩ | ⟨arm, now, _, _, hrun⟩
  . exact h
  . refine Awaited.runArm ?_ hrun hclosed
    unfold LoopState.loopTop
    split <;> exact h

theorem run_awaited {ceiling : Resources} {cancelFlag : Bool} {now : Nat} {inputs : List Input}
    (hitems : (items.map key).Nodup) (hrun : run cfg items ceiling cancelFlag now inputs = .ok s)
    : s.Awaited := by
  rcases run_ok hrun with ⟨s₀, hstart, hexec⟩
  have hfirst := LoopInv.start hitems hstart
  suffices hall : s.Awaited ∧ (Open s → LoopInv cfg items s) from hall.1
  refine Run.exec_invariant (I := fun t => t.Awaited ∧ (Open t → LoopInv cfg items t)) ?_
    ⟨hfirst.tracked.futs, fun _ => hfirst⟩ hexec
  rintro t input t' r ⟨hawaited, hinv⟩ hstep
  have hinv' : Open t' → LoopInv cfg items t' := fun hopen => (hinv (step_open hstep hopen)).step hitems hstep hopen
  by_cases hopen : Open t'
  . exact ⟨(hinv' hopen).tracked.futs, hinv'⟩
  . exact ⟨hawaited.step hstep hopen, hinv'⟩

end Futures

/--
Of no test two attempts are awaited at a time.
-/
structure OneInFlight (s : LoopState) : Prop where
  futs : s.futs.Perm s.inflight.keys
  tests : (s.inflightItems.map key).Nodup

theorem Disciplined.inflight (h : Disciplined items s moving) : (s.inflightItems.map key).Nodup := by
  have hsub : (s.inflight.entries.map fun e => ((e.2.item, .running e.2.attempt) : WorkItem × Phase)).Sublist
      (s.places ++ moving) := by
    rw [places, List.append_assoc, List.append_assoc]
    exact List.sublist_append_left _ _
  have hnodup := nodup_map_of_subperm hsub.subperm h.alone
  rw [List.map_map] at hnodup
  rw [inflightItems, List.map_map]
  exact hnodup

theorem run_retries_in_order (cfg : LoopConfig) (items : List WorkItem) (ceiling : Resources) (cancelFlag : Bool)
    (now : Nat) (inputs : List Input) (s : LoopState) (hitems : (items.map key).Nodup)
    (hrun : run cfg items ceiling cancelFlag now inputs = .ok s)
    : (∀ item ∈ items, RetriesInOrder item s.events) ∧ s.OneInFlight := by
  have hdisciplined := run_disciplined hitems hrun
  constructor
  . intro item hitem
    rcases hdisciplined.lived item hitem with ⟨p, hlived⟩
    exact hlived.inOrder
  . exact ⟨run_awaited hitems hrun, hdisciplined.inflight⟩

-- `a` fails, waits behind `b`, and passes at the second attempt, once `b` is done.
theorem retry_behind_grant_in_order
    : ∃ s, run ⟨false, none, "acme", "run", ∅, some 2, true, true⟩
          [⟨"bin", "a", .wallet, ⟨2, 2, 0, 0, 0⟩, 1, []⟩, ⟨"bin", "b", .wallet, ⟨4, 4, 0, 0, 0⟩, 0, []⟩]
          ⟨4, 4, 0, 0, 0⟩ false 0
          [.select (.complete ⟨0⟩ ⟨.fail 1, [], [], 1⟩ false false) 1, .select (.complete ⟨1⟩ ⟨.pass, [], [], 1⟩ false false) 2,
            .select (.complete ⟨2⟩ ⟨.pass, [], [], 1⟩ false false) 3] = .ok s
        ∧ s.events.filterMap (TestEvent.startOf ("bin", "a")) = [1, 2]
        ∧ RetriesInOrder ⟨"bin", "a", .wallet, ⟨2, 2, 0, 0, 0⟩, 1, []⟩ s.events ∧ s.OneInFlight := by
  refine ⟨_, rfl, by decide, ?_⟩
  have h := run_retries_in_order ⟨false, none, "acme", "run", ∅, some 2, true, true⟩
    [⟨"bin", "a", .wallet, ⟨2, 2, 0, 0, 0⟩, 1, []⟩, ⟨"bin", "b", .wallet, ⟨4, 4, 0, 0, 0⟩, 0, []⟩]
    ⟨4, 4, 0, 0, 0⟩ false 0
    [.select (.complete ⟨0⟩ ⟨.fail 1, [], [], 1⟩ false false) 1, .select (.complete ⟨1⟩ ⟨.pass, [], [], 1⟩ false false) 2,
      .select (.complete ⟨2⟩ ⟨.pass, [], [], 1⟩ false false) 3] _ (by decide) rfl
  exact ⟨h.1 _ List.mem_cons_self, h.2⟩

end LoopState
end Engine
