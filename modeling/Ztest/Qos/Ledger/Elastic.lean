import Ztest.Qos.Ledger.Impl
import Ztest.Qos.Scheduler.Impl
import Ztest.Qos.Ledger.Fleet
import Ztest.Qos.Scheduler.Lemmas.Fair

/-!
This module contains one elastic reservation beside the engine it serves: the `drive` task, the lease
it writes, the two watch channels between them and the scheduler of the run. The task and the engine
interleave at every await, and the listings a tick sees are arbitrary.

A run's own lease covers what its engine has admitted: a tick writes the larger of the new target and the previous
one, which covers the engine only if the engine has seen the previous one by the time the tick reads its demand.
-/

namespace Qos
namespace Ledger

structure Elastic where
  id : String
  allocatable : Resources
  budget : Resources
  reserve : Resources
  prev : Resources
  tick : Tick
  -- The ceiling channel holds its latest value, which the engine may not have taken yet.
  ceiling : Resources
  unseen : Bool
  demand : Demand
  engine : Scheduler

namespace Elastic

abbrev Stop : Type := Run.Stop Panic

def readDemand (s : Elastic) : Except Stop Elastic :=
  match s.tick with
  | .idle => .ok { s with tick := .readDemand .elastic s.demand }
  | _ => .error .disabled

def listLeases (s : Elastic) (live : Option Listing) : Except Stop Elastic :=
  match s.tick with
  | .demandRead d => .ok { s with tick := .listLeases d live }
  | _ => .error .disabled

def listPods (s : Elastic) (pods : Option (List Pod)) : Except Stop Elastic :=
  match s.tick with
  | .leasesListed d live =>
    .ok { s with tick := .listPods s.id s.allocatable s.budget d live pods }
  | _ => .error .disabled

def write (s : Elastic) (ok : Bool) : Except Stop Elastic :=
  match s.tick with
  | .renewing => .ok { s with reserve := if ok then s.prev else s.reserve, tick := .idle }
  | .writing _ target =>
    if ok then
      .ok { s with reserve := target.max s.prev, tick := .publishing target }
    else
      .ok { s with tick := .idle }
  | _ => .error .disabled

def publish (s : Elastic) : Except Stop Elastic :=
  match s.tick with
  | .publishing target =>
    if target ≠ s.prev then
      .ok { s with ceiling := target, unseen := true, prev := target, tick := .idle }
    else
      .ok { s with prev := target, tick := .idle }
  | _ => .error .disabled

def takeCeiling (s : Elastic) : Except Stop Elastic :=
  if s.unseen then
    match s.engine.apply (.reconcile s.ceiling) with
    | .ok (engine, _) => .ok { s with engine, unseen := false }
    | .error p => .error (.ended p)
  else
    .error .disabled

-- The engine admits and releases tests. Its ceiling moves by `takeCeiling` only.
def engineOp (s : Elastic) (op : Scheduler.Op) : Except Stop Elastic :=
  match op with
  | .reconcile _ => .error .disabled
  | _ =>
    match s.engine.apply op with
    | .ok (engine, _) => .ok { s with engine }
    | .error p => .error (.ended p)

def report (s : Elastic) : Elastic :=
  { s with demand := ⟨s.engine.committed, s.engine.demand⟩ }

inductive Act where
  | readDemand
  | listLeases (live : Option Listing)
  | listPods (pods : Option (List Pod))
  | write (ok : Bool)
  | publish
  | takeCeiling
  | engineOp (op : Scheduler.Op)
  | report

def act (s : Elastic) : Act → Except Stop Elastic
  | .readDemand => s.readDemand
  | .listLeases live => s.listLeases live
  | .listPods pods => s.listPods pods
  | .write ok => s.write ok
  | .publish => s.publish
  | .takeCeiling => s.takeCeiling
  | .engineOp op => s.engineOp op
  | .report => .ok s.report

def step (s : Elastic) (a : Act) : Except Stop (Elastic × Unit) := (s.act a).map fun s => (s, ())

def spawn (id : String) (allocatable budget slice : Resources) : Elastic where
  id := id
  allocatable := allocatable
  budget := budget
  reserve := slice
  prev := slice
  tick := .idle
  ceiling := slice
  unseen := false
  demand := .default
  engine := .new slice

open Scheduler

variable {s s' : Elastic} {d : Dim}

-- The engine admits within `cap` and holds no more than `floor` or `cap`.
def Within (engine : Scheduler) (floor cap : Resources) : Prop :=
  ∀ d, d.indexed = true →
    engine.available.amt d ≤ cap.amt d
      ∧ engine.committed.amt d ≤ max (floor.amt d) (cap.amt d)

def TickOk (s : Elastic) : Prop :=
  match s.tick with
  | .idle => True
  | .renewing => Within s.engine .zero s.prev
  | .demandRead dm => Within s.engine dm.committed s.prev
  | .leasesListed dm _ => Within s.engine dm.committed s.prev
  | .writing _ target => Within s.engine target s.prev
  | .publishing target => ∀ d, d.indexed = true → target.amt d ≤ s.reserve.amt d

structure Inv (s : Elastic) : Prop where
  ordered : s.engine.Ordered
  within : Within s.engine s.reserve s.reserve
  prev : ∀ d, d.indexed = true → s.prev.amt d ≤ s.reserve.amt d
  channel : s.ceiling = s.prev
  tick : s.TickOk

/--
When a tick reads the demand, the engine has taken the ceiling last published, and what it has
committed was reported or is within that ceiling.
-/
def EngineCaughtUp (s : Elastic) (a : Act) : Prop :=
  match a with
  | .readDemand => Within s.engine s.demand.committed s.prev
  | _ => True

theorem Within.of_effect {op : Scheduler.Op} {engine engine' : Scheduler} {floor cap : Resources}
    (h : Within engine floor cap) (heffect : Effect engine op engine')
    (hop : ∀ d, d.indexed = true → (engine.ceilingOf op).amt d ≤ cap.amt d)
    : Within engine' floor cap := by
  intro d hd
  have hcap := hop d hd
  have hcommitted := heffect.committed_cases d
  have hold := (h d hd).2
  rw [heffect.available_eq]
  omega

theorem Within.mono {engine : Scheduler} {floor cap floor' cap' : Resources}
    (h : Within engine floor cap)
    (hle : ∀ d, d.indexed = true → cap.amt d ≤ cap'.amt d
      ∧ max (floor.amt d) (cap.amt d) ≤ max (floor'.amt d) (cap'.amt d))
    : Within engine floor' cap' := by
  intro d hd
  have hold := h d hd
  have := hle d hd
  omega

theorem Inv.engine {op : Scheduler.Op} {engine : Scheduler} (h : s.Inv) (unseen : Bool)
    (heffect : Effect s.engine op engine)
    (hop : s.engine.ceilingOf op = s.engine.available ∨ s.engine.ceilingOf op = s.ceiling)
    : Inv { s with engine, unseen } := by
  have hcap : ∀ {floor cap : Resources}, Within s.engine floor cap →
      (∀ d, d.indexed = true → s.prev.amt d ≤ cap.amt d) → Within engine floor cap := by
    intro floor cap hwithin hprev
    apply hwithin.of_effect heffect
    intro d hd
    cases hop with
    | inl hop =>
      rw [hop]
      exact (hwithin d hd).1
    | inr hop =>
      rw [hop, h.channel]
      exact hprev d hd
  have htick := h.tick
  constructor
  . exact h.ordered.effect heffect
  . exact hcap h.within h.prev
  . exact h.prev
  . exact h.channel
  . unfold TickOk at htick ⊢
    cases heq : s.tick with
    | idle => trivial
    | publishing target =>
      rw [heq] at htick
      exact htick
    | _ =>
      rw [heq] at htick
      exact hcap htick fun _ _ => Nat.le_refl _

theorem Inv.takeCeiling (h : s.Inv) (hok : s.takeCeiling = .ok s') : s'.Inv := by
  unfold Elastic.takeCeiling at hok
  split at hok
  . split at hok
    . next engine r happly =>
      cases hok
      exact h.engine false (apply_cases h.ordered happly) (.inr rfl)
    . cases hok
  . cases hok

theorem Inv.engineOp {op : Scheduler.Op} (h : s.Inv) (hok : s.engineOp op = .ok s') : s'.Inv := by
  unfold Elastic.engineOp at hok
  split at hok
  . cases hok
  . next hop =>
    split at hok
    . next engine r happly =>
      cases hok
      apply h.engine s.unseen (apply_cases h.ordered happly) (.inl ?_)
      cases op with
      | reconcile newAvailable => exact absurd rfl (hop newAvailable)
      | _ => rfl
    . cases hok

theorem Inv.setTick {tick : Tick} (h : s.Inv) (htick : TickOk { s with tick })
    : Inv { s with tick } :=
  ⟨h.ordered, h.within, h.prev, h.channel, htick⟩

theorem Inv.readDemand (h : s.Inv) (hcaught : s.EngineCaughtUp .readDemand)
    (hok : s.readDemand = .ok s')
    : s'.Inv := by
  unfold Elastic.readDemand at hok
  split at hok
  . cases hok
    have hwithin : Within s.engine s.demand.committed s.prev := hcaught
    apply h.setTick
    unfold TickOk
    by_cases hdefault : s.demand = .default
    . rw [hdefault] at hwithin
      have htick : Tick.readDemand .elastic s.demand = .renewing := if_pos hdefault
      simp only [htick]
      exact hwithin
    . have htick : Tick.readDemand .elastic s.demand = .demandRead s.demand := if_neg hdefault
      simp only [htick]
      exact hwithin
  . cases hok

theorem Inv.listLeases {live : Option Listing} (h : s.Inv) (hok : s.listLeases live = .ok s')
    : s'.Inv := by
  have htick := h.tick
  unfold Elastic.listLeases at hok
  split at hok
  . next dm heq =>
    cases hok
    unfold TickOk at htick
    rw [heq] at htick
    apply h.setTick
    cases live with
    | none => trivial
    | some live => exact htick
  . cases hok

theorem Inv.listPods {pods : Option (List Pod)} (h : s.Inv) (hok : s.listPods pods = .ok s')
    : s'.Inv := by
  have htick := h.tick
  unfold Elastic.listPods at hok
  split at hok
  . next dm live heq =>
    cases hok
    unfold TickOk at htick
    rw [heq] at htick
    apply h.setTick
    cases pods with
    | none => trivial
    | some pods =>
      -- The target is floored at the committed footprint the tick has read.
      apply Within.mono htick
      intro d _
      have := committed_le_reserveFromState live pods s.id s.allocatable s.budget dm.committed
        dm.demand d
      show s.prev.amt d ≤ s.prev.amt d ∧ _ ≤ max _ (s.prev.amt d)
      omega
  . cases hok

theorem Inv.write {ok : Bool} (h : s.Inv) (hok : s.write ok = .ok s') : s'.Inv := by
  have htick := h.tick
  unfold Elastic.write at hok
  split at hok
  . next heq =>
    cases hok
    unfold TickOk at htick
    rw [heq] at htick
    cases ok with
    | false => exact ⟨h.ordered, h.within, h.prev, h.channel, trivial⟩
    | true =>
      refine ⟨h.ordered, ?_, fun _ _ => Nat.le_refl _, h.channel, trivial⟩
      apply Within.mono htick
      intro d _
      show _ ≤ s.prev.amt d ∧ _ ≤ max (s.prev.amt d) (s.prev.amt d)
      rw [Resources.amt_zero]
      omega
  . next live target heq =>
    unfold TickOk at htick
    rw [heq] at htick
    split at hok
    . cases hok
      constructor
      . exact h.ordered
      . apply Within.mono htick
        intro d _
        show _ ≤ (target.max s.prev).amt d
          ∧ _ ≤ max ((target.max s.prev).amt d) ((target.max s.prev).amt d)
        rw [Resources.amt_max]
        omega
      . intro d _
        show s.prev.amt d ≤ (target.max s.prev).amt d
        rw [Resources.amt_max]
        omega
      . exact h.channel
      . intro d _
        show target.amt d ≤ (target.max s.prev).amt d
        rw [Resources.amt_max]
        omega
    . cases hok
      exact h.setTick trivial
  . cases hok

theorem Inv.publish (h : s.Inv) (hok : s.publish = .ok s') : s'.Inv := by
  have htick := h.tick
  unfold Elastic.publish at hok
  split at hok
  . next target heq =>
    unfold TickOk at htick
    rw [heq] at htick
    split at hok
    . cases hok
      exact ⟨h.ordered, h.within, htick, rfl, trivial⟩
    . next hsame =>
      cases hok
      rw [ne_eq, not_not] at hsame
      exact ⟨h.ordered, h.within, htick, h.channel.trans hsame.symm, trivial⟩
  . cases hok

theorem Inv.act {a : Act} (h : s.Inv) (hcaught : s.EngineCaughtUp a) (hok : s.act a = .ok s')
    : s'.Inv := by
  cases a with
  | readDemand => exact h.readDemand hcaught hok
  | listLeases live => exact h.listLeases hok
  | listPods pods => exact h.listPods hok
  | write ok => exact h.write hok
  | publish => exact h.publish hok
  | takeCeiling => exact h.takeCeiling hok
  | engineOp op => exact h.engineOp hok
  | report =>
    cases hok
    exact ⟨h.ordered, h.within, h.prev, h.channel, h.tick⟩

theorem Inv.spawn (id : String) (allocatable budget slice : Resources)
    : (spawn id allocatable budget slice).Inv := by
  refine ⟨.new slice, ?_, fun _ _ => Nat.le_refl _, rfl, trivial⟩
  intro d _
  show slice.amt d ≤ slice.amt d ∧ Resources.zero.amt d ≤ _
  rw [Resources.amt_zero]
  omega

theorem admissions_covered (id : String) (allocatable budget slice : Resources)
    (inputs : List Act) (s : Elastic)
    (halong : Run.Along step EngineCaughtUp (spawn id allocatable budget slice) inputs)
    (hexec : Run.exec step (spawn id allocatable budget slice) inputs = .ok s)
    : ∀ d, d.indexed = true → s.engine.committed.amt d ≤ s.reserve.amt d := by
  have hinv : s.Inv := by
    apply Run.exec_invariant_along (Q := EngineCaughtUp) (I := Inv) ?_
      (Inv.spawn id allocatable budget slice) halong hexec
    intro s a s' r h hcaught hstep
    obtain ⟨t, hact, heq⟩ := Run.map_ok hstep
    cases heq
    exact h.act hcaught hact
  intro d hd
  have := (hinv.within d hd).2
  omega

theorem admissions_covered_after_shrink
    : ∃ s, Run.exec step (spawn "a" ⟨10, 10, 0, 0, 0⟩ ⟨10, 10, 0, 0, 0⟩ ⟨10, 10, 0, 0, 0⟩)
          [.engineOp (.request ⟨"bin", "x", "acme", ⟨4, 4, 0, 0, 0⟩⟩), .report, .readDemand,
            .listLeases (some [("a", ⟨⟨10, 10, 0, 0, 0⟩, .run⟩), ("b", ⟨⟨6, 6, 0, 0, 0⟩, .run⟩)]),
            .listPods (some []), .write true, .publish, .takeCeiling] = .ok s
        ∧ s.reserve = ⟨10, 10, 0, 0, 0⟩ ∧ s.prev.cpuMilli = 4
        ∧ s.engine.committed.amt .cpuMilli ≤ s.reserve.amt .cpuMilli := by
  refine ⟨_, rfl, rfl, rfl, ?_⟩
  apply admissions_covered "a" ⟨10, 10, 0, 0, 0⟩ ⟨10, 10, 0, 0, 0⟩ ⟨10, 10, 0, 0, 0⟩
    [.engineOp (.request ⟨"bin", "x", "acme", ⟨4, 4, 0, 0, 0⟩⟩), .report, .readDemand,
      .listLeases (some [("a", ⟨⟨10, 10, 0, 0, 0⟩, .run⟩), ("b", ⟨⟨6, 6, 0, 0, 0⟩, .run⟩)]),
      .listPods (some []), .write true, .publish, .takeCeiling] _ ?_ rfl .cpuMilli rfl
  refine ⟨trivial, ?_⟩
  intro s r h
  cases h
  refine ⟨trivial, ?_⟩
  intro s r h
  cases h
  constructor
  . intro d _
    cases d <;> decide
  . exact fun _ _ _ => ⟨trivial, fun _ _ _ => ⟨trivial, fun _ _ _ => ⟨trivial, fun _ _ _ =>
      ⟨trivial, fun _ _ _ => ⟨trivial, fun _ _ _ => trivial⟩⟩⟩⟩⟩

-- Two ticks pass before the engine takes the lower ceiling: the second one writes it.
theorem unseen_shrink_uncovers_engine
    : ∃ s, Run.exec step (spawn "a" ⟨10, 10, 0, 0, 0⟩ ⟨10, 10, 0, 0, 0⟩ ⟨10, 10, 0, 0, 0⟩)
          [.engineOp (.request ⟨"bin", "x", "acme", ⟨4, 4, 0, 0, 0⟩⟩),
            .engineOp (.request ⟨"bin", "y", "acme", ⟨8, 8, 0, 0, 0⟩⟩), .report, .readDemand,
            .listLeases (some [("a", ⟨⟨10, 10, 0, 0, 0⟩, .run⟩), ("b", ⟨⟨5, 5, 0, 0, 0⟩, .run⟩)]),
            .listPods (some []), .write true, .publish, .readDemand,
            .listLeases (some [("a", ⟨⟨10, 10, 0, 0, 0⟩, .run⟩), ("b", ⟨⟨5, 5, 0, 0, 0⟩, .run⟩)]),
            .listPods (some []), .write true,
            .engineOp (.request ⟨"bin", "z", "acme", ⟨4, 4, 0, 0, 0⟩⟩)] = .ok s
        ∧ s.engine.committed.amt .cpuMilli = 8 ∧ s.reserve.amt .cpuMilli = 5 := by
  refine ⟨_, rfl, rfl, rfl⟩

end Elastic
end Ledger
end Qos
