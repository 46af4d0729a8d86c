import Ztest.Sync.Launch.Impl

namespace Sync
namespace Launch

def Start.abandons : Start → Bool
  | .deletePod => true
  | .deleteNamespace => true
  | .deleteRecord => true
  | .release => true
  | .released => true
  | _ => false

namespace State

variable {ρ : Type}

-- The driver process has ended, or there is no pod left that could start it.
def driverGone (s : State ρ) : Bool :=
  s.driver.stage = .exited || (s.driver.stage = .absent && s.pod.all Pod.terminal)

/--
What a launch is meant to keep: the reservation as long as either process is there, a driver that
adopted it, and the verdict that the driver wrote.
-/
structure Safe (s : State ρ) : Prop where
  covered : s.start ≠ .reserved → s.start.holds = true ∨ s.driverGone = false →
    ∃ holder, s.lease = some ⟨holder, s.reserve⟩
  spared : s.driver.adopted = true → s.start.abandons = false
  kept : ∀ report, s.driver.report = some report → s.record = some ⟨some report⟩

/--
The four steps that the code leaves to chance.
-/
def InOrder (s : State ρ) : Event ρ → Prop
  -- `start` gives up on a driver that has not adopted.
  | .pollFailed => s.driver.adopted = false
  | .driverDied => s.driver.adopted = false
  -- The driver adopts from a `start` that has not given up.
  | .adoptWrite => s.start.abandons = false
  -- The driver reports into a record that is there.
  | .writeReport _ => s.record.isSome = true
  -- The driver is gone before its reservation is.
  | .release => s.driverGone = true
  | _ => True

structure Inv (s : State ρ) : Prop where
  leased : s.start ≠ .released → ∃ holder, s.lease = some ⟨holder, s.reserve⟩
  released : s.start = .released → s.driverGone = true
  fresh : s.start = .reserved → s.driver.stage = .absent ∧ s.pod = none
  read : ∀ reserve, s.driver.stage = .read reserve → reserve = s.reserve
  renews : ∀ reserve, s.driver.stage.renews = some reserve → reserve = s.reserve ∧ s.driver.adopted = true
  reported : ∀ report, s.driver.report = some report → s.driver.adopted = true ∧ s.record = some ⟨some report⟩
  spared : s.driver.adopted = true → s.start.abandons = false

theorem Inv.init (reserve : Qos.Resources) : (State.init reserve : State ρ).Inv where
  leased _ := ⟨.start, rfl⟩
  released h := by cases h
  fresh _ := ⟨rfl, rfl⟩
  read _ h := by cases h
  renews _ h := by cases h
  reported _ h := by cases h
  spared h := by cases h

theorem step_ok {s s' : State ρ} {event : Event ρ} {r : Unit} (h : s.step event = .ok (s', r))
    : s.startStep event = some s' ∨ s.driverStep event = some s' ∨ s.kubeletStep event = some s' := by
  unfold step at h
  split at h
  . next t ht =>
    cases h
    rw [Option.or_eq_some_iff, Option.or_eq_some_iff] at ht
    rcases ht with (ht | ⟨_, ht⟩) | ⟨_, ht⟩
    . exact Or.inl ht
    . exact Or.inr (Or.inl ht)
    . exact Or.inr (Or.inr ht)
  . cases h

theorem driverGone_of_pending {s : State ρ} (habsent : s.driver.stage = .absent)
    (hpending : s.pod.any (fun p => p.phase = .pending) = true)
    : s.driverGone = false := by
  unfold driverGone
  cases hpod : s.pod with
  | none =>
    rw [hpod] at hpending
    cases hpending
  | some p =>
    rw [hpod] at hpending
    simp_all [Pod.terminal]

theorem driverGone_setPhase {s : State ρ} {phase : Phase} (hphase : (⟨phase, false⟩ : Pod).terminal = true)
    (hgone : s.driverGone = true)
    : (s.setPhase phase).driverGone = true := by
  unfold driverGone at hgone ⊢
  cases hpod : s.pod
  all_goals simp_all [setPhase, Pod.terminal]
  exact hgone.imp_right And.left

theorem driverGone_of_alive {s : State ρ} (halive : s.driver.stage.alive = true) : s.driverGone = false := by
  unfold driverGone
  cases hstage : s.driver.stage with
  | absent =>
    rw [hstage] at halive
    cases halive
  | exited =>
    rw [hstage] at halive
    cases halive
  | booted => rfl
  | read reserve => rfl
  | holding reserve => rfl
  | finishing reserve => rfl

section Moves

variable {s : State ρ} (h : s.Inv)
include h

theorem Inv.unadopted (habandons : s.start.abandons = true) : s.driver.adopted = false := by
  cases hadopted : s.driver.adopted with
  | false => rfl
  | true =>
    rw [h.spared hadopted] at habandons
    cases habandons

theorem Inv.enter {next : Start} {pod : Option Pod} {record : Option (Record ρ)}
    (hheld : s.start ≠ .released) (hreserved : next ≠ .reserved) (hreleased : next ≠ .released)
    (hrecord : s.driver.adopted = true → ∀ report, s.record = some ⟨some report⟩ → record = some ⟨some report⟩)
    (hspared : s.driver.adopted = true → next.abandons = false)
    : State.Inv { s with start := next, pod := pod, record := record } where
  leased _ := h.leased hheld
  released hnext := absurd hnext hreleased
  fresh hnext := absurd hnext hreserved
  read := h.read
  renews := h.renews
  reported report hreport :=
    ⟨(h.reported report hreport).1,
      hrecord (h.reported report hreport).1 report (h.reported report hreport).2⟩
  spared := hspared

theorem Inv.drive {lease : Option Lease} {driver : Driver ρ} {record : Option (Record ρ)}
    (hhere : s.driverGone = false) (hstarted : s.start ≠ .reserved)
    (hlease : ∃ holder, lease = some ⟨holder, s.reserve⟩)
    (hread : ∀ reserve, driver.stage = .read reserve → reserve = s.reserve)
    (hrenews : ∀ reserve, driver.stage.renews = some reserve → reserve = s.reserve ∧ driver.adopted = true)
    (hreported : ∀ report, driver.report = some report → driver.adopted = true ∧ record = some ⟨some report⟩)
    (hspared : driver.adopted = true → s.start.abandons = false)
    : State.Inv { s with lease := lease, driver := driver, record := record } where
  leased _ := hlease
  released hstart := by
    have hgone := h.released hstart
    rw [hhere] at hgone
    cases hgone
  fresh hstart := absurd hstart hstarted
  read := hread
  renews := hrenews
  reported := hreported
  spared := hspared

theorem Inv.leased_of_here (hhere : s.driverGone = false) : ∃ holder, s.lease = some ⟨holder, s.reserve⟩ := by
  apply h.leased
  intro hstart
  rw [h.released hstart] at hhere
  cases hhere

theorem Inv.started_of_alive (halive : s.driver.stage.alive = true) : s.start ≠ .reserved := by
  intro hstart
  rw [(h.fresh hstart).1] at halive
  cases halive

end Moves

section Steps

variable {s s' : State ρ} {event : Event ρ} (h : s.Inv) (horder : s.InOrder event)
include h horder

-- Of the steps of `start`, `pollFailed` and `driverDied` need that the driver has not adopted, which is
-- then also why `deleteRecord` loses no report, and `release` needs that the driver is gone.
theorem Inv.startStep (hstep : s.startStep event = some s') : s'.Inv := by
  cases event
  all_goals simp only [State.startStep, Option.ite_none_right_eq_some, Option.some.injEq, reduceCtorEq] at hstep
  all_goals rcases hstep with ⟨hguard, rfl⟩
  case createPod =>
    exact h.enter (by simp [hguard]) (by simp) (by simp) (fun _ _ hrecord => hrecord) (fun _ => rfl)
  case writeLaunch =>
    refine h.enter (by simp [hguard]) (by simp) (by simp) ?_ (fun _ => rfl)
    intro _ report hrecord
    rw [hrecord]
    rfl
  case pollRunning =>
    exact h.enter (by simp [hguard.1]) (by simp) (by simp) (fun _ _ hrecord => hrecord) (fun _ => rfl)
  case pollFailed =>
    refine h.enter (by simp [hguard.1]) (by simp) (by simp) (fun _ _ hrecord => hrecord) ?_
    intro hadopted
    rw [show s.driver.adopted = false from horder] at hadopted
    cases hadopted
  case handedOff =>
    exact h.enter (by simp [hguard.1]) (by simp) (by simp) (fun _ _ hrecord => hrecord) (fun _ => rfl)
  case driverDied =>
    refine h.enter (by simp [hguard.1]) (by simp) (by simp) (fun _ _ hrecord => hrecord) ?_
    intro hadopted
    rw [show s.driver.adopted = false from horder] at hadopted
    cases hadopted
  case deletePod =>
    refine h.enter (by simp [hguard]) (by simp) (by simp) (fun _ _ hrecord => hrecord) ?_
    intro hadopted
    rw [h.unadopted (by rw [hguard]; rfl)] at hadopted
    cases hadopted
  case deleteNamespace =>
    refine h.enter (by simp [hguard]) (by simp) (by simp) (fun _ _ hrecord => hrecord) ?_
    intro hadopted
    rw [h.unadopted (by rw [hguard]; rfl)] at hadopted
    cases hadopted
  case deleteRecord =>
    have hunadopted := h.unadopted (by rw [hguard]; rfl)
    rw [Bool.eq_false_iff] at hunadopted
    exact h.enter (by simp [hguard]) (by simp) (by simp) (fun hadopted => absurd hadopted hunadopted)
      (fun hadopted => absurd hadopted hunadopted)
  case release =>
    have hunadopted := h.unadopted (by rw [hguard]; rfl)
    rw [Bool.eq_false_iff] at hunadopted
    refine ⟨fun hstart => absurd rfl hstart, fun _ => horder, ?_, h.read, h.renews, h.reported,
      fun hadopted => absurd hadopted hunadopted⟩
    intro hstart
    cases hstart
  case renewStart => exact ⟨fun _ => ⟨.start, rfl⟩, h.released, h.fresh, h.read, h.renews, h.reported, h.spared⟩

theorem Inv.driverStep (hstep : s.driverStep event = some s') : s'.Inv := by
  cases event with
  | boot =>
    simp only [State.driverStep, Option.ite_none_right_eq_some, Option.some.injEq] at hstep
    rcases hstep with ⟨⟨habsent, hpending⟩, rfl⟩
    have hhere := driverGone_of_pending habsent hpending
    have hstarted : s.start ≠ .reserved := by
      intro hstart
      rw [(h.fresh hstart).2] at hpending
      cases hpending
    exact h.drive hhere hstarted (h.leased_of_here hhere) (fun _ hread => by cases hread)
      (fun _ hrenews => by cases hrenews) h.reported h.spared
  | adoptGet =>
    simp only [State.driverStep, Option.ite_none_right_eq_some, Option.some.injEq] at hstep
    rcases hstep with ⟨hbooted, rfl⟩
    have halive : s.driver.stage.alive = true := by rw [hbooted]; rfl
    have hhere := driverGone_of_alive halive
    rcases h.leased_of_here hhere with ⟨holder, hlease⟩
    have hget : s.adoptGet = s.setStage (.read s.reserve) := by rw [State.adoptGet, hlease]
    rw [hget]
    exact h.drive hhere (h.started_of_alive halive) ⟨holder, hlease⟩ (fun _ hread => by cases hread; rfl)
      (fun _ hrenews => by cases hrenews) h.reported h.spared
  | adoptWrite =>
    unfold State.driverStep at hstep
    dsimp only at hstep
    split at hstep
    . next reserve hstage =>
      cases hstep
      have hreserve := h.read reserve hstage
      have halive : s.driver.stage.alive = true := by rw [hstage]; rfl
      refine h.drive (driverGone_of_alive halive) (h.started_of_alive halive) ⟨.driver, by rw [hreserve]⟩
        (fun _ hread => by cases hread) ?_ ?_ (fun _ => horder)
      . intro _ hrenews
        cases hrenews
        exact ⟨hreserve, rfl⟩
      . intro report hreport
        exact ⟨rfl, (h.reported report hreport).2⟩
    . cases hstep
  | renewDriver =>
    rcases Option.map_eq_some_iff.mp hstep with ⟨reserve, hreserve, rfl⟩
    have halive : s.driver.stage.alive = true := by
      cases hstage : s.driver.stage with
      | holding r => rfl
      | finishing r => rfl
      | _ =>
        rw [hstage] at hreserve
        cases hreserve
    exact h.drive (driverGone_of_alive halive) (h.started_of_alive halive)
      ⟨.driver, by rw [(h.renews reserve hreserve).1]⟩ h.read h.renews h.reported h.spared
  | writeReport report =>
    unfold State.driverStep at hstep
    dsimp only at hstep
    split at hstep
    . next reserve hstage =>
      cases hstep
      have halive : s.driver.stage.alive = true := by rw [hstage]; rfl
      have hhere := driverGone_of_alive halive
      have hadopted := h.renews reserve (by rw [hstage, Stage.renews])
      rcases Option.isSome_iff_exists.mp (show s.record.isSome = true from horder) with ⟨record, hrecord⟩
      refine h.drive hhere (h.started_of_alive halive) (h.leased_of_here hhere) (fun _ hread => by cases hread)
        ?_ ?_ h.spared
      . intro _ hrenews
        cases hrenews
        exact hadopted
      . intro _ hreport
        cases hreport
        refine ⟨hadopted.2, ?_⟩
        rw [hrecord]
        rfl
    . cases hstep
  | exit =>
    simp only [State.driverStep, Option.ite_none_right_eq_some, Option.some.injEq] at hstep
    rcases hstep with ⟨halive, rfl⟩
    have hhere := driverGone_of_alive halive
    exact h.drive hhere (h.started_of_alive halive) (h.leased_of_here hhere) (fun _ hread => by cases hread)
      (fun _ hrenews => by cases hrenews) h.reported h.spared
  | _ => cases hstep

theorem Inv.kubeletStep (hstep : s.kubeletStep event = some s') : s'.Inv := by
  rcases h with ⟨hleased, hreleased, hfresh, hread, hrenews, hreported, hspared⟩
  cases event with
  | phaseRunning =>
    simp only [State.kubeletStep, Option.ite_none_right_eq_some, Option.some.injEq] at hstep
    rcases hstep with ⟨halive, rfl⟩
    have hhere := driverGone_of_alive halive
    refine ⟨hleased, ?_, ?_, hread, hrenews, hreported, hspared⟩
    . intro hstart
      rw [hreleased hstart] at hhere
      cases hhere
    . intro hstart
      rw [(hfresh hstart).1] at halive
      cases halive
  | phaseEnded succeeded =>
    have hended : ∃ phase, (⟨phase, false⟩ : Pod).terminal = true ∧ s' = s.setPhase phase := by
      unfold State.kubeletStep at hstep
      dsimp only at hstep
      split at hstep
      . cases hstep
        cases succeeded
        . exact ⟨.failed, rfl, rfl⟩
        . exact ⟨.succeeded, rfl, rfl⟩
      . split at hstep
        . cases hstep
          exact ⟨.failed, rfl, rfl⟩
        . cases hstep
    rcases hended with ⟨phase, hphase, rfl⟩
    refine ⟨hleased, ?_, ?_, hread, hrenews, hreported, hspared⟩
    . intro hstart
      exact driverGone_setPhase hphase (hreleased hstart)
    . intro hstart
      rcases hfresh hstart with ⟨habsent, hpod⟩
      exact ⟨habsent, by rw [setPhase, hpod]; rfl⟩
  | removePod =>
    simp only [State.kubeletStep, Option.ite_none_right_eq_some, Option.some.injEq] at hstep
    rcases hstep with ⟨_, rfl⟩
    refine ⟨hleased, ?_, fun hstart => ⟨(hfresh hstart).1, rfl⟩, hread, hrenews, hreported, hspared⟩
    intro hstart
    have hgone := hreleased hstart
    unfold driverGone at hgone ⊢
    simp_all
    exact hgone.imp_right And.left
  | _ => cases hstep

theorem Inv.step {r : Unit} (hstep : s.step event = .ok (s', r)) : s'.Inv := by
  rcases step_ok hstep with hstep | hstep | hstep
  . exact h.startStep horder hstep
  . exact h.driverStep horder hstep
  . exact h.kubeletStep horder hstep

end Steps

theorem Inv.safe {s : State ρ} (h : s.Inv) : s.Safe where
  covered := by
    intro _ hthere
    by_cases hreleased : s.start = .released
    . rw [hreleased, h.released hreleased] at hthere
      rcases hthere with hthere | hthere
      . cases hthere
      . cases hthere
    . exact h.leased hreleased
  spared := h.spared
  kept report hreport := (h.reported report hreport).2

theorem inOrder_of_safe {s s' : State ρ} {event : Event ρ} {r : Unit} (hstep : s.step event = .ok (s', r))
    (hsafe : s'.Safe)
    : s.InOrder event := by
  cases event with
  | pollFailed | driverDied =>
    unfold InOrder
    rcases step_ok hstep with hstep | hstep | hstep
    . simp only [State.startStep, Option.ite_none_right_eq_some, Option.some.injEq] at hstep
      rcases hstep with ⟨_, rfl⟩
      have hspared := hsafe.spared
      simpa [Start.abandons] using hspared
    . cases hstep
    . cases hstep
  | adoptWrite =>
    unfold InOrder
    rcases step_ok hstep with hstep | hstep | hstep
    . cases hstep
    . unfold State.driverStep at hstep
      dsimp only at hstep
      split at hstep
      . cases hstep
        exact hsafe.spared rfl
      . cases hstep
    . cases hstep
  | writeReport report =>
    unfold InOrder
    rcases step_ok hstep with hstep | hstep | hstep
    . cases hstep
    . unfold State.driverStep at hstep
      dsimp only at hstep
      split at hstep
      . cases hstep
        have hkept : s.record.map (fun _ => (⟨some report⟩ : Record ρ)) = some ⟨some report⟩ := hsafe.kept report rfl
        rw [← Option.isSome_map, hkept]
        rfl
      . cases hstep
    . cases hstep
  | release =>
    unfold InOrder
    rcases step_ok hstep with hstep | hstep | hstep
    . simp only [State.startStep, Option.ite_none_right_eq_some, Option.some.injEq] at hstep
      rcases hstep with ⟨_, rfl⟩
      cases hgone : s.driverGone with
      | true => rfl
      | false =>
        rcases hsafe.covered Start.noConfusion (Or.inr hgone) with ⟨holder, hlease⟩
        cases hlease
    . cases hstep
    . cases hstep
  | _ => trivial

/--
A launch keeps the reservation, the run that took over and its verdict at every moment, exactly in the
runs in which the four steps come in order.
-/
theorem launch_safe_iff (reserve : Qos.Resources) (events : List (Event ρ)) (last : State ρ)
    (hexec : Run.exec step (.init reserve) events = .ok last)
    : (∀ pre post s, events = pre ++ post → Run.exec step (.init reserve) pre = .ok s → s.Safe) ↔
        Run.Along step InOrder (.init reserve) events := by
  constructor
  . intro h
    apply Run.along_of_get
    rintro pre event post s rfl hs
    rw [Run.exec_append hs] at hexec
    rcases Run.exec_cons_ok hexec with ⟨s', r, hstep, _⟩
    apply inOrder_of_safe hstep
    apply h (pre ++ [event]) post
    . rw [List.append_assoc]
      rfl
    . rw [Run.exec_append hs]
      simp only [Run.exec, hstep]
  . rintro halong pre post s rfl hs
    apply Inv.safe
    apply Run.exec_invariant_along (I := State.Inv) ?_ (Inv.init reserve) halong.left hs
    intro t event t' r ht horder hstep
    exact ht.step horder hstep

namespace Sample

def reserve : Qos.Resources := .new 4000 (8 * 1024 * 1024 * 1024) 0 0

-- The driver adopts, `start` sees it, and the run ends with a verdict.
def ordered : List (Event String) :=
  [.createPod, .writeLaunch, .boot, .phaseRunning, .pollRunning, .adoptGet, .renewStart, .adoptWrite, .handedOff,
    .renewDriver, .writeReport "passed", .exit, .phaseEnded true]

-- The driver adopts, fails, reports and exits between two polls of `start`.
def quick : List (Event String) :=
  [.createPod, .writeLaunch, .boot, .adoptGet, .adoptWrite, .writeReport "failed", .exit, .phaseEnded false,
    .pollFailed, .deletePod, .deleteNamespace, .deleteRecord, .release]

-- The driver reports before its launch is recorded.
def early : List (Event String) :=
  [.createPod, .boot, .adoptGet, .adoptWrite, .writeReport "failed", .writeLaunch]

-- The lease is released while the driver still runs.
def terminating : List (Event String) :=
  [.createPod, .writeLaunch, .boot, .pollFailed, .deletePod, .deleteNamespace, .deleteRecord, .release]

theorem ordered_ok : ∃ last, Run.exec step (.init reserve) ordered = .ok last := ⟨_, rfl⟩

theorem ordered_inOrder : Run.Along step InOrder (.init reserve) ordered := by
  have taking : ∀ {s t : State String} {event : Event String} {events : List (Event String)},
      s.InOrder event → s.step event = .ok (t, ()) → Run.Along step InOrder t events →
      Run.Along step InOrder s (event :: events) := Run.along_cons
  exact taking trivial rfl <| taking trivial rfl <| taking trivial rfl <| taking trivial rfl <|
    taking trivial rfl <| taking trivial rfl <| taking trivial rfl <| taking rfl rfl <| taking trivial rfl <|
    taking trivial rfl <| taking rfl rfl <| taking trivial rfl <| taking trivial rfl trivial

end Sample

theorem ordered_launch_safe
    : (∃ last, Run.exec step (.init Sample.reserve) Sample.ordered = .ok last) ∧
        ∀ pre post s, Sample.ordered = pre ++ post → Run.exec step (.init Sample.reserve) pre = .ok s → s.Safe := by
  rcases Sample.ordered_ok with ⟨last, hlast⟩
  refine ⟨⟨last, hlast⟩, ?_⟩
  exact (launch_safe_iff Sample.reserve Sample.ordered last hlast).mpr Sample.ordered_inOrder

/--
Three launches that lose something. A driver that adopts and fails between two polls is abandoned, and
its verdict is deleted. A driver that reports before the launch is recorded loses its verdict. A driver
that still runs loses its reservation.
-/
theorem launch_unsafe
    : (∃ s, Run.exec step (.init Sample.reserve) Sample.quick = .ok s ∧ s.driver.adopted = true ∧
          s.start.abandons = true ∧ s.driver.report = some "failed" ∧ s.record = none ∧ ¬s.Safe) ∧
      (∃ s, Run.exec step (.init Sample.reserve) Sample.early = .ok s ∧ s.driver.report = some "failed" ∧
          s.record = some ⟨none⟩ ∧ ¬s.Safe) ∧
      (∃ s, Run.exec step (.init Sample.reserve) Sample.terminating = .ok s ∧ s.driver.stage = .booted ∧
          s.lease = none ∧ ¬s.Safe) := by
  refine ⟨⟨_, rfl, rfl, rfl, rfl, rfl, ?_⟩, ⟨_, rfl, rfl, rfl, ?_⟩, ⟨_, rfl, rfl, rfl, ?_⟩⟩
  . intro h
    cases h.spared rfl
  . intro h
    cases h.kept "failed" rfl
  . intro h
    rcases h.covered Start.noConfusion (Or.inr rfl) with ⟨holder, hlease⟩
    cases hlease

end State
end Launch
end Sync
