import Ztest.Profiling.Impl

namespace Profiling

theorem extend_apply (retired : Ledger) (tenants : List String) (now : Nat) (t : String)
    : extend retired tenants now t = if t ∈ tenants then some now else retired t := by
  induction tenants generalizing retired with
  | nil => simp [extend]
  | cons tenant rest ih =>
    have hunfold : extend retired (tenant :: rest) now = extend (Function.update retired tenant (some now)) rest now := rfl
    rw [hunfold, ih]
    by_cases hrest : t ∈ rest
    . rw [if_pos hrest, if_pos (List.mem_cons_of_mem _ hrest)]
    . rw [if_neg hrest]
      by_cases heq : t = tenant
      . subst heq
        rw [Function.update_self, if_pos List.mem_cons_self]
      . rw [Function.update_of_ne heq, if_neg]
        simp [heq, hrest]

theorem retire_of_mem {tenants : List String} {t : String} (h : t ∈ tenants) (retired : Ledger) (now : Nat)
    : retire retired tenants now t = some now := by
  unfold retire retain
  rw [extend_apply, if_pos h, Option.filter_some, Nat.sub_self]
  rfl

theorem retire_of_not_mem {tenants : List String} {t : String} (h : t ∉ tenants) (retired : Ledger) (now : Nat)
    : retire retired tenants now t = (retired t).filter fun stamp => now - stamp < retirementTtl := by
  unfold retire retain
  rw [extend_apply, if_neg h]

-- The entry of `t` after the patch is no older than `stamp`.
def Keeps (tenants : List String) (retired : Ledger) (now : Nat) (t : String) (stamp : Nat) : Prop :=
  if t ∈ tenants then stamp ≤ now else ∃ read, retired t = some read ∧ stamp ≤ read

theorem retire_keeps_iff {tenants : List String} {retired : Ledger} {now stamp : Nat} {t : String}
    (hlive : now < stamp + retirementTtl)
    : (∃ kept, retire retired tenants now t = some kept ∧ stamp ≤ kept) ↔ Keeps tenants retired now t stamp := by
  unfold Keeps
  split
  . next hmem =>
    rw [retire_of_mem hmem]
    constructor
    . rintro ⟨kept, heq, hle⟩
      cases heq
      exact hle
    . intro hle
      exact ⟨now, rfl, hle⟩
  . next hmem =>
    rw [retire_of_not_mem hmem]
    constructor
    . rintro ⟨kept, heq, hle⟩
      exact ⟨kept, (Option.filter_eq_some_iff.mp heq).1, hle⟩
    . rintro ⟨read, heq, hle⟩
      refine ⟨read, ?_, hle⟩
      rw [heq, Option.filter_some, if_pos]
      apply decide_eq_true
      unfold retirementTtl at hlive ⊢
      omega

namespace State

-- The entry of `t` is no older than `stamp`, and there is an override for it.
def Held (s : State) (t : String) (stamp : Nat) : Prop :=
  ∃ kept, s.document.ledger t = some kept ∧ stamp ≤ kept ∧ s.document.overrides t = some ⟨retiredRetention⟩

/--
A call that returned is answerable for the entry of `t`.
-/
def Owed (s : State) (t : String) (stamp : Nat) : Prop :=
  s.document.ledger t = some stamp ∧
    ∃ i tenants now, s.calls i = .returned tenants now ∧ t ∈ tenants ∧ now ≤ stamp

/--
The patch of a call loses no entry that a returned call is answerable for.
-/
def KeepsOwed (s : State) : Event → Prop
  | .patch i _ =>
    match s.calls i with
    | .stamped tenants retired now =>
      ∀ t stamp, s.Owed t stamp → s.clock < stamp + retirementTtl → Keeps tenants retired now t stamp
    | _ => True
  | _ => True

structure Inv (s : State) : Prop where
  derived : s.document.overrides = overridesOf s.document.ledger
  clock : ∀ i tenants retired now, s.calls i = .stamped tenants retired now → now ≤ s.clock

theorem held_of_ledger {s : State} (h : s.Inv) {t : String} {stamp kept : Nat}
    (heq : s.document.ledger t = some kept) (hle : stamp ≤ kept)
    : s.Held t stamp := by
  refine ⟨kept, heq, hle, ?_⟩
  rw [h.derived, overridesOf, heq]
  rfl

theorem setCall_self (s : State) (i : Nat) (call : Call) : (s.setCall i call).calls i = call :=
  Function.update_self ..

theorem setCall_of_ne (s : State) {i j : Nat} (call : Call) (h : i ≠ j) : (s.setCall j call).calls i = s.calls i :=
  Function.update_of_ne h ..

theorem land_self (s : State) (i : Nat) (call : Call) (retired : Ledger) : (s.land i call retired).calls i = call :=
  Function.update_self ..

theorem land_of_ne (s : State) {i j : Nat} (call : Call) (retired : Ledger) (h : i ≠ j)
    : (s.land j call retired).calls i = s.calls i :=
  Function.update_of_ne h ..

/--
What a step can do: a call moves on and nothing else changes, a patch lands, or time passes.
-/
theorem step_cases {s s' : State} {event : Event} {r : Unit} (h : s.step event = .ok (s', r))
    : (∃ i call, s' = s.setCall i call ∧ (∀ tenants now, call ≠ .returned tenants now) ∧
          (∀ tenants now, s.calls i ≠ .returned tenants now) ∧
          (∀ tenants retired now, call = .stamped tenants retired now → now = s.clock)) ∨
      (∃ i answered tenants retired now, event = .patch i answered ∧ s.calls i = .stamped tenants retired now ∧
          s' = s.land i (if answered then .returned tenants now else .failed) (retire retired tenants now)) ∨
      ∃ seconds, s' = { s with clock := s.clock + seconds } := by
  cases event with
  | get i tenants =>
    unfold step at h
    dsimp only at h
    split at h
    . next hcall =>
      cases h
      unfold schedulePurge
      left
      split
      . exact ⟨i, .skipped, rfl, by simp, by simp [hcall], by simp⟩
      . exact ⟨i, _, rfl, by simp, by simp [hcall], by simp⟩
    . cases h
  | now i =>
    unfold step at h
    dsimp only at h
    split at h
    . next hcall =>
      cases h
      left
      refine ⟨i, _, rfl, by simp, by simp [hcall], ?_⟩
      intro tenants retired now heq
      cases heq
      rfl
    . cases h
  | patch i answered =>
    unfold step at h
    dsimp only at h
    split at h
    . next tenants retired now hcall =>
      cases h
      right
      left
      exact ⟨i, answered, tenants, retired, now, rfl, hcall, rfl⟩
    . cases h
  | fail i =>
    unfold step at h
    dsimp only at h
    left
    split at h
    all_goals cases h
    all_goals exact ⟨i, .failed, rfl, by simp, by simp [*], by simp⟩
  | tick seconds =>
    cases h
    right
    right
    exact ⟨seconds, rfl⟩

variable {s s' : State} {event : Event} {r : Unit}

theorem Inv.init (clock : Nat) : (State.init clock).Inv where
  derived := rfl
  clock := by
    intro i tenants retired now h
    cases h

theorem Inv.step (h : s.Inv) (hstep : s.step event = .ok (s', r)) : s'.Inv := by
  rcases step_cases hstep with ⟨j, call, rfl, _, _, hstamp⟩ | ⟨j, answered, tenants, retired, now, _, _, rfl⟩ |
    ⟨seconds, rfl⟩
  . refine ⟨h.derived, ?_⟩
    intro i tenants retired now hcall
    by_cases hi : i = j
    . subst hi
      rw [setCall_self] at hcall
      exact Nat.le_of_eq (hstamp tenants retired now hcall)
    . rw [setCall_of_ne s call hi] at hcall
      exact h.clock i tenants retired now hcall
  . refine ⟨rfl, ?_⟩
    intro i tenants' retired' now' hcall
    by_cases hi : i = j
    . subst hi
      rw [land_self] at hcall
      cases answered
      . cases hcall
      . cases hcall
    . rw [land_of_ne s _ _ hi] at hcall
      exact h.clock i tenants' retired' now' hcall
  . refine ⟨h.derived, ?_⟩
    intro i tenants retired now hcall
    exact Nat.le_add_right_of_le (h.clock i tenants retired now hcall)

theorem step_clock_le (hstep : s.step event = .ok (s', r)) : s.clock ≤ s'.clock := by
  rcases step_cases hstep with ⟨_, _, rfl, _⟩ | ⟨_, _, _, _, _, _, _, rfl⟩ | ⟨seconds, rfl⟩
  . exact Nat.le_refl _
  . exact Nat.le_refl _
  . exact Nat.le_add_right _ _

theorem exec_clock_le {events : List Event} (hexec : Run.exec step s events = .ok s') : s.clock ≤ s'.clock := by
  apply Run.exec_invariant (I := fun t : State => s.clock ≤ t.clock) ?_ (Nat.le_refl _) hexec
  intro t event t' r hle hstep
  exact Nat.le_trans hle (step_clock_le hstep)

theorem returned_step {i now : Nat} {tenants : List String} (hcall : s.calls i = .returned tenants now)
    (hstep : s.step event = .ok (s', r))
    : s'.calls i = .returned tenants now := by
  rcases step_cases hstep with ⟨j, call, rfl, _, hnot, _⟩ | ⟨j, answered, tenants', retired, now', _, hj, rfl⟩ |
    ⟨seconds, rfl⟩
  . have hi : i ≠ j := by
      rintro rfl
      exact hnot tenants now hcall
    rw [setCall_of_ne s call hi]
    exact hcall
  . have hi : i ≠ j := by
      rintro rfl
      rw [hcall] at hj
      cases hj
    rw [land_of_ne s _ _ hi]
    exact hcall
  . exact hcall

theorem Owed.step {t : String} {stamp : Nat} (h : s.Inv) (howed : s.Owed t stamp) (hkeeps : s.KeepsOwed event)
    (hstep : s.step event = .ok (s', r)) (hlive : s'.clock < stamp + retirementTtl)
    : ∃ kept, stamp ≤ kept ∧ s'.Owed t kept := by
  have hlive' : s.clock < stamp + retirementTtl := Nat.lt_of_le_of_lt (step_clock_le hstep) hlive
  rcases howed with ⟨hledger, i, owner, now, hcall, hmem, hle⟩
  have hreturned := returned_step hcall hstep
  rcases step_cases hstep with ⟨_, _, rfl, _⟩ | ⟨j, answered, tenants, retired, now', rfl, hj, rfl⟩ | ⟨seconds, rfl⟩
  . exact ⟨stamp, Nat.le_refl _, hledger, i, owner, now, hreturned, hmem, hle⟩
  . simp only [KeepsOwed, hj] at hkeeps
    have hkeep := hkeeps t stamp ⟨hledger, i, owner, now, hcall, hmem, hle⟩ hlive'
    have hnow : now' < stamp + retirementTtl := Nat.lt_of_le_of_lt (h.clock j _ _ _ hj) hlive'
    rcases (retire_keeps_iff hnow).mpr hkeep with ⟨kept, hkept, hstamp⟩
    exact ⟨kept, hstamp, hkept, i, owner, now, hreturned, hmem, Nat.le_trans hle hstamp⟩
  . exact ⟨stamp, Nat.le_refl _, hledger, i, owner, now, hreturned, hmem, hle⟩

theorem Owed.exec {events : List Event} {t : String} {stamp : Nat} (h : s.Inv) (howed : s.Owed t stamp)
    (halong : Run.Along State.step KeepsOwed s events) (hexec : Run.exec State.step s events = .ok s')
    (hlive : s'.clock < stamp + retirementTtl)
    : ∃ kept, stamp ≤ kept ∧ s'.Owed t kept := by
  induction events generalizing s stamp with
  | nil =>
    cases hexec
    exact ⟨stamp, Nat.le_refl _, howed⟩
  | cons event events ih =>
    rcases Run.exec_cons_ok hexec with ⟨u, r, hstep, hrest⟩
    have hu : u.clock < stamp + retirementTtl := Nat.lt_of_le_of_lt (exec_clock_le hrest) hlive
    rcases howed.step h halong.1 hstep hu with ⟨kept, hle, hkept⟩
    rcases ih (h.step hstep) hkept (halong.2 u r hstep) hrest (by omega) with ⟨last, hlast, howed'⟩
    exact ⟨last, Nat.le_trans hle hlast, howed'⟩

/--
Every call that returned left an entry for each of its tenants.
-/
def Settled (s : State) : Prop :=
  ∀ i tenants now, s.calls i = .returned tenants now → s.clock < now + retirementTtl → ∀ t ∈ tenants,
    ∃ stamp, s.Owed t stamp ∧ now ≤ stamp

theorem Settled.step (h : s.Inv) (hsettled : s.Settled) (hkeeps : s.KeepsOwed event)
    (hstep : s.step event = .ok (s', r))
    : s'.Settled := by
  intro i tenants now hcall hlive t hmem
  by_cases hbefore : s.calls i = .returned tenants now
  . have hlive' := Nat.lt_of_le_of_lt (step_clock_le hstep) hlive
    rcases hsettled i tenants now hbefore hlive' t hmem with ⟨stamp, howed, hle⟩
    rcases howed.step h hkeeps hstep (by omega) with ⟨kept, hkept, howed'⟩
    exact ⟨kept, howed', Nat.le_trans hle hkept⟩
  . -- The call returned in this step.
    rcases step_cases hstep with ⟨j, call, rfl, hnot, _⟩ | ⟨j, answered, owner, retired, now', rfl, hj, rfl⟩ |
      ⟨seconds, rfl⟩
    . by_cases hi : i = j
      . subst hi
        rw [setCall_self] at hcall
        exact absurd hcall (hnot tenants now)
      . rw [setCall_of_ne s call hi] at hcall
        exact absurd hcall hbefore
    . by_cases hi : i = j
      . subst hi
        have hcall' := hcall
        rw [land_self] at hcall
        cases answered with
        | false => cases hcall
        | true =>
          cases hcall
          exact ⟨now, ⟨retire_of_mem hmem retired now, i, tenants, now, hcall', hmem, Nat.le_refl _⟩, Nat.le_refl _⟩
      . rw [land_of_ne s _ _ hi] at hcall
        exact absurd hcall hbefore
    . exact absurd hcall hbefore

end State

/--
At every moment of the run, the tenants of a call that returned have an entry no older than the call's
reading of the clock, whatever stamp the entry carries it stays until its lifetime is over, and the two
documents have the same keys.
-/
def NoTenantLost (start : State) (events : List Event) : Prop :=
  ∀ pre mid post s s', events = pre ++ mid ++ post → Run.exec State.step start pre = .ok s →
    Run.exec State.step s mid = .ok s' →
    (∀ i tenants now, s.calls i = .returned tenants now → ∀ t ∈ tenants,
      (s.clock < now + retirementTtl → s.Held t now) ∧
        ∀ stamp, now ≤ stamp → s.document.ledger t = some stamp → s'.clock < stamp + retirementTtl →
          s'.Held t stamp) ∧
    ∀ t, (s.document.overrides t).isSome = (s.document.ledger t).isSome

/--
No retired tenant is lost exactly in the runs in which no patch drops an entry or turns it back.
-/
theorem no_tenant_lost_iff (clock : Nat) (events : List Event) (last : State)
    (hexec : Run.exec State.step (.init clock) events = .ok last)
    : NoTenantLost (.init clock) events ↔ Run.Along State.step State.KeepsOwed (.init clock) events := by
  constructor
  . intro h
    apply Run.along_of_get
    intro pre event post s heq hs
    subst heq
    cases event with
    | patch i answered =>
      unfold State.KeepsOwed
      dsimp only
      split
      . next tenants retired now hcall =>
        rintro t stamp ⟨hledger, j, owner, reading, hj, hmem, hle⟩ hlive
        have hinv : s.Inv := Run.exec_invariant (fun _ _ _ _ hu hstep => hu.step hstep) (State.Inv.init clock) hs
        have hnow : now < stamp + retirementTtl := Nat.lt_of_le_of_lt (hinv.clock i _ _ _ hcall) hlive
        rw [Run.exec_append hs] at hexec
        rcases Run.exec_cons_ok hexec with ⟨u, r, hstep, _⟩
        have hone : Run.exec State.step s [.patch i answered] = .ok u := by
          simp only [Run.exec, hstep]
        have hclock : u.clock = s.clock ∧ u.document.ledger = retire retired tenants now := by
          unfold State.step at hstep
          simp only [hcall] at hstep
          cases hstep
          exact ⟨rfl, rfl⟩
        have hheld := ((h pre [.patch i answered] post s u (by simp) hs hone).1 j owner reading hj t hmem).2
          stamp hle hledger (by rw [hclock.1]; exact hlive)
        rcases hheld with ⟨kept, hkept, hstamp, _⟩
        rw [hclock.2] at hkept
        exact (retire_keeps_iff hnow).mp ⟨kept, hkept, hstamp⟩
      . trivial
    | _ => trivial
  . rintro halong pre mid post s s' rfl hs hs'
    have hpre : Run.Along State.step State.KeepsOwed (.init clock) (pre ++ mid) := halong.left
    have hinv : s.Inv ∧ s.Settled := by
      apply Run.exec_invariant_along (I := fun u : State => u.Inv ∧ u.Settled) ?_ ?_ hpre.left hs
      . rintro u event u' r ⟨hu, hsettled⟩ hkeeps hstep
        exact ⟨hu.step hstep, hsettled.step hu hkeeps hstep⟩
      . refine ⟨State.Inv.init clock, ?_⟩
        intro i tenants now hcall
        cases hcall
    have hmid : s'.Inv := Run.exec_invariant (fun _ _ _ _ hu hstep => hu.step hstep) hinv.1 hs'
    constructor
    . intro i tenants now hcall t hmem
      constructor
      . intro hlive
        rcases hinv.2 i tenants now hcall hlive t hmem with ⟨stamp, howed, hle⟩
        exact State.held_of_ledger hinv.1 howed.1 hle
      . intro stamp hle hledger hlive
        have howed : s.Owed t stamp := ⟨hledger, i, tenants, now, hcall, hmem, hle⟩
        rcases howed.exec hinv.1 (hpre.right hs) hs' hlive with ⟨kept, hkept, howed'⟩
        exact State.held_of_ledger hmid howed'.1 hkept
    . intro t
      rw [hinv.1.derived, overridesOf, Option.isSome_map]

namespace Sample

def serial : List Event :=
  [.get 0 ["a"], .now 0, .patch 0 true, .get 1 ["b"], .now 1, .patch 1 true]

-- Both calls read the seeded document.
def crossed : List Event :=
  [.get 0 ["a"], .get 1 ["b"], .now 0, .now 1, .patch 0 true, .patch 1 true]

def run (events : List Event) : Except Run.Disabled State := Run.exec State.step (.init 5) events

theorem serial_ok : ∃ last, run serial = .ok last := ⟨_, rfl⟩

theorem first_keeps {s : State} (h : run [.get 0 ["a"], .now 0] = .ok s) : s.KeepsOwed (.patch 0 true) := by
  cases h
  rintro t stamp ⟨hledger, _⟩
  cases hledger

theorem second_keeps {s : State} (h : run [.get 0 ["a"], .now 0, .patch 0 true, .get 1 ["b"], .now 1] = .ok s)
    : s.KeepsOwed (.patch 1 true) := by
  cases h
  rintro t stamp ⟨hledger, _⟩ _
  have hread : retire (fun _ => none) ["a"] 5 t = some stamp := hledger
  have hlt : stamp ≤ 5 := by
    by_cases ha : t ∈ ["a"]
    . rw [retire_of_mem ha] at hread
      cases hread
      exact Nat.le_refl 5
    . rw [retire_of_not_mem ha] at hread
      cases hread
  unfold Keeps
  split
  . exact hlt
  . exact ⟨stamp, hledger, Nat.le_refl _⟩

theorem serial_along : Run.Along State.step State.KeepsOwed (.init 5) serial :=
  Run.along_cons trivial rfl (Run.along_cons trivial rfl (Run.along_cons (first_keeps rfl) rfl
    (Run.along_cons trivial rfl (Run.along_cons trivial rfl (Run.along_cons (second_keeps rfl) rfl trivial)))))

end Sample

theorem serial_no_tenant_lost : NoTenantLost (.init 5) Sample.serial := by
  rcases Sample.serial_ok with ⟨last, hlast⟩
  exact (no_tenant_lost_iff 5 Sample.serial last hlast).mpr Sample.serial_along

/--
Two calls that both read before either wrote: the second patch drops the tenant of the first call,
which has already returned.
-/
theorem crossed_tenant_lost
    : (∃ last, Run.exec State.step (.init 5) Sample.crossed = .ok last) ∧ ¬NoTenantLost (.init 5) Sample.crossed := by
  refine ⟨⟨_, rfl⟩, ?_⟩
  intro h
  have hlost := ((h Sample.crossed [] [] _ _ rfl rfl rfl).1 0 ["a"] 5 rfl "a" List.mem_cons_self).1 (by decide)
  rcases hlost with ⟨kept, hledger, _⟩
  cases hledger

end Profiling
