import Ztest.Lib.Run
import Mathlib.Logic.Function.Basic

/-!
This module contains the retirement of profile tenants (`schedule_purge` in `profiling.rs`): any number
of calls that read the overrides ConfigMap, read the clock and overwrite the two keys of the ConfigMap
by a merge patch without a resource version.
-/

namespace Profiling

-- When each tenant was retired, in seconds since the epoch.
abbrev Ledger := String → Option Nat

structure TenantLimits where
  retentionPeriod : String

abbrev Overrides := String → Option TenantLimits

def retirementTtl : Nat := 24 * 60 * 60

def retiredRetention : String := "1s"

-- The two keys of `ztest-pyroscope-overrides`: `overrides.yaml` and `ztest-retired-at.yaml`.
structure Document where
  overrides : Overrides
  retired : Option Ledger

namespace Document

def seed : Document := ⟨fun _ => none, none⟩

def ledger (d : Document) : Ledger := d.retired.getD fun _ => none

end Document

def extend (retired : Ledger) (tenants : List String) (now : Nat) : Ledger :=
  tenants.foldl (fun l t => Function.update l t (some now)) retired

def retain (retired : Ledger) (now : Nat) : Ledger := fun t =>
  (retired t).filter fun stamp => now - stamp < retirementTtl

-- What a call writes after it read `retired`.
def retire (retired : Ledger) (tenants : List String) (now : Nat) : Ledger :=
  retain (extend retired tenants now) now

def overridesOf (retired : Ledger) : Overrides := fun t => (retired t).map fun _ => ⟨retiredRetention⟩

def rendered (retired : Ledger) : Document := ⟨overridesOf retired, some retired⟩

-- Where a call stands between its requests.
inductive Call where
  | fresh
  | read (tenants : List String) (retired : Ledger)
  | stamped (tenants : List String) (retired : Ledger) (now : Nat)
  | returned (tenants : List String) (now : Nat)
  -- `tenants.is_empty()`
  | skipped
  | failed

structure State where
  document : Document
  clock : Nat
  calls : Nat → Call

def State.init (clock : Nat) : State := ⟨.seed, clock, fun _ => .fresh⟩

inductive Event where
  | get (call : Nat) (tenants : List String)
  | now (call : Nat)
  -- The patch lands; the call hears of it or fails on a lost answer.
  | patch (call : Nat) (answered : Bool)
  -- A request fails without effect, or the process dies.
  | fail (call : Nat)
  | tick (seconds : Nat)

namespace State

def setCall (s : State) (i : Nat) (call : Call) : State := { s with calls := Function.update s.calls i call }

-- The merge patch overwrites both keys.
def land (s : State) (i : Nat) (call : Call) (retired : Ledger) : State :=
  { s.setCall i call with document := rendered retired }

def schedulePurge (s : State) (i : Nat) (tenants : List String) : State :=
  if tenants.isEmpty then s.setCall i .skipped else s.setCall i (.read tenants s.document.ledger)

def step (s : State) : Event → Except Run.Disabled (State × Unit)
  | .get i tenants =>
    match s.calls i with
    | .fresh => .ok (s.schedulePurge i tenants, ())
    | _ => .error .disabled
  | .now i =>
    match s.calls i with
    | .read tenants retired => .ok (s.setCall i (.stamped tenants retired s.clock), ())
    | _ => .error .disabled
  | .patch i answered =>
    match s.calls i with
    | .stamped tenants retired now =>
      let call := if answered then .returned tenants now else .failed
      .ok (s.land i call (retire retired tenants now), ())
    | _ => .error .disabled
  | .fail i =>
    match s.calls i with
    | .read _ _ => .ok (s.setCall i .failed, ())
    | .stamped _ _ _ => .ok (s.setCall i .failed, ())
    | .fresh => .ok (s.setCall i .failed, ())
    | _ => .error .disabled
  | .tick seconds => .ok ({ s with clock := s.clock + seconds }, ())

end State
end Profiling
