import Ztest.Qos.Quantity
import Ztest.Qos.Resources

/-!
This module contains what the pods of a test request and what it is charged for them: the pod that
`manifest.rs` renders, the runner pod of `engine/pod_runner.rs`, the request that the ledger reads
back (`qos/units.rs`) and the budget of `env.rs`. Ports, probes, mounts and the security context of a
pod carry no request and are left out.
-/

namespace Env

open Qos (Cpu Mem Pool QosClass QosProfile Resources)

structure Sizing where
  cpu : Cpu
  memory : Mem

structure PodSpec where
  podName : Text
  label : Text
  image : Text
  resources : Option Sizing
  guaranteed : Option Sizing
  placement : Option Pool

structure Amounts where
  cpu : Text
  memory : Text

structure Toleration where
  key : String
  effect : String
  tolerationSeconds : Option Nat

structure Container where
  name : Text
  image : Text
  requests : Option Amounts
  limits : Option Amounts

structure Pod where
  name : Text
  containers : List Container
  nodeSelector : Option (String × String)
  tolerations : List Toleration

section Render

-- An explicit `.resources()` wins over the reserve of the backend.
def PodSpec.sizing (spec : PodSpec) : Option Sizing := spec.resources.or spec.guaranteed

def fastEvictTolerations : List Toleration :=
  [⟨"node.kubernetes.io/not-ready", "NoExecute", some 0⟩,
    ⟨"node.kubernetes.io/unreachable", "NoExecute", some 0⟩]

def podIsGuaranteed (containers : List Container) : Bool := containers.all fun c => c.limits.isSome

-- A pod that would not be Guaranteed is refused.
def PodSpec.render (spec : PodSpec) : Option Pod :=
  match spec.sizing with
  | none => none
  | some res =>
    let amounts : Amounts := ⟨res.cpu.toQuantity, res.memory.toQuantity⟩
    let containers : List Container := [⟨spec.label, spec.image, some amounts, some amounts⟩]
    let nvme := spec.placement = some .nvme
    if podIsGuaranteed containers then
      some
        { name := spec.podName
          containers
          nodeSelector := if nvme then some ("ztest.io/pool", "nvme") else none
          tolerations :=
            (if nvme then [⟨"ztest.io/pool", "NoSchedule", none⟩] else []) ++ fastEvictTolerations }
    else
      none

def buildPod (name image : Text) (tier : QosClass) : Option Pod :=
  match tier.profile.runner.guaranteedCpuMem with
  | none => none
  | some (cpu, memory) =>
    some
      { name
        containers := [⟨['t', 'e', 's', 't'], image, some ⟨cpu, memory⟩, some ⟨cpu, memory⟩⟩]
        nodeSelector := none
        tolerations := fastEvictTolerations }

end Render

section Ledger

-- The requests of a container as the parser reads them.
def Container.parsed (c : Container) : Qos.Container :=
  match c.requests with
  | none => ⟨0, 0, false⟩
  | some amounts => ⟨Qos.parseCpuMilli amounts.cpu, Qos.parseMemBytes amounts.memory, false⟩

def Pod.effectiveRequest (pod : Pod) : Resources :=
  Qos.podEffectiveRequest ⟨pod.containers.map Container.parsed, []⟩

end Ledger

section Budget

def Sizing.amount (res : Sizing) : Resources := .new res.cpu.millicores res.memory.bytes 0 0

def specRequest (spec : PodSpec) : Resources :=
  match spec.sizing with
  | some res => res.amount
  | none => .zero

inductive Bound where
  | ceiling (reserve : Resources)
  | exact (reserve : Resources)

def Bound.reserve : Bound → Resources
  | ceiling reserve => reserve
  | exact reserve => reserve

inductive BudgetError where
  | overTier (podName : Text) (requested tier : Resources)
  | overSchedule (committed reserve : Resources) (pods : List (Text × Resources))
  | slack (declared committed : Resources) (pods : List (Text × Resources))

structure DeployBudget where
  bound : Bound
  committed : Resources
  admitted : List (Text × Resources)

def assertOverrideWithinTier (spec : PodSpec) (tier : Resources) : Except BudgetError Unit :=
  match spec.resources with
  | none => .ok ()
  | some res =>
    if res.amount.fitsWithin tier then .ok () else .error (.overTier spec.podName res.amount tier)

namespace DeployBudget

def new (bound : Bound) : DeployBudget := ⟨bound, .zero, []⟩

def charge (budget : DeployBudget) (spec : PodSpec) : DeployBudget where
  bound := budget.bound
  committed := budget.committed.saturatingAdd (specRequest spec)
  admitted := budget.admitted ++ [(spec.podName, specRequest spec)]

def admitSpec (budget : DeployBudget) (spec : PodSpec) : Except BudgetError DeployBudget :=
  match assertOverrideWithinTier spec budget.bound.reserve with
  | .error e => .error e
  | .ok () =>
    let charged := budget.charge spec
    if charged.committed.fitsWithin budget.bound.reserve then
      .ok charged
    else
      .error (.overSchedule charged.committed budget.bound.reserve charged.admitted)

def admitAll (budget : DeployBudget) : List PodSpec → Except BudgetError DeployBudget
  | [] => .ok budget
  | spec :: rest =>
    match budget.admitSpec spec with
    | .error e => .error e
    | .ok charged => charged.admitAll rest

def close (budget : DeployBudget) : Except BudgetError Unit :=
  match budget.bound with
  | .ceiling _ => .ok ()
  | .exact declared =>
    if budget.committed.cpuMilli = declared.cpuMilli ∧ budget.committed.memBytes = declared.memBytes then
      .ok ()
    else
      .error (.slack declared budget.committed budget.admitted)

-- What `TestEnv::build` bounds the pods of a test by.
def ofProfile (footprint : Option Resources) (effective : QosProfile) : DeployBudget :=
  new (match footprint with
    | some declared => .exact declared
    | none => .ceiling effective.footprint)

end DeployBudget

end Budget

end Env
