import Ztest.Lib.Saturating

/-!
This module contains the five dimensional resource amounts of `qos/mod.rs`. The operations are the
componentwise 64 bit ones of the source. Proofs look at them through `Resources.amt`, one dimension
at a time as a `Nat`.

It also contains what the ledger reads of a pod on the Kubernetes model of `qos/units.rs` (its run label, its
phase and its effective request, with the quantities of a container taken as parsed), and the tiers that a test
declares, with the profile each of them lowers to and the overrides of a single test. An `assert!` that fails
is `none`.
-/

namespace Qos

structure Resources where
  cpuMilli : UInt64
  memBytes : UInt64
  diskBps : UInt64
  diskIops : UInt64
  diskBytes : UInt64
  deriving DecidableEq, Inhabited

inductive Dim where
  | cpuMilli
  | memBytes
  | diskBps
  | diskIops
  | diskBytes
  deriving DecidableEq

namespace Resources

def zero : Resources := ⟨0, 0, 0, 0, 0⟩

def new (cpuMilli memBytes diskBps diskIops : UInt64) : Resources :=
  ⟨cpuMilli, memBytes, diskBps, diskIops, 0⟩

def withDisk (r : Resources) (diskBytes : UInt64) : Resources :=
  { r with diskBytes }

def fitsWithin (r cap : Resources) : Bool :=
  r.cpuMilli ≤ cap.cpuMilli
    && r.memBytes ≤ cap.memBytes
    && r.diskBps ≤ cap.diskBps
    && r.diskIops ≤ cap.diskIops
    && r.diskBytes ≤ cap.diskBytes

def zipWith (f : UInt64 → UInt64 → UInt64) (a b : Resources) : Resources where
  cpuMilli := f a.cpuMilli b.cpuMilli
  memBytes := f a.memBytes b.memBytes
  diskBps := f a.diskBps b.diskBps
  diskIops := f a.diskIops b.diskIops
  diskBytes := f a.diskBytes b.diskBytes

def saturatingSub (a b : Resources) : Resources := zipWith .saturatingSub a b

def saturatingAdd (a b : Resources) : Resources := zipWith .saturatingAdd a b

protected def max (a b : Resources) : Resources := zipWith max a b

protected def min (a b : Resources) : Resources := zipWith min a b

def get (r : Resources) : Dim → UInt64
  | .cpuMilli => r.cpuMilli
  | .memBytes => r.memBytes
  | .diskBps => r.diskBps
  | .diskIops => r.diskIops
  | .diskBytes => r.diskBytes

def amt (r : Resources) (d : Dim) : Nat := (r.get d).toNat

theorem amt_le (r : Resources) (d : Dim) : r.amt d ≤ 2 ^ 64 - 1 :=
  UInt64.toNat_le_maxValue _

theorem ext_amt {a b : Resources} (h : ∀ d, a.amt d = b.amt d) : a = b := by
  have hget : ∀ d, a.get d = b.get d := fun d => UInt64.toNat_inj.mp (h d)
  rcases a with ⟨a1, a2, a3, a4, a5⟩
  rcases b with ⟨b1, b2, b3, b4, b5⟩
  simp only [mk.injEq]
  exact ⟨hget .cpuMilli, hget .memBytes, hget .diskBps, hget .diskIops, hget .diskBytes⟩

@[simp]
theorem get_zipWith (f : UInt64 → UInt64 → UInt64) (a b : Resources) (d : Dim)
    : (zipWith f a b).get d = f (a.get d) (b.get d) := by
  cases d <;> rfl

@[simp]
theorem amt_zero (d : Dim) : zero.amt d = 0 := by
  cases d <;> rfl

@[simp]
theorem amt_saturatingSub (a b : Resources) (d : Dim)
    : (a.saturatingSub b).amt d = a.amt d - b.amt d := by
  simp [saturatingSub, amt]

@[simp]
theorem amt_saturatingAdd (a b : Resources) (d : Dim)
    : (a.saturatingAdd b).amt d = min (a.amt d + b.amt d) (2 ^ 64 - 1) := by
  simp [saturatingAdd, amt]

theorem amt_saturatingAdd_of_le {a b : Resources} {d : Dim} (h : a.amt d + b.amt d ≤ 2 ^ 64 - 1)
    : (a.saturatingAdd b).amt d = a.amt d + b.amt d := by
  rw [amt_saturatingAdd]
  omega

@[simp]
theorem amt_max (a b : Resources) (d : Dim) : (a.max b).amt d = max (a.amt d) (b.amt d) := by
  simp [Resources.max, amt, UInt64.toNat_max]

@[simp]
theorem amt_min (a b : Resources) (d : Dim) : (a.min b).amt d = min (a.amt d) (b.amt d) := by
  simp [Resources.min, amt, UInt64.toNat_min]

theorem amt_foldl_saturatingAdd {α : Type} (f : α → Resources) (l : List α) (acc : Resources) (d : Dim)
    : (l.foldl (fun acc x => acc.saturatingAdd (f x)) acc).amt d
        =
      min (acc.amt d + (l.map fun x => (f x).amt d).sum) (2 ^ 64 - 1) := by
  induction l generalizing acc with
  | nil =>
    have := acc.amt_le d
    simp only [List.foldl_nil, List.map_nil, List.sum_nil]
    omega
  | cons x l ih =>
    simp only [List.foldl_cons, List.map_cons, List.sum_cons]
    rw [ih, amt_saturatingAdd]
    omega

theorem fitsWithin_iff {r cap : Resources} : r.fitsWithin cap = true ↔ ∀ d, r.amt d ≤ cap.amt d := by
  simp only [fitsWithin, Bool.and_eq_true, decide_eq_true_eq, UInt64.le_iff_toNat_le]
  constructor
  . rintro ⟨⟨⟨⟨h1, h2⟩, h3⟩, h4⟩, h5⟩ d
    cases d <;> assumption
  . intro h
    exact ⟨⟨⟨⟨h .cpuMilli, h .memBytes⟩, h .diskBps⟩, h .diskIops⟩, h .diskBytes⟩

theorem eq_zero_iff {r : Resources} : r = zero ↔ ∀ d, r.amt d = 0 := by
  constructor
  . intro h d
    rw [h, amt_zero]
  . intro h
    apply ext_amt
    intro d
    rw [h, amt_zero]

end Resources

structure Container where
  cpu : UInt64
  memory : UInt64
  -- `restartPolicy: Always`, which makes an init container a native sidecar.
  restartAlways : Bool
  deriving DecidableEq

structure PodSpec where
  containers : List Container
  initContainers : List Container
  deriving DecidableEq

inductive PodPhase where
  | pending
  | running
  | succeeded
  | failed
  | unknown
  deriving DecidableEq

structure Pod where
  runId : Option String
  phase : Option PodPhase
  spec : Option PodSpec
  deriving DecidableEq

def containerRequests (c : Container) : Resources := .new c.cpu c.memory 0 0

structure Effective where
  running : Resources
  sidecars : Resources
  initPeak : Resources

section Effective

-- A container of any type, with whether it restarts always and what it counts for.
variable {C : Type} (restartAlways : C → Bool) (perContainer : C → Resources)

def Effective.initContainer (acc : Effective) (c : C) : Effective :=
  if restartAlways c then
    { acc with
      running := acc.running.saturatingAdd (perContainer c)
      sidecars := acc.sidecars.saturatingAdd (perContainer c) }
  else
    { acc with initPeak := acc.initPeak.max ((perContainer c).saturatingAdd acc.sidecars) }

def podEffective (containers initContainers : List C) : Resources :=
  let running := containers.foldl (fun acc c => acc.saturatingAdd (perContainer c)) .zero
  let acc := initContainers.foldl (Effective.initContainer restartAlways perContainer)
    ⟨running, .zero, .zero⟩
  acc.running.max acc.initPeak

end Effective

def podEffectiveRequest (pod : PodSpec) : Resources :=
  podEffective Container.restartAlways containerRequests pod.containers pod.initContainers

def podHoldsCapacity (pod : Pod) : Bool :=
  match pod.phase with
  | some .succeeded => false
  | some .failed => false
  | _ => true

def podFootprint (pod : Pod) : Resources :=
  match pod.spec with
  | some spec => podEffectiveRequest spec
  | none => .zero

def MIB : UInt64 := 1024 * 1024

def GIB : UInt64 := 1024 * MIB

inductive Pool where
  | general
  | nvme
  deriving DecidableEq

inductive QosClass where
  | integration
  | wallet
  | testnet
  | sync
  deriving DecidableEq

instance : Inhabited QosClass := ⟨.integration⟩

-- `hardCap` is in seconds.
structure QosProfile where
  footprint : Resources
  runner : Resources
  pool : Pool
  hardCap : Nat

def Resources.podSchedulable (r : Resources) : Bool := 0 < r.cpuMilli && 0 < r.memBytes

namespace QosProfile

def admitted (profile : QosProfile) : Resources := profile.footprint.saturatingAdd profile.runner

def withFootprint (profile : QosProfile) : Option Resources → Option QosProfile
  | none => some profile
  | some footprint => if footprint.podSchedulable then some { profile with footprint } else none

def withRunner (profile : QosProfile) : Option Resources → Option QosProfile
  | none => some profile
  | some runner => if runner.podSchedulable then some { profile with runner } else none

end QosProfile

namespace QosClass

def profile : QosClass → QosProfile
  | .integration =>
    ⟨.new 2000 (4 * GIB) 0 0, .new 1000 GIB 0 0, .general, 10 * 60⟩
  | .wallet =>
    ⟨.new 2000 (4 * GIB) 0 0, .new 2000 (2 * GIB) 0 0, .general, 10 * 60⟩
  | .testnet =>
    ⟨.new 8000 (10 * GIB) 0 0, .new 1000 GIB 0 0, .general, 6 * 60 * 60⟩
  | .sync =>
    ⟨.zero, .new 2000 (4 * GIB) 0 0, .nvme, 48 * 60 * 60⟩

def profileWith (qos : QosClass) (footprint : Option Resources) : Option QosProfile :=
  match qos.profile.withFootprint footprint with
  | none => none
  | some profile => if profile.footprint = .zero then none else some profile

end QosClass
end Qos
