import Ztest.Engine.Schedule.Lemmas.Selected
import Ztest.Plan.Lemmas

/-!
This module contains what an item of the work list takes over from the functions its test is a case of,
the tier and the seeds, and what the run loop makes of a seed that is not there.
-/

namespace Planner

open Qos (Resources)
open Resource (NodeId)

section Loop

def loopClass : Qos.QosClass → Engine.QosClass
  | .integration => .integration
  | .wallet => .wallet
  | .testnet => .testnet
  | .sync => .sync

def WorkItem.toLoop (item : WorkItem) : Engine.WorkItem where
  binaryId := String.ofList item.binaryId
  testName := String.ofList item.testName
  cls := loopClass item.qos
  footprint := item.footprint
  retries := item.retries.toNat
  deps := item.deps

end Loop

section Spec

def declaredTier (qosByBinary : ByBinary QosEntry) (binaryId name : Text) : Option QosEntry :=
  (tiersByBinary qosByBinary binaryId).bind fun byName => byName name

def declaredSeeds (deps : ResourceDeps) (binaryId name : Text) : Option (List NodeId) :=
  if (deps.seedsByTest (binaryId, name)).isEmpty then none else some (deps.seedsByTest (binaryId, name))

-- The entry of the nearest declaring ancestor, the test itself first.
def nearest {α : Type} (declared : Text → Option α) (testName : Text) : Option α :=
  (Text.lineage testName).findSome? declared

structure Inherits (qosByBinary : ByBinary QosEntry) (deps : ResourceDeps) (item : WorkItem) : Prop where
  qos : item.qos = classOf (nearest (declaredTier qosByBinary item.binaryId) item.testName)
  footprint : item.footprint = (profileOf (nearest (declaredTier qosByBinary item.binaryId) item.testName)).admitted
  hardCap : item.hardCap = (profileOf (nearest (declaredTier qosByBinary item.binaryId) item.testName)).hardCap
  deps : item.deps = (deps.imagesByBinary item.binaryId).getD []
    ++ (nearest (declaredSeeds deps item.binaryId) item.testName).getD []

-- Every run over the items skips each test whose declaring function needs a seed that is not there.
def SkipsUnavailable (deps : ResourceDeps) (items : List WorkItem) : Prop :=
  ∀ cfg ceiling cancelFlag now inputs s,
    Engine.LoopState.run cfg (items.map WorkItem.toLoop) ceiling cancelFlag now inputs = .ok s →
      ∀ item ∈ items, ∀ seeds, nearest (declaredSeeds deps item.binaryId) item.testName = some seeds →
        ∀ seed ∈ seeds,
          ((∃ detail, cfg.resources.lookup seed = some (.failed detail)) ∨ cfg.resources.lookup seed = some .blocked) →
            ∃ resource,
              .testSkipped item.toLoop.binaryId item.toLoop.testName (.dependencyUnavailable resource) ∈ s.events

structure InheritsAlike (binaries : List SelectedBinary) (qosByBinary : ByBinary QosEntry) (retries : UInt32)
    (deps : ResourceDeps)
    : Prop where
  inherits : ∀ item ∈ buildWorkList binaries qosByBinary retries deps, Inherits qosByBinary deps item
  skips : SkipsUnavailable deps (buildWorkList binaries qosByBinary retries deps)

/--
A selected test that declares no seeds is no case of a function that does.
-/
def CasesDeclareSeeds (binaries : List SelectedBinary) (deps : ResourceDeps) : Prop :=
  ∀ bin ∈ binaries, ∀ test ∈ bin.selectedTests, declaredSeeds deps bin.binaryId test = none →
    ∀ declarant ∈ Text.ancestors test, declaredSeeds deps bin.binaryId declarant = none

end Spec

section Inherit

variable {qosByBinary : ByBinary QosEntry} {deps : ResourceDeps}

theorem runQos_eq (binaryId test : Text) : runQos qosByBinary binaryId test = nearest (declaredTier qosByBinary binaryId) test := by
  unfold runQos nearest declaredTier
  cases tiersByBinary qosByBinary binaryId with
  | none => exact (List.findSome?_eq_none_iff.mpr fun _ _ => rfl).symm
  | some byName => exact declaredQos_eq byName test

theorem getD_declaredSeeds (binaryId name : Text)
    : (declaredSeeds deps binaryId name).getD [] = deps.seedsByTest (binaryId, name) := by
  unfold declaredSeeds
  split
  next hempty => simp [List.isEmpty_iff.mp hempty]
  next => rfl

theorem declaredSeeds_ne_nil {binaryId name : Text} {seeds : List NodeId} (h : declaredSeeds deps binaryId name = some seeds)
    : seeds ≠ [] := by
  unfold declaredSeeds at h
  split at h
  next => cases h
  next hne =>
    cases h
    exact fun hnil => hne (List.isEmpty_iff.mpr hnil)

theorem nearest_seeds_iff (binaryId test : Text)
    : (nearest (declaredSeeds deps binaryId) test).getD [] = deps.seedsByTest (binaryId, test)
        ↔ (declaredSeeds deps binaryId test = none →
            ∀ declarant ∈ Text.ancestors test, declaredSeeds deps binaryId declarant = none) := by
  rw [← getD_declaredSeeds, nearest, Text.lineage, List.findSome?_cons]
  cases hown : declaredSeeds deps binaryId test with
  | some seeds => simp
  | none =>
    simp only [Option.getD_none, true_imp_iff]
    cases hfound : (Text.ancestors test).findSome? (declaredSeeds deps binaryId) with
    | none => simpa using hfound
    | some seeds =>
      rcases List.exists_of_findSome?_eq_some hfound with ⟨declarant, hmem, hdeclared⟩
      have hne := declaredSeeds_ne_nil hdeclared
      simp only [Option.getD_some, hne, false_iff]
      intro h
      rw [h declarant hmem] at hdeclared
      cases hdeclared

theorem inherits_workItem_iff (retries : UInt32) (bin : SelectedBinary) (test : Text)
    : Inherits qosByBinary deps (workItem qosByBinary retries deps bin test)
        ↔ (declaredSeeds deps bin.binaryId test = none →
            ∀ declarant ∈ Text.ancestors test, declaredSeeds deps bin.binaryId declarant = none) := by
  rw [← nearest_seeds_iff]
  constructor
  . intro h
    exact (List.append_cancel_left h.deps).symm
  . intro h
    refine ⟨?_, ?_, ?_, ?_⟩
    . dsimp only [workItem]
      rw [runQos_eq]
    . dsimp only [workItem]
      rw [runQos_eq]
    . dsimp only [workItem]
      rw [runQos_eq]
    . exact congrArg _ h.symm

theorem skips_of_inherits {items : List WorkItem} (h : ∀ item ∈ items, Inherits qosByBinary deps item)
    : SkipsUnavailable deps items := by
  intro cfg ceiling cancelFlag now inputs s hrun item hitem seeds hseeds seed hseed hstate
  have hdep : seed ∈ item.toLoop.deps := by
    show seed ∈ item.deps
    rw [(h item hitem).deps, hseeds]
    exact List.mem_append_right _ hseed
  rcases Engine.LoopState.unmetDep_of_mem hdep hstate with ⟨resource, hunmet⟩
  exact ⟨resource, Engine.LoopState.run_skips_unmet hrun (List.mem_map_of_mem hitem) hunmet⟩

theorem buildWorkList_inherits_iff (binaries : List SelectedBinary) (qosByBinary : ByBinary QosEntry)
    (retries : UInt32) (deps : ResourceDeps)
    : InheritsAlike binaries qosByBinary retries deps ↔ CasesDeclareSeeds binaries deps := by
  constructor
  . intro h bin hbin test htest
    exact (inherits_workItem_iff retries bin test).mp
      (h.inherits _ (mem_buildWorkList.mpr ⟨bin, hbin, test, htest, rfl⟩))
  . intro h
    have hinherits : ∀ item ∈ buildWorkList binaries qosByBinary retries deps, Inherits qosByBinary deps item := by
      intro item hitem
      rcases mem_buildWorkList.mp hitem with ⟨bin, hbin, test, htest, rfl⟩
      exact (inherits_workItem_iff retries bin test).mpr (h bin hbin test htest)
    exact ⟨hinherits, skips_of_inherits hinherits⟩

end Inherit

namespace Sample

def seededF : ResourceDeps where
  imagesByBinary _ := none
  seedsByTest key := if key = (['b'], ['f']) then [.seed "seed-a1b2c3d4"] else []

-- Its case `f::x` is selected.
def caseOfSeeded : SelectedBinary := ⟨[], [], ['b'], [['f', ':', ':', 'x']]⟩

end Sample

theorem case_without_declared_seed
    : ¬ ∀ binaries qosByBinary retries deps, InheritsAlike binaries qosByBinary retries deps := by
  intro h
  have hitem : workItem [] 0 Sample.seededF Sample.caseOfSeeded ['f', ':', ':', 'x']
      ∈ buildWorkList [Sample.caseOfSeeded] [] 0 Sample.seededF :=
    mem_buildWorkList.mpr ⟨_, List.mem_cons_self, _, List.mem_cons_self, rfl⟩
  have hdeps := ((h [Sample.caseOfSeeded] [] 0 Sample.seededF).inherits _ hitem).deps
  have hlineage : Text.lineage ['f', ':', ':', 'x'] = [['f', ':', ':', 'x'], ['f']] := by
    rw [Text.lineage, Text.ancestors_of_some rfl, Text.lineage, Text.ancestors_of_none rfl]
    rfl
  dsimp only [workItem, nearest] at hdeps
  rw [hlineage] at hdeps
  revert hdeps
  decide

end Planner
