import Mathlib.Data.List.Forall2
import Ztest.Plan.Impl

/-!
This module contains what a plan says about the run: the class and the reserve of a root are those
of the work item, while its seeds and the seeds that are kept are those of the run only where names
do not reach across cases or across binaries.

The walk to a declaring ancestor finds the first of a test and its ancestors, nearest first, that has an
entry.
-/

namespace Planner

section Planned

open Image (DevImageEntry)
open Qos (QosClass)
open Resource (NodeId)

section Spec

-- `test` is a generated case of `parent`, at any depth.
def IsCase (parent test : Text) : Prop := ∃ rest, test = parent ++ ':' :: ':' :: rest

def Covers (declarant test : Text) : Prop := test = declarant ∨ IsCase declarant test

-- The dump of `binaryId` has the edge `dep`.
def Declares (inv : Inventory) (binaryId : Text) (dep : TestDepEntry) : Prop :=
  ∃ entry ∈ inv.depsByBinary, entry.1 = binaryId ∧ dep ∈ entry.2

structure RootAgrees (root : PlanRoot) (item : WorkItem) : Prop where
  qos : root.qos.qos = item.qos
  admitted : root.qos.admitted = item.footprint
  seeds : ∀ name, NodeId.seed name ∈ root.seeds.map seedNodeId ↔ NodeId.seed name ∈ item.deps

-- One root for each selected test, as the run's item for it.
def Describes (binaries : List SelectedBinary) (plan : Plan) (items : List WorkItem) : Prop :=
  List.Forall₂
    (fun pair root =>
      root.label = pair.2
        ∧
      (∃ item ∈ items, item.binaryId = pair.1.binaryId ∧ item.testName = pair.2)
        ∧
      ∀ item ∈ items, item.binaryId = pair.1.binaryId → item.testName = pair.2 → RootAgrees root item)
    (selectedPairs binaries) plan.roots

-- A selected test of the declaring binary is, or is a case of, a test that declares the seed.
def Needed (binaries : List SelectedBinary) (inv : Inventory) (seed : SeedEntry) : Prop :=
  ∃ bin ∈ binaries, ∃ test ∈ bin.selectedTests, ∃ dep,
    Declares inv bin.binaryId dep ∧ dep.resource = seed.oid ∧ Covers (libtestName dep.testId) test

def KeepsNeeded (binaries : List SelectedBinary) (inv : Inventory) : Prop :=
  ∀ seed, seed ∈ (neededSeeds binaries inv.depsByBinary inv.seeds).1
    ↔ seed ∈ inv.seeds ∧ Needed binaries inv seed

-- What an ancestor of a selected test declares, the test declares under its own name.
def OwnSeeds (binaries : List SelectedBinary) (inv : Inventory) : Prop :=
  ∀ bin ∈ binaries, ∀ test ∈ bin.selectedTests, ∀ dep, Declares inv bin.binaryId dep →
    IsCase (libtestName dep.testId) test → ∀ seed ∈ inv.seeds, seed.oid = dep.resource →
      ∃ dep', Declares inv bin.binaryId dep' ∧ libtestName dep'.testId = test
        ∧ ∃ seed' ∈ inv.seeds, seed'.oid = dep'.resource ∧ seedNodeId seed' = seedNodeId seed

-- A seed whose declarant has the name of a selected test of any binary is needed in its own one.
def LocalNames (binaries : List SelectedBinary) (inv : Inventory) : Prop :=
  ∀ seed ∈ inv.seeds, ∀ binaryId dep, Declares inv binaryId dep → dep.resource = seed.oid →
    ∀ bin ∈ binaries, ∀ test ∈ bin.selectedTests, Covers (libtestName dep.testId) test →
      Needed binaries inv seed

end Spec

section Tables

theorem map_zip_sublist {α β γ : Type} (f : α → γ) (l : List α) (l' : List β)
    : ((l.zip l').map fun pair => f pair.1).Sublist (l.map f) := by
  induction l generalizing l' with
  | nil => exact List.Sublist.slnil
  | cons a l ih =>
    cases l' with
    | nil => exact List.nil_sublist _
    | cons b l' => exact (ih l').cons_cons (f a)

theorem nodup_fst_perBinary {α : Type} (sel : Selection) (dumps : List Dumped) (of : Dumped → List α)
    : ((perBinary (sel.binaries.zip dumps) of).map Prod.fst).Nodup := by
  have hids := sel.distinct.sublist (map_zip_sublist SelectedBinary.binaryId sel.binaries dumps)
  apply List.Nodup.sublist ?_ hids
  have hfilter := (List.filter_sublist (p := fun entry : Text × List α => !entry.2.isEmpty)
    (l := (sel.binaries.zip dumps).map fun dump => (dump.1.binaryId, of dump.2))).map Prod.fst
  simpa [perBinary, List.map_map, Function.comp_def] using hfilter

theorem notMem_seen_of_mem_dedupBy {α κ : Type} [DecidableEq κ] (key : α → κ) {seen : List κ}
    {l : List α} {e : α} (h : e ∈ dedupBy key seen l)
    : key e ∉ seen := by
  induction l generalizing seen with
  | nil => simp [dedupBy] at h
  | cons e' rest ih =>
    unfold dedupBy at h
    split at h
    next => exact ih h
    next hnew =>
      rcases List.mem_cons.mp h with rfl | h
      . exact hnew
      . exact fun hseen => ih h (List.mem_cons_of_mem _ hseen)

theorem nodup_dedupBy {α κ : Type} [DecidableEq κ] (key : α → κ) (seen : List κ) (l : List α)
    : ((dedupBy key seen l).map key).Nodup := by
  induction l generalizing seen with
  | nil => simp [dedupBy]
  | cons e rest ih =>
    unfold dedupBy
    split
    . exact ih seen
    . rw [List.map_cons, List.nodup_cons]
      refine ⟨?_, ih _⟩
      intro hmem
      rcases List.mem_map.mp hmem with ⟨e', he', heq⟩
      exact notMem_seen_of_mem_dedupBy key he' (heq ▸ List.mem_cons_self)

theorem collect_oid_iff {β : Type} {seeds : List SeedEntry} (hnodup : (seeds.map SeedEntry.oid).Nodup)
    (f : SeedEntry → β) {oid : Text} {b : β}
    : collect (seeds.map fun seed => (seed.oid, f seed)) oid = some b
        ↔
      ∃ seed ∈ seeds, seed.oid = oid ∧ f seed = b := by
  constructor
  . intro h
    rcases List.mem_map.mp (mem_of_collect h) with ⟨seed, hseed, heq⟩
    rw [Prod.mk.injEq] at heq
    exact ⟨seed, hseed, heq⟩
  . rintro ⟨seed, hseed, rfl, rfl⟩
    apply collect_of_mem
    . simpa [List.map_map, Function.comp_def] using hnodup
    . exact List.mem_map.mpr ⟨seed, hseed, rfl⟩

end Tables

section Names

theorem selects_iff {selected : List Text} {declarant : Text}
    : selects selected declarant = true ↔ ∃ test ∈ selected, Covers declarant test := by
  simp only [selects, Bool.or_eq_true, List.contains_iff_mem, List.any_eq_true, Text.beneath_iff]
  constructor
  . rintro (hmem | ⟨test, hmem, hcase⟩)
    . exact ⟨declarant, hmem, .inl rfl⟩
    . exact ⟨test, hmem, .inr hcase⟩
  . rintro ⟨test, hmem, rfl | hcase⟩
    . exact .inl hmem
    . exact .inr ⟨test, hmem, hcase⟩

theorem declaringAncestor_none {α : Type} (test : Text)
    : declaringAncestor (fun _ => (none : Option α)) test = none := by
  fun_induction declaringAncestor with
  | case1 => rfl
  | case2 rest parent last hsplit e he => simp at he
  | case3 rest parent last hsplit hnone ih => exact ih

end Names

section Seeds

theorem declares_iff_mem_filter {inv : Inventory} {binaryId : Text} {dep : TestDepEntry}
    : Declares inv binaryId dep
        ↔
      dep ∈ (inv.depsByBinary.filter fun entry => entry.1 = binaryId).flatMap Prod.snd := by
  simp only [Declares, List.mem_flatMap, List.mem_filter, decide_eq_true_eq]
  constructor
  . rintro ⟨entry, hentry, hid, hdep⟩
    exact ⟨entry, ⟨hentry, hid⟩, hdep⟩
  . rintro ⟨entry, ⟨hentry, hid⟩, hdep⟩
    exact ⟨entry, hentry, hid, hdep⟩

theorem mem_needed_foldl {selected : List Text} {deps : List TestDepEntry} {scan : Scan} {oid : Text}
    : oid ∈ (deps.foldl (scanDep selected) scan).needed
        ↔
      oid ∈ scan.needed
        ∨ ∃ dep ∈ deps, dep.resource = oid ∧ selects selected (libtestName dep.testId) = true := by
  induction deps generalizing scan with
  | nil => simp
  | cons dep rest ih =>
    rw [List.foldl_cons, ih, List.exists_mem_cons_iff, ← or_assoc]
    apply or_congr_left
    simp only [scanDep]
    split
    next hsel => simp [hsel, or_comm, eq_comm]
    next hsel => simp [hsel]

theorem mem_keep_iff {binaries : List SelectedBinary} {inv : Inventory} {seed : SeedEntry}
    : seed ∈ (neededSeeds binaries inv.depsByBinary inv.seeds).1
        ↔
      seed ∈ inv.seeds ∧ ∃ binaryId dep, Declares inv binaryId dep ∧ dep.resource = seed.oid
        ∧ ∃ bin ∈ binaries, ∃ test ∈ bin.selectedTests, Covers (libtestName dep.testId) test := by
  unfold neededSeeds scanDeps
  rw [List.mem_filter, decide_eq_true_iff, mem_needed_foldl]
  simp only [selects_iff]
  apply and_congr_right
  intro _
  constructor
  . rintro (hnil | ⟨dep, hdep, hoid, test, htest, hcov⟩)
    . simp at hnil
    . rcases List.mem_flatMap.mp hdep with ⟨entry, hentry, hmem⟩
      rcases List.mem_flatMap.mp htest with ⟨bin, hbin, hsel⟩
      exact ⟨entry.1, dep, ⟨entry, hentry, rfl, hmem⟩, hoid, bin, hbin, test, hsel, hcov⟩
  . rintro ⟨binaryId, dep, ⟨entry, hentry, rfl, hmem⟩, hoid, bin, hbin, test, hsel, hcov⟩
    right
    exact ⟨dep, List.mem_flatMap.mpr ⟨entry, hentry, hmem⟩, hoid, test,
      List.mem_flatMap.mpr ⟨bin, hbin, hsel⟩, hcov⟩

theorem mem_pushSeed {seedIdBySource : Text → Option NodeId} {binaryId : Text}
    {edges : Text × Text → List NodeId} {dep : TestDepEntry} {key : Text × Text} {id : NodeId}
    : id ∈ pushSeed seedIdBySource binaryId edges dep key
        ↔
      id ∈ edges key
        ∨ (binaryId, libtestName dep.testId) = key ∧ seedIdBySource dep.resource = some id := by
  unfold pushSeed
  cases hsource : seedIdBySource dep.resource with
  | none => simp
  | some id' =>
    rcases eq_or_ne key (binaryId, libtestName dep.testId) with rfl | hne
    . simp [eq_comm]
    . simp [Function.update_of_ne hne, Ne.symm hne]

theorem mem_foldl_pushSeed {seedIdBySource : Text → Option NodeId} {binaryId : Text}
    {deps : List TestDepEntry} {edges : Text × Text → List NodeId} {key : Text × Text} {id : NodeId}
    : id ∈ deps.foldl (pushSeed seedIdBySource binaryId) edges key
        ↔
      id ∈ edges key
        ∨ ∃ dep ∈ deps, (binaryId, libtestName dep.testId) = key
          ∧ seedIdBySource dep.resource = some id := by
  induction deps generalizing edges with
  | nil => simp
  | cons dep rest ih =>
    rw [List.foldl_cons, ih, mem_pushSeed, List.exists_mem_cons_iff, or_assoc]

theorem mem_foldl_edges {seedIdBySource : Text → Option NodeId} {table : ByBinary TestDepEntry}
    {edges : Text × Text → List NodeId} {key : Text × Text} {id : NodeId}
    : id ∈ table.foldl (fun edges entry => entry.2.foldl (pushSeed seedIdBySource entry.1) edges) edges key
        ↔
      id ∈ edges key
        ∨ ∃ entry ∈ table, ∃ dep ∈ entry.2, (entry.1, libtestName dep.testId) = key
          ∧ seedIdBySource dep.resource = some id := by
  induction table generalizing edges with
  | nil => simp
  | cons entry rest ih =>
    rw [List.foldl_cons, ih, mem_foldl_pushSeed, List.exists_mem_cons_iff, or_assoc]

end Seeds

section Agreement

theorem tiersByBinary_eq {qosByBinary : ByBinary QosEntry} (hnodup : (qosByBinary.map Prod.fst).Nodup)
    (binaryId : Text)
    : tiersByBinary qosByBinary binaryId = (firstFor qosByBinary binaryId).map tiersOf := by
  unfold tiersByBinary firstFor
  rw [collect_eq_find?, List.find?_map, Option.map_map, Option.map_map]
  . rfl
  . simpa [List.map_map, Function.comp_def] using hnodup

theorem declared_eq {qosByBinary : ByBinary QosEntry} (hnodup : (qosByBinary.map Prod.fst).Nodup)
    (binaryId test : Text)
    : tierFor (planTiers qosByBinary binaryId) test = runQos qosByBinary binaryId test := by
  unfold planTiers runQos
  rw [tiersByBinary_eq hnodup]
  cases firstFor qosByBinary binaryId with
  | none => simp [tierFor, declaringAncestor_none]
  | some entries => rfl

variable {inv : Inventory}

theorem seed_notMem_images (tag : DevImageEntry → String) (binaryId : Text) (name : String)
    : NodeId.seed name ∉ ((resourceDeps tag inv).imagesByBinary binaryId).getD [] := by
  intro hmem
  cases himages : (resourceDeps tag inv).imagesByBinary binaryId with
  | none => simp [himages] at hmem
  | some ids =>
    rw [himages, Option.getD_some] at hmem
    rcases List.mem_map.mp (List.mem_of_mem_filter (mem_of_collect himages)) with ⟨entry, _, heq⟩
    rw [Prod.mk.injEq] at heq
    rw [← heq.2] at hmem
    simp at hmem

theorem mem_deps_iff (hoids : (inv.seeds.map SeedEntry.oid).Nodup) (tag : DevImageEntry → String)
    {binaryId test : Text} {name : String}
    : NodeId.seed name ∈ (resourceDeps tag inv).forItem binaryId test
        ↔
      ∃ dep, Declares inv binaryId dep ∧ libtestName dep.testId = test
        ∧ ∃ seed ∈ inv.seeds, seed.oid = dep.resource ∧ seedNodeId seed = .seed name := by
  unfold ResourceDeps.forItem
  rw [List.mem_append, or_iff_right (seed_notMem_images tag binaryId name)]
  simp only [resourceDeps, mem_foldl_edges, List.not_mem_nil, false_or, Prod.mk.injEq,
    collect_oid_iff hoids]
  constructor
  . rintro ⟨entry, hentry, dep, hdep, ⟨hid, htest⟩, hseed⟩
    exact ⟨dep, ⟨entry, hentry, hid, hdep⟩, htest, hseed⟩
  . rintro ⟨dep, ⟨entry, hentry, hid, hdep⟩, htest, hseed⟩
    exact ⟨entry, hentry, dep, hdep, ⟨hid, htest⟩, hseed⟩

theorem mem_rootSeeds_iff (hoids : (inv.seeds.map SeedEntry.oid).Nodup)
    {binaries : List SelectedBinary} {bin : SelectedBinary} (hbin : bin ∈ binaries) {test : Text}
    (htest : test ∈ bin.selectedTests) {seed : SeedEntry}
    : seed ∈ rootSeeds inv
          (collect ((neededSeeds binaries inv.depsByBinary inv.seeds).1.map fun seed => (seed.oid, seed)))
          bin.binaryId test
        ↔
      ∃ dep, Declares inv bin.binaryId dep ∧ Covers (libtestName dep.testId) test
        ∧ seed ∈ inv.seeds ∧ seed.oid = dep.resource := by
  have hkeep : ((neededSeeds binaries inv.depsByBinary inv.seeds).1.map SeedEntry.oid).Nodup :=
    hoids.sublist (List.filter_sublist.map _)
  simp only [rootSeeds, List.mem_filterMap, List.mem_filter, ← declares_iff_mem_filter, selects_iff,
    List.mem_singleton, exists_eq_left, collect_oid_iff hkeep]
  constructor
  . rintro ⟨dep, ⟨hdep, hcov⟩, seed', hseed, hoid, rfl⟩
    exact ⟨dep, hdep, hcov, (mem_keep_iff.mp hseed).1, hoid⟩
  . rintro ⟨dep, hdep, hcov, hseed, hoid⟩
    refine ⟨dep, ⟨hdep, hcov⟩, seed, ?_, hoid, rfl⟩
    exact mem_keep_iff.mpr
      ⟨hseed, bin.binaryId, dep, hdep, hoid.symm, bin, hbin, test, htest, hcov⟩

theorem mem_selectedPairs {binaries : List SelectedBinary} {pair : SelectedBinary × Text}
    : pair ∈ selectedPairs binaries ↔ pair.1 ∈ binaries ∧ pair.2 ∈ pair.1.selectedTests := by
  rcases pair with ⟨bin, test⟩
  simp only [selectedPairs, List.mem_flatMap, List.mem_map, Prod.mk.injEq]
  constructor
  . rintro ⟨bin', hbin, test', htest, rfl, rfl⟩
    exact ⟨hbin, htest⟩
  . rintro ⟨hbin, htest⟩
    exact ⟨bin, hbin, test, htest, rfl, rfl⟩

theorem mem_buildWorkList {binaries : List SelectedBinary} {qosByBinary : ByBinary QosEntry}
    {retries : UInt32} {deps : ResourceDeps} {item : WorkItem}
    : item ∈ buildWorkList binaries qosByBinary retries deps
        ↔
      ∃ bin ∈ binaries, ∃ test ∈ bin.selectedTests, workItem qosByBinary retries deps bin test = item := by
  unfold buildWorkList sortForAdmission
  rw [List.mem_mergeSort, List.mem_map]
  simp only [mem_selectedPairs, Prod.exists]
  constructor
  . rintro ⟨bin, test, ⟨hbin, htest⟩, rfl⟩
    exact ⟨bin, hbin, test, htest, rfl⟩
  . rintro ⟨bin, hbin, test, htest, rfl⟩
    exact ⟨bin, test, ⟨hbin, htest⟩, rfl⟩

end Agreement

section Describe

variable (tag : DevImageEntry → String) (retries : UInt32) (sel : Selection) (dumps : List Dumped)

theorem nodup_oids_assemble : ((assemble sel.binaries dumps).seeds.map SeedEntry.oid).Nodup :=
  nodup_dedupBy SeedEntry.oid [] _

theorem seeds_agree_iff {inv : Inventory} (hoids : (inv.seeds.map SeedEntry.oid).Nodup)
    {binaries : List SelectedBinary} {bin : SelectedBinary} (hbin : bin ∈ binaries) {test : Text}
    (htest : test ∈ bin.selectedTests)
    : (∀ name, NodeId.seed name ∈ (rootSeeds inv
            (collect ((neededSeeds binaries inv.depsByBinary inv.seeds).1.map fun seed => (seed.oid, seed)))
            bin.binaryId test).map seedNodeId
          ↔ NodeId.seed name ∈ (resourceDeps tag inv).forItem bin.binaryId test)
        ↔
      ∀ dep, Declares inv bin.binaryId dep → IsCase (libtestName dep.testId) test →
        ∀ seed ∈ inv.seeds, seed.oid = dep.resource →
          ∃ dep', Declares inv bin.binaryId dep' ∧ libtestName dep'.testId = test
            ∧ ∃ seed' ∈ inv.seeds, seed'.oid = dep'.resource ∧ seedNodeId seed' = seedNodeId seed := by
  simp only [List.mem_map, mem_rootSeeds_iff hoids hbin htest, mem_deps_iff hoids]
  constructor
  . intro hagree dep hdep hcase seed hseed hoid
    exact (hagree _).mp ⟨seed, ⟨dep, hdep, .inr hcase, hseed, hoid⟩, rfl⟩
  . intro hown name
    constructor
    . rintro ⟨seed, ⟨dep, hdep, heq | hcase, hseed, hoid⟩, hname⟩
      . exact ⟨dep, hdep, heq.symm, seed, hseed, hoid, hname⟩
      . rcases hown dep hdep hcase seed hseed hoid with ⟨dep', hdep', htest', seed', hseed', hoid', hnode⟩
        exact ⟨dep', hdep', htest', seed', hseed', hoid', hnode.trans hname⟩
    . rintro ⟨dep, hdep, heq, seed, hseed, hoid, hname⟩
      exact ⟨seed, ⟨dep, hdep, .inl heq.symm, hseed, hoid⟩, hname⟩

theorem rootAgrees_iff {inv : Inventory} (hqos : (inv.qosByBinary.map Prod.fst).Nodup)
    (byOid : Text → Option SeedEntry) {bin bin' : SelectedBinary} (hid : bin'.binaryId = bin.binaryId)
    (test : Text)
    : RootAgrees (planRoot inv byOid bin test)
          (workItem inv.qosByBinary retries (resourceDeps tag inv) bin' test)
        ↔
      ∀ name, NodeId.seed name ∈ (rootSeeds inv byOid bin.binaryId test).map seedNodeId
        ↔ NodeId.seed name ∈ (resourceDeps tag inv).forItem bin.binaryId test := by
  have hdeclared := declared_eq hqos bin.binaryId test
  constructor
  . intro h
    have hseeds := h.seeds
    simpa only [planRoot, workItem, hid] using hseeds
  . intro h
    constructor
    . simp only [planRoot, workItem, hid, hdeclared]
    . simp only [planRoot, workItem, hid, hdeclared]
    . simpa only [planRoot, workItem, hid] using h

theorem describes_iff
    : Describes sel.binaries (forRun sel.binaries (assemble sel.binaries dumps))
          (buildWorkList sel.binaries (assemble sel.binaries dumps).qosByBinary retries
            (resourceDeps tag (assemble sel.binaries dumps)))
        ↔
      OwnSeeds sel.binaries (assemble sel.binaries dumps) := by
  have hoids := nodup_oids_assemble sel dumps
  have hqos : ((assemble sel.binaries dumps).qosByBinary.map Prod.fst).Nodup :=
    nodup_fst_perBinary sel dumps Dumped.qos
  unfold Describes forRun
  rw [List.forall₂_map_right_iff, List.forall₂_same]
  constructor
  . intro h bin hbin test htest
    rcases h (bin, test) (mem_selectedPairs.mpr ⟨hbin, htest⟩) with ⟨_, _, hall⟩
    have hitem := hall _ (mem_buildWorkList.mpr ⟨bin, hbin, test, htest, rfl⟩) rfl rfl
    exact (seeds_agree_iff tag hoids hbin htest).mp ((rootAgrees_iff tag retries hqos _ rfl test).mp hitem)
  . intro h pair hpair
    rcases mem_selectedPairs.mp hpair with ⟨hbin, htest⟩
    refine ⟨rfl, ⟨_, mem_buildWorkList.mpr ⟨pair.1, hbin, pair.2, htest, rfl⟩, rfl, rfl⟩, ?_⟩
    intro item hitem hid hname
    rcases mem_buildWorkList.mp hitem with ⟨bin', _, test', _, rfl⟩
    obtain rfl : test' = pair.2 := hname
    exact (rootAgrees_iff tag retries hqos _ hid _).mpr
      ((seeds_agree_iff tag hoids hbin htest).mpr (h pair.1 hbin pair.2 htest))

theorem keepsNeeded_iff (binaries : List SelectedBinary) (inv : Inventory)
    : KeepsNeeded binaries inv ↔ LocalNames binaries inv := by
  constructor
  . intro h seed hseed binaryId dep hdep hoid bin hbin test htest hcov
    exact ((h seed).mp (mem_keep_iff.mpr
      ⟨hseed, binaryId, dep, hdep, hoid, bin, hbin, test, htest, hcov⟩)).2
  . intro h seed
    rw [mem_keep_iff]
    apply and_congr_right
    intro hseed
    constructor
    . rintro ⟨binaryId, dep, hdep, hoid, bin, hbin, test, htest, hcov⟩
      exact h seed hseed binaryId dep hdep hoid bin hbin test htest hcov
    . rintro ⟨bin, hbin, test, htest, dep, hdep, hoid, hcov⟩
      exact ⟨bin.binaryId, dep, hdep, hoid, bin, hbin, test, htest, hcov⟩

/--
A plan describes the run exactly if no case has a seed from its ancestors alone, and no seed is kept
for a name that another binary selects.
-/
theorem forRun_describes_iff
    : Describes sel.binaries (forRun sel.binaries (assemble sel.binaries dumps))
            (buildWorkList sel.binaries (assemble sel.binaries dumps).qosByBinary retries
              (resourceDeps tag (assemble sel.binaries dumps)))
          ∧ KeepsNeeded sel.binaries (assemble sel.binaries dumps)
        ↔
      OwnSeeds sel.binaries (assemble sel.binaries dumps)
        ∧ LocalNames sel.binaries (assemble sel.binaries dumps) := by
  rw [describes_iff, keepsNeeded_iff]

end Describe

namespace Sample

def seed : SeedEntry := ⟨['s'], "a1b2c3d4".toList, 1, [], []⟩

def needsSeed : TestDepEntry := ⟨['c', ':', ':', 'f'], "a1b2c3d4".toList⟩

def caseOfF : Text := ['f', ':', ':', 'x']

-- One binary, which selects a case of the function that declares the seed.
def cases : Selection := ⟨[⟨[], [], ['b'], [caseOfF]⟩], by decide⟩

-- The binary that declares the seed selects another test, and another binary selects the name.
def names : Selection := ⟨[⟨[], [], ['b'], [['g']]⟩, ⟨[], [], ['d'], [['f']]⟩], by decide⟩

def dumps : List Dumped := [⟨[], [], [seed], [needsSeed]⟩, ⟨[], [], [], []⟩]

end Sample

open Sample in
theorem case_without_seed
    : ¬ Describes cases.binaries (forRun cases.binaries (assemble cases.binaries Sample.dumps))
          (buildWorkList cases.binaries (assemble cases.binaries Sample.dumps).qosByBinary 0
            (resourceDeps (fun _ => "") (assemble cases.binaries Sample.dumps)))
        ∧
      ¬ KeepsNeeded names.binaries (assemble names.binaries Sample.dumps) := by
  constructor
  . rw [describes_iff]
    intro h
    have hdep : Declares (assemble cases.binaries Sample.dumps) ['b'] needsSeed :=
      ⟨(['b'], [needsSeed]), List.mem_singleton.mpr rfl, rfl, List.mem_singleton.mpr rfl⟩
    rcases h ⟨[], [], ['b'], [caseOfF]⟩ (List.mem_singleton.mpr rfl) caseOfF (List.mem_singleton.mpr rfl)
      needsSeed hdep ⟨['x'], rfl⟩ seed (List.mem_singleton.mpr rfl) rfl with ⟨dep', hdep', hname, _⟩
    rcases hdep' with ⟨entry, hentry, _, hmem⟩
    obtain rfl : entry = (['b'], [needsSeed]) := List.mem_singleton.mp hentry
    obtain rfl : dep' = needsSeed := List.mem_singleton.mp hmem
    exact absurd hname (by decide)
  . rw [keepsNeeded_iff]
    intro h
    have hdep : Declares (assemble names.binaries Sample.dumps) ['b'] needsSeed :=
      ⟨(['b'], [needsSeed]), List.mem_singleton.mpr rfl, rfl, List.mem_singleton.mpr rfl⟩
    rcases h seed (List.mem_singleton.mpr rfl) ['b'] needsSeed hdep rfl ⟨[], [], ['d'], [['f']]⟩
      (List.mem_cons_of_mem _ List.mem_cons_self) ['f'] (List.mem_singleton.mpr rfl) (.inl rfl)
      with ⟨bin, hbin, test, htest, dep, ⟨entry, hentry, hid, hmem⟩, _, hcov⟩
    obtain rfl : entry = (['b'], [needsSeed]) := List.mem_singleton.mp hentry
    obtain rfl : dep = needsSeed := List.mem_singleton.mp hmem
    rcases List.mem_pair.mp hbin with rfl | rfl
    . obtain rfl : test = ['g'] := List.mem_singleton.mp htest
      rcases hcov with heq | ⟨rest, heq⟩
      . exact absurd heq (by decide)
      . have hlength := congrArg List.length heq
        simp only [List.length_append, List.length_cons, List.length_nil] at hlength
        omega
    . exact absurd hid (by decide)

end Planned

theorem declaringAncestor_eq {α : Type} (byName : Text → Option α) (test : Text)
    : declaringAncestor byName test = (Text.ancestors test).findSome? byName := by
  fun_induction declaringAncestor byName test with
  | case1 test hnone => rw [Text.ancestors_of_none hnone, List.findSome?_nil]
  | case2 test parent last hsome e he => rw [Text.ancestors_of_some hsome, Text.lineage, List.findSome?_cons, he]
  | case3 test parent last hsome he ih => rw [Text.ancestors_of_some hsome, Text.lineage, List.findSome?_cons, he, ih]

theorem declaredQos_eq (byName : Text → Option QosEntry) (test : Text)
    : declaredQos byName test = (Text.lineage test).findSome? byName := by
  rw [declaredQos, Text.lineage, List.findSome?_cons]
  split
  next e he => rw [he]
  next hnone => rw [hnone, declaringAncestor_eq]

end Planner
