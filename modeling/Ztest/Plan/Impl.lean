import Ztest.Image.Impl
import Ztest.Lib.Collect
import Ztest.Lib.Lines
import Ztest.Qos.Resources
import Mathlib.Data.Char
import Mathlib.Data.List.Destutter
import Mathlib.Data.List.Lex

/-!
This module contains the plan of a selection and the work list of the run: the inventory that
`pipeline/images.rs` assembles, the planner of `plan/mod.rs`, the work list of `engine/plan.rs` and
the dependency edges that `cli/src/run.rs` resolves between the two.

A declaration carries a reserve: the tier attributes refuse `sync` without a footprint and a
footprint of zero, so the assertions of `profile_with` hold of every entry that is dumped.
-/

namespace Planner

open Image (DevImageEntry DevSource)
open Qos (QosClass QosProfile Resources)
open Resource (NodeId)

structure SelectedBinary where
  binaryPath : Text
  cwd : Text
  binaryId : Text
  selectedTests : List Text

structure QosEntry where
  testId : Text
  qos : QosClass
  footprint : Option Resources
  sized : (qos.profileWith footprint).isSome

def QosEntry.profile (e : QosEntry) : QosProfile := (e.qos.profileWith e.footprint).get e.sized

structure SeedEntry where
  name : Text
  oid : Text
  size : UInt64
  baseUri : Text
  keyPrefix : Text

structure TestDepEntry where
  testId : Text
  resource : Text

-- What one binary dumps, without its sync tests.
structure Dumped where
  dev : List DevImageEntry
  qos : List QosEntry
  seeds : List SeedEntry
  deps : List TestDepEntry

abbrev ByBinary (α : Type) := List (Text × List α)

-- A suite is listed once, `rust_suites` is a map from binary ids.
structure Selection where
  binaries : List SelectedBinary
  distinct : (binaries.map SelectedBinary.binaryId).Nodup

section Assemble

structure DedupKey where
  repo : String
  source : DevSource
  features : List String
  rustVersion : Option String
  deriving DecidableEq

def DedupKey.ofEntry (d : DevImageEntry) : DedupKey :=
  ⟨d.repo, d.source, d.features.insertionSort (· ≤ ·), d.rustVersion⟩

-- The entries whose key was not seen before.
def dedupBy {α κ : Type} [DecidableEq κ] (key : α → κ) (seen : List κ) : List α → List α
  | [] => []
  | e :: rest =>
    if key e ∈ seen then dedupBy key seen rest else e :: dedupBy key (key e :: seen) rest

structure Inventory where
  seeds : List SeedEntry
  imagesByBinary : ByBinary DevImageEntry
  depsByBinary : ByBinary TestDepEntry
  qosByBinary : ByBinary QosEntry

def perBinary {α : Type} (dumps : List (SelectedBinary × Dumped)) (of : Dumped → List α) : ByBinary α :=
  (dumps.map fun dump => (dump.1.binaryId, of dump.2)).filter fun entry => !entry.2.isEmpty

def assemble (binaries : List SelectedBinary) (dumps : List Dumped) : Inventory :=
  let dumps := binaries.zip dumps
  { seeds := dedupBy SeedEntry.oid [] (dumps.flatMap fun dump => dump.2.seeds)
    imagesByBinary := perBinary dumps fun dumped => dedupBy DedupKey.ofEntry [] dumped.dev
    depsByBinary := perBinary dumps Dumped.deps
    qosByBinary := perBinary dumps Dumped.qos }

end Assemble

section Planner

def libtestName (testId : Text) : Text :=
  match Lines.cut [':', ':'] testId with
  | none => testId
  | some (_, rest) => rest

-- Exact hit, or a case beneath the declaring function.
def selects (selected : List Text) (declarant : Text) : Bool :=
  selected.contains declarant || selected.any fun test => Text.beneath declarant test

-- The entry of the nearest proper ancestor that has one.
def declaringAncestor {α : Type} (byName : Text → Option α) (rest : Text) : Option α :=
  match _hsplit : Text.rsplitOnce rest with
  | none => none
  | some (parent, _) =>
    match byName parent with
    | some e => some e
    | none => declaringAncestor byName parent
termination_by rest.length
decreasing_by exact Text.length_of_rsplitOnce _hsplit

def tierFor (tiers : Text → Option QosEntry) (test : Text) : Option QosEntry :=
  match tiers test with
  | some e => some e
  | none => declaringAncestor tiers test

structure PrunedSeed where
  seed : SeedEntry
  declaredBy : List Text

structure Scan where
  declaredBy : Text → List Text
  needed : List Text

def scanDep (selected : List Text) (scan : Scan) (dep : TestDepEntry) : Scan where
  declaredBy := Function.update scan.declaredBy dep.resource (scan.declaredBy dep.resource ++ [dep.testId])
  needed := if selects selected (libtestName dep.testId) then dep.resource :: scan.needed else scan.needed

def scanDeps (selected : List Text) (depsByBinary : ByBinary TestDepEntry) : Scan :=
  (depsByBinary.flatMap Prod.snd).foldl (scanDep selected) ⟨fun _ => [], []⟩

-- The seeds to keep and the ones dropped.
def neededSeeds (binaries : List SelectedBinary) (depsByBinary : ByBinary TestDepEntry)
    (seeds : List SeedEntry)
    : List SeedEntry × List PrunedSeed :=
  let selected := binaries.flatMap SelectedBinary.selectedTests
  let scan := scanDeps selected depsByBinary
  let needed := fun (seed : SeedEntry) => decide (seed.oid ∈ scan.needed)
  (seeds.filter needed,
    (seeds.filter fun seed => !needed seed).map fun seed =>
      ⟨seed, ((scan.declaredBy seed.oid).insertionSort (· ≤ ·)).destutter (· ≠ ·)⟩)

structure QosNode where
  qos : QosClass
  admitted : Resources
  declaredTimeout : Option Text

structure PlanRoot where
  label : Text
  description : Text
  qos : QosNode
  tags : List Text
  images : List DevImageEntry
  seeds : List SeedEntry

structure Plan where
  roots : List PlanRoot
  pruned : List PrunedSeed

-- The class of a declaration and the reserve that admission asks for.
def classOf (declared : Option QosEntry) : QosClass :=
  match declared with
  | none => default
  | some e => e.qos

def profileOf (declared : Option QosEntry) : QosProfile :=
  match declared with
  | none => (default : QosClass).profile
  | some e => e.profile

def tiersOf (entries : List QosEntry) : Text → Option QosEntry :=
  collect (entries.map fun e => (libtestName e.testId, e))

def firstFor {α : Type} (table : ByBinary α) (binaryId : Text) : Option (List α) :=
  (table.find? fun entry => entry.1 = binaryId).map Prod.snd

def planTiers (qosByBinary : ByBinary QosEntry) (binaryId : Text) : Text → Option QosEntry :=
  match firstFor qosByBinary binaryId with
  | none => fun _ => none
  | some entries => tiersOf entries

def rootSeeds (inv : Inventory) (byOid : Text → Option SeedEntry) (binaryId test : Text)
    : List SeedEntry :=
  (((inv.depsByBinary.filter fun entry => entry.1 = binaryId).flatMap Prod.snd).filter
      fun dep => selects [test] (libtestName dep.testId)).filterMap fun dep => byOid dep.resource

def planRoot (inv : Inventory) (byOid : Text → Option SeedEntry) (bin : SelectedBinary) (test : Text)
    : PlanRoot :=
  let declared := tierFor (planTiers inv.qosByBinary bin.binaryId) test
  { label := test
    description := []
    qos := ⟨classOf declared, (profileOf declared).admitted, none⟩
    tags := []
    images := (firstFor inv.imagesByBinary bin.binaryId).getD []
    seeds := rootSeeds inv byOid bin.binaryId test }

def selectedPairs (binaries : List SelectedBinary) : List (SelectedBinary × Text) :=
  binaries.flatMap fun bin => bin.selectedTests.map fun test => (bin, test)

def forRun (binaries : List SelectedBinary) (inv : Inventory) : Plan :=
  let seeds := neededSeeds binaries inv.depsByBinary inv.seeds
  let byOid := collect (seeds.1.map fun seed => (seed.oid, seed))
  { roots := (selectedPairs binaries).map fun pair => planRoot inv byOid pair.1 pair.2
    pruned := seeds.2 }

end Planner

section WorkList

structure WorkItem where
  binaryId : Text
  testName : Text
  binaryPath : Text
  cwd : Text
  qos : QosClass
  footprint : Resources
  hardCap : Nat
  retries : UInt32
  deps : List NodeId

structure ResourceDeps where
  imagesByBinary : Text → Option (List NodeId)
  seedsByTest : Text × Text → List NodeId

def ResourceDeps.forItem (deps : ResourceDeps) (binaryId testName : Text) : List NodeId :=
  (deps.imagesByBinary binaryId).getD [] ++ deps.seedsByTest (binaryId, testName)

def declaredQos (byName : Text → Option QosEntry) (testName : Text) : Option QosEntry :=
  match byName testName with
  | some e => some e
  | none => declaringAncestor byName testName

def tiersByBinary (qosByBinary : ByBinary QosEntry) : Text → Option (Text → Option QosEntry) :=
  collect (qosByBinary.map fun entry => (entry.1, tiersOf entry.2))

def runQos (qosByBinary : ByBinary QosEntry) (binaryId testName : Text) : Option QosEntry :=
  match tiersByBinary qosByBinary binaryId with
  | none => none
  | some byName => declaredQos byName testName

def workItem (qosByBinary : ByBinary QosEntry) (retries : UInt32) (deps : ResourceDeps)
    (bin : SelectedBinary) (testName : Text)
    : WorkItem :=
  let declared := runQos qosByBinary bin.binaryId testName
  { binaryId := bin.binaryId
    testName
    binaryPath := bin.binaryPath
    cwd := bin.cwd
    qos := classOf declared
    footprint := (profileOf declared).admitted
    hardCap := (profileOf declared).hardCap
    retries
    deps := deps.forItem bin.binaryId testName }

def WorkItem.notAfter (a b : WorkItem) : Bool :=
  a.binaryId < b.binaryId || (a.binaryId = b.binaryId && a.testName ≤ b.testName)

def sortForAdmission (items : List WorkItem) : List WorkItem := items.mergeSort WorkItem.notAfter

def buildWorkList (binaries : List SelectedBinary) (qosByBinary : ByBinary QosEntry) (retries : UInt32)
    (deps : ResourceDeps)
    : List WorkItem :=
  sortForAdmission
    ((selectedPairs binaries).map fun pair => workItem qosByBinary retries deps pair.1 pair.2)

-- An oid is 64 hex digits.
def seedSha8 (oid : Text) : Text := oid.take 8

def seedNodeId (seed : SeedEntry) : NodeId := .seed (String.ofList ("seed-".toList ++ seedSha8 seed.oid))

def pushSeed (seedIdBySource : Text → Option NodeId) (binaryId : Text) (edges : Text × Text → List NodeId)
    (dep : TestDepEntry)
    : Text × Text → List NodeId :=
  match seedIdBySource dep.resource with
  | none => edges
  | some id =>
    let key := (binaryId, libtestName dep.testId)
    Function.update edges key (edges key ++ [id])

-- The edges of `provision_and_resolve`, where `tag` is the one that `plan_runtime` gave an image.
def resourceDeps (tag : DevImageEntry → String) (inv : Inventory) : ResourceDeps where
  imagesByBinary := collect ((inv.imagesByBinary.map fun entry =>
    (entry.1, entry.2.map fun e => NodeId.image (tag e))).filter fun entry => !entry.2.isEmpty)
  seedsByTest :=
    let seedIdBySource := collect (inv.seeds.map fun seed => (seed.oid, seedNodeId seed))
    inv.depsByBinary.foldl (fun edges entry => entry.2.foldl (pushSeed seedIdBySource entry.1) edges)
      fun _ => []

end WorkList
end Planner
