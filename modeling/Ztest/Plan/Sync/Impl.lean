import Ztest.Plan.Impl

/-!
This module contains what `ztest sync start` makes of a profile name: the inventory with the sync tests
of every binary (`pipeline/images.rs`), the target that `cli/src/sync/mod.rs` resolves the name to and
the plan of a sync (`plan/mod.rs`).
-/

namespace Planner

open Qos (QosClass QosProfile Resources)

def qosOfLabel (label : Text) : Option QosClass :=
  if label = "integration".toList then some .integration
  else if label = "wallet".toList then some .wallet
  else if label = "testnet".toList then some .testnet
  else if label = "sync".toList then some .sync
  else none

-- The tier with the overrides of a declaration.
def declaredProfile (qos : QosClass) (footprint runner : Option Resources) : Option QosProfile :=
  (qos.profileWith footprint).bind fun profile => profile.withRunner runner

-- `#[sync_test]` refuses overrides that no profile takes.
structure SyncTestEntry where
  testId : Text
  name : Text
  description : Text
  subject : Text
  timeout : Text
  qos : Text
  footprint : Option Resources
  runner : Option Resources
  tags : List Text
  sized : ∀ tier, qosOfLabel qos = some tier → (declaredProfile tier footprint runner).isSome

namespace SyncTestEntry

def tier (e : SyncTestEntry) : Option QosClass := qosOfLabel e.qos

def profile (e : SyncTestEntry) : Option QosProfile :=
  e.tier.bind fun tier => declaredProfile tier e.footprint e.runner

def libtest (e : SyncTestEntry) : Text := libtestName e.testId

end SyncTestEntry

structure SyncDumped extends Dumped where
  syncTests : List SyncTestEntry

structure SyncInventory extends Inventory where
  syncTests : List SyncTestEntry

def assembleSync (binaries : List SelectedBinary) (dumps : List SyncDumped) : SyncInventory where
  toInventory := assemble binaries (dumps.map SyncDumped.toDumped)
  syncTests := dedupBy SyncTestEntry.testId [] ((binaries.zip dumps).flatMap fun dump => dump.2.syncTests)

structure Compiled where
  dumps : List (SelectedBinary × SyncDumped)
  distinct : (dumps.map fun dump => dump.1.binaryId).Nodup

namespace Compiled

def binaries (c : Compiled) : List SelectedBinary := c.dumps.map Prod.fst

def inventory (c : Compiled) : SyncInventory := assembleSync c.binaries (c.dumps.map Prod.snd)

end Compiled

structure Target where
  binaryPath : Text
  testName : Text
  cwd : Text
  profile : QosProfile

inductive ResolveError where
  | noProfile (name : Text) (available : List Text)
  | inNoBinary (name libtest : Text)
  | notATier (name qos : Text)

def SelectedBinary.contains (bin : SelectedBinary) (test : Text) : Bool := bin.selectedTests.contains test

-- The declaration and the binary that `resolve_target` reads its answer from.
def resolve (binaries : List SelectedBinary) (inv : SyncInventory) (name : Text)
    : Except ResolveError (SyncTestEntry × SelectedBinary × QosProfile) :=
  match inv.syncTests.find? fun e => e.name = name with
  | none => .error (.noProfile name (inv.syncTests.map SyncTestEntry.name))
  | some entry =>
    match binaries.find? fun bin => bin.contains entry.libtest with
    | none => .error (.inNoBinary name entry.libtest)
    | some bin =>
      match entry.profile with
      | none => .error (.notATier name entry.qos)
      | some profile => .ok (entry, bin, profile)

def resolveTarget (binaries : List SelectedBinary) (inv : SyncInventory) (name : Text)
    : Except ResolveError Target :=
  (resolve binaries inv name).map fun (entry, bin, profile) =>
    { binaryPath := bin.binaryPath, testName := entry.libtest, cwd := bin.cwd, profile }

def syncScope (binaries : List SelectedBinary) (entry : SyncTestEntry) : List SelectedBinary :=
  let owner := binaries.filter fun bin => bin.contains entry.libtest
  if owner.isEmpty then binaries else owner

def imagesOf (inv : Inventory) (binaryId : Text) : List Image.DevImageEntry :=
  (inv.imagesByBinary.filter fun images => images.1 = binaryId).flatMap Prod.snd

def forSync (binaries : List SelectedBinary) (entry : SyncTestEntry) (inv : Inventory) : Plan :=
  let scope := syncScope binaries entry
  let seeds := neededSeeds scope inv.depsByBinary inv.seeds
  let tier := entry.tier.getD .sync
  { roots :=
      [{ label := entry.name
         description := entry.description
         qos :=
           { qos := tier
             admitted := (entry.profile.getD tier.profile).admitted
             declaredTimeout := if entry.timeout.isEmpty then none else some entry.timeout }
         tags := entry.tags
         images := scope.flatMap fun bin => imagesOf inv bin.binaryId
         seeds := seeds.1 }]
    pruned := seeds.2 }

end Planner
