import Ztest.Plan.Sync.Impl
import Ztest.Plan.Lemmas

/-!
This module contains the exclusion of sync tests from the selection of a `ztest run`
(`engine/plan.rs`). It takes every binary's tests apart in order, no test of the tier `sync` stays, and it
says when a case of a sync profile does.
-/

namespace Planner

inductive SyncExclusion where
  | profile (name : Text)
  | tierOnly

structure ExcludedSync where
  binaryId : Text
  testName : Text
  reason : SyncExclusion

def profilesByBinary (syncByBinary : ByBinary SyncTestEntry) : Text → Option (Text → Option Text) :=
  collect (syncByBinary.map fun entry => (entry.1, collect (entry.2.map fun e => (e.libtest, e.name))))

-- The profile a test is, by its exact name, in the table of its binary.
def profileNamed (syncByBinary : ByBinary SyncTestEntry) (binaryId testName : Text) : Option Text :=
  (profilesByBinary syncByBinary binaryId).bind fun byName => byName testName

def syncReason (syncByBinary : ByBinary SyncTestEntry) (qosByBinary : ByBinary QosEntry) (binaryId testName : Text)
    : Option SyncExclusion :=
  match profileNamed syncByBinary binaryId testName with
  | some profile => some (.profile profile)
  | none => ((runQos qosByBinary binaryId testName).filter fun e => e.qos = .sync).map fun _ => .tierOnly

-- `retain`, with what it pushes on the way.
def retainTests (reason : Text → Option SyncExclusion) (binaryId : Text) : List Text → List Text × List ExcludedSync
  | [] => ([], [])
  | testName :: rest =>
    let (kept, excluded) := retainTests reason binaryId rest
    match reason testName with
    | some reason => (kept, ⟨binaryId, testName, reason⟩ :: excluded)
    | none => (testName :: kept, excluded)

def dropSyncTests (selected : List SelectedBinary) (syncByBinary : ByBinary SyncTestEntry)
    (qosByBinary : ByBinary QosEntry)
    : List SelectedBinary × List ExcludedSync :=
  let parts := selected.map fun bin =>
    (bin, retainTests (syncReason syncByBinary qosByBinary bin.binaryId) bin.binaryId bin.selectedTests)
  ((parts.map fun part => { part.1 with selectedTests := part.2.1 }).filter fun bin => !bin.selectedTests.isEmpty,
    parts.flatMap fun part => part.2.2)

open Qos (QosClass)

section Spec

-- The tests of one binary, taken apart in order into those that stay and those that leave.
structure Parted (bin : SelectedBinary) (kept : List Text) (excluded : List ExcludedSync) : Prop where
  stay : kept.Sublist bin.selectedTests
  leave : (excluded.map ExcludedSync.testName).Sublist bin.selectedTests
  all : (kept ++ excluded.map ExcludedSync.testName).Perm bin.selectedTests
  binary : ∀ e ∈ excluded, e.binaryId = bin.binaryId

-- The binaries that are left are those with a test that stays, in order.
def Partitions (selected : List SelectedBinary) (kept : List SelectedBinary) (excluded : List ExcludedSync) : Prop :=
  ∃ parts : List (List Text × List ExcludedSync),
    List.Forall₂ (fun bin part => Parted bin part.1 part.2) selected parts
      ∧
    kept = (List.zipWith (fun bin part => { bin with selectedTests := part.1 }) selected parts).filter
        (fun bin => !bin.selectedTests.isEmpty)
      ∧
    excluded = parts.flatMap Prod.snd

def IsProfile (syncByBinary : ByBinary SyncTestEntry) (binaryId testName : Text) : Prop :=
  ∃ entry ∈ syncByBinary, entry.1 = binaryId ∧ ∃ e ∈ entry.2, e.libtest = testName

structure Excludes (selected : List SelectedBinary) (syncByBinary : ByBinary SyncTestEntry)
    (qosByBinary : ByBinary QosEntry) (kept : List SelectedBinary) (excluded : List ExcludedSync)
    : Prop where
  partitions : Partitions selected kept excluded
  nonempty : ∀ bin ∈ kept, bin.selectedTests ≠ []
  noSync : ∀ retries deps, ∀ item ∈ buildWorkList kept qosByBinary retries deps, item.qos ≠ .sync
  noProfile : ∀ bin ∈ kept, ∀ test ∈ bin.selectedTests, ∀ declarant ∈ Text.lineage test,
    ¬ IsProfile syncByBinary bin.binaryId declarant

/--
A selected case of a sync profile is a profile under its own name, or the tier declared for it is `sync`.
-/
def CasesAreSync (selected : List SelectedBinary) (syncByBinary : ByBinary SyncTestEntry)
    (qosByBinary : ByBinary QosEntry)
    : Prop :=
  ∀ bin ∈ selected, ∀ test ∈ bin.selectedTests, ∀ declarant ∈ Text.lineage test,
    IsProfile syncByBinary bin.binaryId declarant →
      (profileNamed syncByBinary bin.binaryId test).isSome
        ∨
      ∃ e, runQos qosByBinary bin.binaryId test = some e ∧ e.qos = .sync

end Spec

section Retain

variable {reason : Text → Option SyncExclusion} {binaryId : Text} {tests : List Text}

theorem retainTests_fst : (retainTests reason binaryId tests).1 = tests.filter fun test => (reason test).isNone := by
  induction tests with
  | nil => rfl
  | cons test tests ih =>
    rw [retainTests, List.filter_cons, ← ih]
    cases reason test <;> simp

theorem retainTests_snd : (retainTests reason binaryId tests).2.map ExcludedSync.testName
    = tests.filter fun test => !(reason test).isNone := by
  induction tests with
  | nil => rfl
  | cons test tests ih =>
    rw [retainTests, List.filter_cons, ← ih]
    cases reason test <;> simp

theorem binaryId_of_mem_retainTests {e : ExcludedSync} (h : e ∈ (retainTests reason binaryId tests).2)
    : e.binaryId = binaryId := by
  induction tests with
  | nil => cases h
  | cons test tests ih =>
    rw [retainTests] at h
    cases hreason : reason test with
    | none =>
      rw [hreason] at h
      exact ih h
    | some r =>
      rw [hreason] at h
      rcases List.mem_cons.mp h with rfl | h
      . rfl
      . exact ih h

theorem retainTests_parted (bin : SelectedBinary) (reason : Text → Option SyncExclusion)
    : Parted bin (retainTests reason bin.binaryId bin.selectedTests).1
        (retainTests reason bin.binaryId bin.selectedTests).2 where
  stay := by
    rw [retainTests_fst]
    exact List.filter_sublist
  leave := by
    rw [retainTests_snd]
    exact List.filter_sublist
  all := by
    rw [retainTests_fst, retainTests_snd]
    exact List.filter_append_perm _ _
  binary _ h := binaryId_of_mem_retainTests h

end Retain

section Drop

variable (selected : List SelectedBinary) (syncByBinary : ByBinary SyncTestEntry) (qosByBinary : ByBinary QosEntry)

theorem dropSyncTests_partitions
    : Partitions selected (dropSyncTests selected syncByBinary qosByBinary).1
        (dropSyncTests selected syncByBinary qosByBinary).2 := by
  refine ⟨selected.map fun bin =>
    retainTests (syncReason syncByBinary qosByBinary bin.binaryId) bin.binaryId bin.selectedTests, ?_, ?_, ?_⟩
  . rw [List.forall₂_map_right_iff]
    exact List.forall₂_same.mpr fun bin _ => retainTests_parted bin _
  . rw [dropSyncTests, List.zipWith_map_right, List.zipWith_self, List.map_map]
    rfl
  . rw [dropSyncTests, List.flatMap_map, List.flatMap_map]

variable {selected syncByBinary qosByBinary}

theorem mem_dropSyncTests {kept : SelectedBinary}
    : kept ∈ (dropSyncTests selected syncByBinary qosByBinary).1
        ↔
      kept.selectedTests ≠ [] ∧ ∃ bin ∈ selected,
        { bin with
          selectedTests := bin.selectedTests.filter fun test => (syncReason syncByBinary qosByBinary bin.binaryId test).isNone }
            = kept := by
  simp only [dropSyncTests, List.map_map, List.mem_filter, List.mem_map, Function.comp_def, retainTests_fst]
  rw [and_comm]
  simp

theorem syncReason_eq_none {binaryId test : Text}
    : syncReason syncByBinary qosByBinary binaryId test = none
        ↔ profileNamed syncByBinary binaryId test = none
            ∧ ∀ e, runQos qosByBinary binaryId test = some e → e.qos ≠ .sync := by
  unfold syncReason
  cases hprofile : profileNamed syncByBinary binaryId test with
  | some profile => simp
  | none =>
    cases hqos : runQos qosByBinary binaryId test with
    | none => simp
    | some e => simp [Option.filter]

theorem noSync_dropSyncTests (retries : UInt32) (deps : ResourceDeps) (item : WorkItem)
    (hitem : item ∈ buildWorkList (dropSyncTests selected syncByBinary qosByBinary).1 qosByBinary retries deps)
    : item.qos ≠ .sync := by
  rcases mem_buildWorkList.mp hitem with ⟨kept, hkept, test, htest, rfl⟩
  rcases mem_dropSyncTests.mp hkept with ⟨_, bin, _, rfl⟩
  have hreason := (List.mem_filter.mp htest).2
  rw [Option.isNone_iff_eq_none, syncReason_eq_none] at hreason
  dsimp only [workItem]
  cases hqos : runQos qosByBinary bin.binaryId test with
  | none => exact fun h => by cases h
  | some e => exact hreason.2 e hqos

theorem dropSyncTests_excludes_iff (selected : List SelectedBinary) (syncByBinary : ByBinary SyncTestEntry)
    (qosByBinary : ByBinary QosEntry)
    : Excludes selected syncByBinary qosByBinary (dropSyncTests selected syncByBinary qosByBinary).1
        (dropSyncTests selected syncByBinary qosByBinary).2
        ↔ CasesAreSync selected syncByBinary qosByBinary := by
  constructor
  . intro h bin hbin test htest declarant hdeclarant hprofile
    -- A case that has no reason to leave stays, in a binary that keeps it.
    cases hreason : syncReason syncByBinary qosByBinary bin.binaryId test with
    | none =>
      have hstays : test ∈ bin.selectedTests.filter fun test =>
          (syncReason syncByBinary qosByBinary bin.binaryId test).isNone :=
        List.mem_filter.mpr ⟨htest, by simp [hreason]⟩
      have hkept := mem_dropSyncTests.mpr ⟨List.ne_nil_of_mem hstays, bin, hbin, rfl⟩
      exact absurd hprofile (h.noProfile _ hkept test hstays declarant hdeclarant)
    | some reason =>
      have hleaves : ¬ syncReason syncByBinary qosByBinary bin.binaryId test = none := by simp [hreason]
      rw [syncReason_eq_none] at hleaves
      by_cases hexact : profileNamed syncByBinary bin.binaryId test = none
      . by_contra hnone
        apply hleaves
        refine ⟨hexact, ?_⟩
        intro e he hsync
        exact hnone (.inr ⟨e, he, hsync⟩)
      . exact .inl (Option.isSome_iff_ne_none.mpr hexact)
  . intro h
    refine ⟨dropSyncTests_partitions .., ?_, noSync_dropSyncTests, ?_⟩
    . intro kept hkept
      exact (mem_dropSyncTests.mp hkept).1
    . intro kept hkept test htest declarant hdeclarant hprofile
      rcases mem_dropSyncTests.mp hkept with ⟨_, bin, hbin, rfl⟩
      rcases List.mem_filter.mp htest with ⟨hselected, hreason⟩
      rw [Option.isNone_iff_eq_none, syncReason_eq_none] at hreason
      rcases h bin hbin test hselected declarant hdeclarant hprofile with hexact | ⟨e, he, hsync⟩
      . simp [hreason.1] at hexact
      . exact hreason.2 e he hsync

end Drop

namespace Sample

theorem sync_sized (tier : QosClass) (h : qosOfLabel "sync".toList = some tier)
    : (declaredProfile tier (some (.new 15000 (15 * Qos.GIB) 0 0)) none).isSome := by
  cases h
  decide +kernel

def syncProfile : SyncTestEntry :=
  ⟨['c', ':', ':', 'f'], ['p'], [], [], [], "sync".toList, some (.new 15000 (15 * Qos.GIB) 0 0), none, [], sync_sized⟩

-- The one test of a binary is a case of `f`.
def syncCase : SelectedBinary := ⟨[], [], ['b'], [['f', ':', ':', 'x']]⟩

end Sample

theorem case_of_profile_stays
    : ¬ ∀ selected syncByBinary qosByBinary,
        Excludes selected syncByBinary qosByBinary (dropSyncTests selected syncByBinary qosByBinary).1
          (dropSyncTests selected syncByBinary qosByBinary).2 := by
  intro h
  have hkept : Sample.syncCase ∈ (dropSyncTests [Sample.syncCase] [(['b'], [Sample.syncProfile])] []).1 :=
    List.mem_singleton.mpr rfl
  have hlineage : ['f'] ∈ Text.lineage ['f', ':', ':', 'x'] := by
    rw [Text.lineage, Text.ancestors_of_some rfl]
    exact List.mem_cons_of_mem _ List.mem_cons_self
  exact (h _ _ _).noProfile _ hkept _ List.mem_cons_self _ hlineage
    ⟨_, List.mem_cons_self, rfl, _, List.mem_cons_self, rfl⟩

end Planner
