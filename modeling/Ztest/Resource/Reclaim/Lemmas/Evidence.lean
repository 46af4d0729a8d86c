import Ztest.Resource.Reclaim.Lemmas.Cluster
import Mathlib.Data.List.Dedup

namespace Reclaim

/--
What a target of a run-scoped object rests on: the object that was listed, in the cluster it was
listed from, and the verdict on it.
-/
def RunGround (p : Pass) (c : Cluster) (t : Target) (place : Place) : Prop :=
  ∃ c₁ o, WellFormed c₁ ∧ Later c₁ c ∧ o ∈ c₁.objects ∧ o.kind = false ∧ o.place = place ∧
    o.name = t.name ∧ (place = .pods .build → p.buildVersion ≤ c₁.nextUid) ∧
    (t.liveness = .finished →
      (∃ home, place = .pods home) ∧ o.settled = true ∨ ∀ run ∈ p.liveRuns, o.runId ≠ some run)

def SyncGround (p : Pass) (c : Cluster) (t : Target) : Prop :=
  ∃ id ∈ c.syncs, t.id = some id ∧ t.name = driverPodFor id ∧
    (t.liveness = .finished → ∃ pods, p.syncPods = some pods ∧
      ∀ o ∈ pods, o.syncId = some id → (SyncStatus.observe o.phase).isLive = false)

def Justified (p : Pass) (c : Cluster) (t : Target) : Prop :=
  match t.kind with
  | .testEnv => RunGround p c t .namespaces
  | .sync => SyncGround p c t
  | .runPod => ∃ home, t.home = some home ∧ RunGround p c t (.pods home)
  | .seedBinding => RunGround p c t .bindings
  | .reservation => True

theorem RunGround.later {p : Pass} {c c' : Cluster} {t : Target} {place : Place} (hl : Later c c')
    (h : RunGround p c t place)
    : RunGround p c' t place := by
  obtain ⟨c₁, o, hc₁, hlater, hrest⟩ := h
  exact ⟨c₁, o, hc₁, hlater.trans hl, hrest⟩

theorem Justified.later {p : Pass} {c c' : Cluster} {t : Target} (hl : Later c c') (h : Justified p c t)
    : Justified p c' t := by
  unfold Justified at h ⊢
  cases hk : t.kind with
  | testEnv =>
    rw [hk] at h
    exact h.later hl
  | sync =>
    rw [hk] at h
    obtain ⟨id, hid, hrest⟩ := h
    exact ⟨id, hl.syncs id hid, hrest⟩
  | runPod =>
    rw [hk] at h
    obtain ⟨home, hhome, hground⟩ := h
    exact ⟨home, hhome, hground.later hl⟩
  | seedBinding =>
    rw [hk] at h
    exact h.later hl
  | reservation => trivial

def Listing.rank : Listing → Nat
  | leases => 0
  | testNamespaces => 1
  | syncPods => 2
  | syncNamespaces => 3
  | syncRecords => 4
  | runPods => 5
  | buildPods => 6
  | seedBindings => 7
  | reservations => 8

-- The listing after the one that found the target.
def Target.since (t : Target) : Nat :=
  match t.kind with
  | .testEnv => 2
  | .sync => 5
  | .runPod => if t.home = some .build then 7 else 6
  | .seedBinding => 8
  | .reservation => 9

theorem Target.since_pos (t : Target) : 0 < t.since := by
  unfold Target.since
  split
  . decide
  . decide
  . split
    . decide
    . decide
  . decide
  . decide

/--
A listing does not touch the evidence that the targets found before it rest on.
-/
theorem Justified.pass {p p' : Pass} {c : Cluster} {t : Target} (h : Justified p c t)
    (hruns : p'.liveRuns = p.liveRuns)
    (hpods : t.since = 5 → p'.syncPods = p.syncPods)
    (hversion : t.since = 7 → p'.buildVersion = p.buildVersion)
    : Justified p' c t := by
  unfold Justified at h ⊢
  unfold Target.since at hpods hversion
  cases hk : t.kind with
  | testEnv | seedBinding =>
    rw [hk] at h
    obtain ⟨c₁, o, hc₁, hlater, ho, hkind, hplace, hname, _, hfin⟩ := h
    refine ⟨c₁, o, hc₁, hlater, ho, hkind, hplace, hname, ?_, ?_⟩
    . intro hbuild
      cases hbuild
    . rw [hruns]
      exact hfin
  | sync =>
    rw [hk] at h hpods
    obtain ⟨id, hid, htid, hname, hfin⟩ := h
    refine ⟨id, hid, htid, hname, ?_⟩
    rw [hpods rfl]
    exact hfin
  | runPod =>
    rw [hk] at h hversion
    obtain ⟨home, hhome, c₁, o, hc₁, hlater, ho, hkind, hplace, hname, hbuild, hfin⟩ := h
    refine ⟨home, hhome, c₁, o, hc₁, hlater, ho, hkind, hplace, hname, ?_, ?_⟩
    . intro heq
      cases heq
      rw [hversion (by simp [hhome])]
      exact hbuild rfl
    . rw [hruns]
      exact hfin
  | reservation => trivial

theorem terminatingOr_finished {b : Bool} {l : Liveness} (h : terminatingOr b l = .finished)
    : b = false ∧ l = .finished := by
  cases b with
  | false => exact ⟨rfl, h⟩
  | true => cases h

theorem classifyTestEnv_finished {runId : Option Text} {liveRuns : List Text}
    (h : classifyTestEnv (runId.getD unknownRun) liveRuns = .finished)
    : ∀ run ∈ liveRuns, runId ≠ some run := by
  rintro run hrun rfl
  unfold classifyTestEnv at h
  rw [Option.getD_some, List.contains_eq_mem, decide_eq_true hrun, if_pos rfl] at h
  cases h

section Discover

variable {c : Cluster} (hc : WellFormed c) (p : Pass)
include hc

theorem discoverTestEnvs_justified
    : ∀ t ∈ discoverTestEnvs c p.options.scope p.liveRuns, Justified p c t ∧ t.since = 2 := by
  intro t ht
  obtain ⟨o, ho, rfl⟩ := List.mem_map.mp ht
  obtain ⟨ho, hsel⟩ := List.mem_filter.mp ho
  simp only [Bool.and_eq_true, decide_eq_true_eq, Bool.not_eq_true'] at hsel
  obtain ⟨⟨⟨hplace, _⟩, hkind⟩, _⟩ := hsel
  refine ⟨⟨c, o, hc, .refl c, ho, hkind, hplace, rfl, ?_, ?_⟩, rfl⟩
  . intro hbuild
    cases hbuild
  . intro hfin
    exact Or.inr (classifyTestEnv_finished (terminatingOr_finished hfin).2)

theorem discoverRunPods_justified (home : Home) (hversion : home = .build → p.buildVersion ≤ c.nextUid)
    : ∀ t ∈ discoverRunPods c p.options.scope p.liveRuns home,
        Justified p c t ∧ t.since = if home = .build then 7 else 6 := by
  intro t ht
  obtain ⟨o, ho, rfl⟩ := List.mem_map.mp ht
  obtain ⟨ho, hsel⟩ := List.mem_filter.mp ho
  simp only [Bool.and_eq_true, decide_eq_true_eq, Bool.not_eq_true'] at hsel
  obtain ⟨⟨hplace, hkind⟩, _⟩ := hsel
  refine ⟨⟨home, rfl, c, o, hc, .refl c, ho, hkind, hplace, rfl, ?_, ?_⟩, ?_⟩
  . intro hbuild
    cases hbuild
    exact hversion rfl
  . intro hfin
    have hclass := (terminatingOr_finished hfin).2
    split at hclass
    . next hsettled => exact Or.inl ⟨⟨home, rfl⟩, hsettled⟩
    . exact Or.inr (classifyTestEnv_finished hclass)
  . simp [Target.since, runPodTarget]

theorem discoverSeedBindings_justified
    : ∀ t ∈ discoverSeedBindings c p.options.scope p.liveRuns, Justified p c t ∧ t.since = 8 := by
  intro t ht
  obtain ⟨o, ho, rfl⟩ := List.mem_map.mp ht
  obtain ⟨ho, hsel⟩ := List.mem_filter.mp ho
  simp only [Bool.and_eq_true, decide_eq_true_eq] at hsel
  have hkind : o.kind = false := by
    rw [Bool.eq_false_iff]
    intro hkind
    obtain ⟨_, _, _, _, hplace⟩ := hc.labelled o ho hkind
    simp [hsel.1] at hplace
  refine ⟨⟨c, o, hc, .refl c, ho, hkind, hsel.1, rfl, ?_, ?_⟩, rfl⟩
  . intro hbuild
    cases hbuild
  . intro hfin
    exact Or.inr (classifyTestEnv_finished (terminatingOr_finished hfin).2)

end Discover

theorem discoverReservations_justified (c : Cluster) (p : Pass)
    : ∀ t ∈ discoverReservations c p.options.scope, Justified p c t ∧ t.since = 9 := by
  intro t ht
  obtain ⟨lease, _, rfl⟩ := List.mem_map.mp ht
  exact ⟨trivial, rfl⟩

-- A namespace or a driver pod of a sync that was launched.
def SyncPart (c : Cluster) (o : Object) : Prop :=
  ∃ id ∈ c.syncs, o.syncId = some id ∧ o.name = driverPodFor id

theorem SyncPart.later {c c' : Cluster} {o : Object} (hl : Later c c') (h : SyncPart c o)
    : SyncPart c' o := by
  obtain ⟨id, hid, hrest⟩ := h
  exact ⟨id, hl.syncs id hid, hrest⟩

structure SyncPods (c : Cluster) (pods : List Object) : Prop where
  parts : ∀ o ∈ pods, SyncPart c o
  unique : ∀ o ∈ pods, ∀ o' ∈ pods, o.syncId = o'.syncId → o = o'

theorem listSyncPods_spec {c : Cluster} (hc : WellFormed c) (scope : Scope)
    : SyncPods c (listSyncPods c scope) := by
  have hpod : ∀ o ∈ listSyncPods c scope,
      o ∈ c.objects ∧ o.place = .pods .sync ∧ ∃ id ∈ c.syncs, o.syncId = some id ∧ o.name = driverPodFor id := by
    intro o ho
    obtain ⟨ho, hsel⟩ := List.mem_filter.mp ho
    simp only [Bool.and_eq_true, Bool.or_eq_true, decide_eq_true_eq] at hsel
    obtain ⟨⟨hplace, hkind⟩, _⟩ := hsel
    obtain ⟨id, hid, hsync, hname, hplaces⟩ := hc.labelled o ho hkind
    have hsyncPlace : o.place = .pods .sync := by
      rcases hplaces with h | h | h
      . simp [h] at hplace
      . exact h
      . simp [h] at hplace
    rw [hsyncPlace] at hname
    exact ⟨ho, hsyncPlace, id, hid, hsync, hname⟩
  constructor
  . intro o ho
    exact (hpod o ho).2.2
  . intro o ho o' ho' heq
    obtain ⟨hmem, hplace, id, _, hid, hname⟩ := hpod o ho
    obtain ⟨hmem', hplace', id', _, hid', hname'⟩ := hpod o' ho'
    rw [hid, hid', Option.some.injEq] at heq
    apply hc.unique o hmem o' hmem' (hplace.trans hplace'.symm)
    rw [hname, hname', heq]

theorem listSyncs_namespaces {c : Cluster} (hc : WellFormed c) (scope : Scope)
    : ∀ o ∈ listSyncs c scope .namespaces, SyncPart c o := by
  intro o ho
  obtain ⟨ho, hsel⟩ := List.mem_filter.mp ho
  simp only [Bool.and_eq_true, decide_eq_true_eq] at hsel
  obtain ⟨id, hid, hsync, hname, _⟩ := hc.labelled o ho hsel.1.2
  rw [hsel.1.1] at hname
  exact ⟨id, hid, hsync, hname⟩

theorem recordEntries_listSyncs {c : Cluster} (hc : WellFormed c) {scope : Scope} {key : Text} {o : Object}
    (h : (key, o) ∈ recordEntries (listSyncs c scope .records))
    : key ∈ c.syncs ∧ o.syncId = some key := by
  obtain ⟨record, hrecord, hmap⟩ := List.mem_filterMap.mp h
  obtain ⟨id, hid, heq⟩ := Option.map_eq_some_iff.mp hmap
  rw [Prod.mk.injEq] at heq
  obtain ⟨rfl, rfl⟩ := heq
  obtain ⟨hmem, hsel⟩ := List.mem_filter.mp hrecord
  simp only [Bool.and_eq_true] at hsel
  obtain ⟨id', hid', hsync, _⟩ := hc.labelled record hmem hsel.1.2
  rw [hid, Option.some.injEq] at hsync
  exact ⟨hsync ▸ hid', hid⟩

theorem mem_syncEntries {c : Cluster} {parts : List Object} (hparts : ∀ o ∈ parts, SyncPart c o)
    {key : Text} {o : Object} (h : (key, o) ∈ parts.map fun o => (syncKey o, o))
    : key ∈ c.syncs ∧ o.syncId = some key ∧ o.name = driverPodFor key := by
  obtain ⟨part, hpart, heq⟩ := List.mem_map.mp h
  rw [Prod.mk.injEq] at heq
  obtain ⟨rfl, rfl⟩ := heq
  obtain ⟨id, hid, hsync, hname⟩ := hparts part hpart
  have hkey : syncKey part = id := by simp [syncKey, hsync]
  rw [hkey]
  exact ⟨hid, hsync, hname⟩

theorem classifySync_finished {id : Text} {phase : Option (Option Qos.PodPhase)}
    (h : classifySync id phase = .finished)
    : ∃ phase', phase = some phase' ∧ (SyncStatus.observe phase').isLive = false := by
  cases phase with
  | none => cases h
  | some phase =>
    refine ⟨phase, rfl, ?_⟩
    cases hlive : (SyncStatus.observe phase).isLive with
    | false => rfl
    | true =>
      simp only [classifySync, hlive] at h
      cases h

section SyncTargets

variable {c : Cluster} {pods : Option (List Object)} {parts : SyncParts} {key : Text}
  (hns : ∀ o ∈ parts.ns, o.syncId = some key ∧ o.name = driverPodFor key)
  (hpod : ∀ o ∈ parts.pod, o.syncId = some key ∧ o.name = driverPodFor key)
  (hrecord : ∀ o ∈ parts.record, o.syncId = some key)
  (hsome : parts.ns ≠ none ∨ parts.pod ≠ none ∨ parts.record ≠ none)
include hns hpod hrecord hsome

theorem SyncParts.syncId_eq : parts.syncId = some key := by
  unfold SyncParts.syncId
  cases hn : parts.ns with
  | some o => simp [(hns o hn).1]
  | none =>
    cases hp : parts.pod with
    | some o => simp [(hpod o hp).1]
    | none =>
      cases hr : parts.record with
      | some o => simp [hrecord o hr]
      | none => simp [hn, hp, hr] at hsome

theorem syncTarget_name : (syncTarget pods parts).name = driverPodFor key := by
  have hid := SyncParts.syncId_eq hns hpod hrecord hsome
  unfold syncTarget
  cases hn : parts.ns with
  | some o => simp [(hns o hn).2]
  | none =>
    cases hp : parts.pod with
    | some o => simp [(hpod o hp).2]
    | none => simp [hid]

end SyncTargets

theorem syncTargets_justified {c : Cluster} (hc : WellFormed c) (p : Pass)
    (hns : ∀ o ∈ p.syncNamespaces, SyncPart c o) (hpods : ∀ pods, p.syncPods = some pods → SyncPods c pods)
    : ∀ t ∈ syncTargets p.syncNamespaces p.syncPods (listSyncs c p.options.scope .records),
        Justified p c t ∧ t.since = 5 := by
  intro t ht
  obtain ⟨key, hkey, rfl⟩ := List.mem_map.mp ht
  refine ⟨?_, rfl⟩
  have hlisted : ∀ o ∈ p.syncPods.getD [], SyncPart c o := by
    intro o ho
    cases hp : p.syncPods with
    | none => simp [hp] at ho
    | some pods =>
      rw [hp] at ho
      exact (hpods pods hp).parts o ho
  have hmemNs := fun o (h : collect (p.syncNamespaces.map fun o => (syncKey o, o)) key = some o) =>
    mem_syncEntries hns (mem_of_collect h)
  have hmemPod := fun o (h : collect ((p.syncPods.getD []).map fun o => (syncKey o, o)) key = some o) =>
    mem_syncEntries hlisted (mem_of_collect h)
  have hmemRecord := fun o
      (h : collect (recordEntries (listSyncs c p.options.scope .records)) key = some o) =>
    recordEntries_listSyncs hc (mem_of_collect h)
  have hkeys := List.mem_dedup.mp ((List.mem_insertionSort _).mp hkey)
  rw [List.map_append, List.map_append, List.mem_append, List.mem_append, or_assoc] at hkeys
  have hsome := hkeys.imp (mt collect_eq_none_iff.mp ∘ not_not_intro)
    (Or.imp (mt collect_eq_none_iff.mp ∘ not_not_intro) (mt collect_eq_none_iff.mp ∘ not_not_intro))
  have hnsPart := fun o h => (hmemNs o h).2
  have hpodPart := fun o h => (hmemPod o h).2
  have hrecordPart := fun o h => (hmemRecord o h).2
  have hsync : key ∈ c.syncs := by
    rcases hsome with h | h | h
    . obtain ⟨o, ho⟩ := Option.ne_none_iff_exists'.mp h
      exact (hmemNs o ho).1
    . obtain ⟨o, ho⟩ := Option.ne_none_iff_exists'.mp h
      exact (hmemPod o ho).1
    . obtain ⟨o, ho⟩ := Option.ne_none_iff_exists'.mp h
      exact (hmemRecord o ho).1
  refine ⟨key, hsync, SyncParts.syncId_eq hnsPart hpodPart hrecordPart hsome,
    syncTarget_name hnsPart hpodPart hrecordPart hsome, ?_⟩
  intro hfin
  obtain ⟨phase, hphase, hlive⟩ := classifySync_finished
    (terminatingOr_finished (terminatingOr_finished hfin).2).2
  obtain ⟨pods, hp, hphase⟩ := Option.map_eq_some_iff.mp hphase
  refine ⟨pods, hp, ?_⟩
  intro o ho hid
  have hoKey : syncKey o = key := by simp [syncKey, hid]
  -- The driver pod of the sync is the only pod under its key.
  have hpodOf : collect ((p.syncPods.getD []).map fun o => (syncKey o, o)) key = some o := by
    rw [hp, Option.getD_some] at hmemPod ⊢
    cases hcollect : collect (pods.map fun o => (syncKey o, o)) key with
    | none =>
      have := collect_eq_none_iff.mp hcollect
      rw [List.map_map] at this
      exact absurd (List.mem_map.mpr ⟨o, ho, hoKey⟩) this
    | some o' =>
      obtain ⟨part, hpart, heq⟩ := List.mem_map.mp (mem_of_collect hcollect)
      rw [Prod.mk.injEq] at heq
      obtain ⟨_, rfl⟩ := heq
      rw [(hpods pods hp).unique part hpart o ho ((hmemPod part hcollect).2.1.trans hid.symm)]
  rw [hpodOf, Option.bind_some] at hphase
  rw [hphase]
  exact hlive

theorem mem_triage {force : Bool} {targets : List Target} {outcome : Outcome} {t : Target}
    (h : t ∈ (triage force targets outcome).1)
    : t ∈ targets ∧ (force = false → t.liveness = .finished) := by
  induction targets generalizing outcome with
  | nil => cases h
  | cons target rest ih =>
    unfold triage at h
    split at h
    . exact ⟨List.mem_cons_of_mem _ (ih h).1, (ih h).2⟩
    . split at h
      . next hforce =>
        rcases List.mem_cons.mp h with rfl | h
        . exact ⟨List.mem_cons_self, by simp [hforce]⟩
        . exact ⟨List.mem_cons_of_mem _ (ih h).1, (ih h).2⟩
      . exact ⟨List.mem_cons_of_mem _ (ih h).1, (ih h).2⟩
    . next hfin =>
      rcases List.mem_cons.mp h with rfl | h
      . exact ⟨List.mem_cons_self, fun _ => hfin⟩
      . exact ⟨List.mem_cons_of_mem _ (ih h).1, (ih h).2⟩

theorem Plan.mem_restrictTo_sort {plan : Plan} {tokens : List Text} {t : Target}
    (h : t ∈ (plan.sort.restrictTo tokens).targets)
    : t ∈ plan.targets := by
  unfold Plan.restrictTo at h
  split at h
  . exact (List.mem_insertionSort _).mp h
  . exact (List.mem_insertionSort _).mp (List.mem_filter.mp h).1

/--
The pass has listed what stands before the listing of rank `n`, and every target it found so far
rests on evidence that still counts.
-/
structure Listed (p : Pass) (c : Cluster) (n : Nat) : Prop where
  wellFormed : WellFormed c
  syncPods : ∀ pods, p.syncPods = some pods → SyncPods c pods
  syncNamespaces : ∀ o ∈ p.syncNamespaces, SyncPart c o
  targets : ∀ t ∈ p.plan.targets, Justified p c t ∧ t.since ≤ n

def Stage.pending : Stage → List Target
  | listing _ => []
  | deleting remaining => remaining
  | deletingDriver target _ remaining => target :: remaining

structure Inv (w : World) : Prop where
  wellFormed : WellFormed w.cluster
  listed : ∀ listing, w.pass.stage = .listing listing → Listed w.pass w.cluster listing.rank
  pending : ∀ t ∈ w.pass.stage.pending,
    Justified w.pass w.cluster t ∧ (w.pass.options.force = false → t.liveness = .finished)
  driver : ∀ t ns rest, w.pass.stage = .deletingDriver t ns rest → t.kind = .sync

namespace Listed

variable {p : Pass} {c c' : Cluster} {n m : Nat}

theorem later (h : Listed p c n) (hl : Later c c') (hc' : WellFormed c') : Listed p c' n where
  wellFormed := hc'
  syncPods pods hp :=
    ⟨fun o ho => ((h.syncPods pods hp).parts o ho).later hl, (h.syncPods pods hp).unique⟩
  syncNamespaces o ho := (h.syncNamespaces o ho).later hl
  targets t ht := ⟨(h.targets t ht).1.later hl, (h.targets t ht).2⟩

theorem mono (h : Listed p c n) (hle : n ≤ m) : Listed p c m where
  wellFormed := h.wellFormed
  syncPods := h.syncPods
  syncNamespaces := h.syncNamespaces
  targets t ht := ⟨(h.targets t ht).1, Nat.le_trans (h.targets t ht).2 hle⟩

theorem fault (h : Listed p c n) (listing : Listing) : Listed (p.fault listing) c n where
  wellFormed := h.wellFormed
  syncPods := h.syncPods
  syncNamespaces := h.syncNamespaces
  targets t ht := ⟨(h.targets t ht).1.pass rfl (fun _ => rfl) (fun _ => rfl), (h.targets t ht).2⟩

theorem found (h : Listed p c n) {targets : List Target}
    (htargets : ∀ t ∈ targets, Justified p c t ∧ t.since = m) (hle : n ≤ m)
    : Listed (p.found targets) c m where
  wellFormed := h.wellFormed
  syncPods := h.syncPods
  syncNamespaces := h.syncNamespaces
  targets := by
    intro t ht
    rcases List.mem_append.mp ht with ht | ht
    . obtain ⟨hj, hsince⟩ := h.targets t ht
      exact ⟨hj.pass rfl (fun _ => rfl) (fun _ => rfl), Nat.le_trans hsince hle⟩
    . obtain ⟨hj, hsince⟩ := htargets t ht
      exact ⟨hj.pass rfl (fun _ => rfl) (fun _ => rfl), Nat.le_of_eq hsince⟩

theorem liveRuns (h : Listed p c 0) (runs : List Text) : Listed { p with liveRuns := runs } c 0 where
  wellFormed := h.wellFormed
  syncPods := h.syncPods
  syncNamespaces := h.syncNamespaces
  targets t ht := absurd (h.targets t ht).2 (Nat.not_le_of_lt t.since_pos)

theorem pods (h : Listed p c 2) (scope : Scope)
    : Listed { p with syncPods := some (listSyncPods c scope) } c 2 where
  wellFormed := h.wellFormed
  syncPods := by
    intro pods hp
    cases hp
    exact listSyncPods_spec h.wellFormed scope
  syncNamespaces := h.syncNamespaces
  targets := by
    intro t ht
    obtain ⟨hj, hsince⟩ := h.targets t ht
    exact ⟨hj.pass rfl (by omega) (fun _ => rfl), hsince⟩

theorem namespaces (h : Listed p c n) (scope : Scope)
    : Listed { p with syncNamespaces := listSyncs c scope .namespaces } c n where
  wellFormed := h.wellFormed
  syncPods := h.syncPods
  syncNamespaces := listSyncs_namespaces h.wellFormed scope
  targets t ht := ⟨(h.targets t ht).1.pass rfl (fun _ => rfl) (fun _ => rfl), (h.targets t ht).2⟩

theorem buildVersion (h : Listed p c 6) (version : Nat) : Listed { p with buildVersion := version } c 6 where
  wellFormed := h.wellFormed
  syncPods := h.syncPods
  syncNamespaces := h.syncNamespaces
  targets := by
    intro t ht
    obtain ⟨hj, hsince⟩ := h.targets t ht
    exact ⟨hj.pass rfl (fun _ => rfl) (by omega), hsince⟩

theorem goto {next : Listing} (h : Listed p c next.rank) : Inv ⟨c, p.goto next⟩ where
  wellFormed := h.wellFormed
  listed := by
    intro listing hstage
    cases hstage
    exact ⟨h.wellFormed, h.syncPods, h.syncNamespaces, fun t ht =>
      ⟨(h.targets t ht).1.pass rfl (fun _ => rfl) (fun _ => rfl), (h.targets t ht).2⟩⟩
  pending := by
    intro t ht
    cases ht
  driver := by
    intro t ns rest hstage
    cases hstage

theorem reclaim (h : Listed p c n) : Inv ⟨c, p.reclaim⟩ := by
  unfold Pass.reclaim
  dsimp only
  split
  . refine ⟨h.wellFormed, ?_, ?_, ?_⟩
    . intro listing hstage
      cases hstage
    . intro t ht
      cases ht
    . intro t ns rest hstage
      cases hstage
  . refine ⟨h.wellFormed, ?_, ?_, ?_⟩
    . intro listing hstage
      cases hstage
    . intro t ht
      obtain ⟨hmem, hfin⟩ := mem_triage ht
      have hj := (h.targets t (Plan.mem_restrictTo_sort hmem)).1
      exact ⟨hj.pass rfl (fun _ => rfl) (fun _ => rfl), hfin⟩
    . intro t ns rest hstage
      cases hstage

end Listed

theorem Pass.list_inv {p : Pass} {c : Cluster} {listing : Listing} (h : Listed p c listing.rank)
    (answer : Answer)
    : Inv ⟨c, p.list c listing answer⟩ := by
  have hc := h.wellFormed
  have hskip : ∀ next : Listing, listing.rank ≤ next.rank → Inv ⟨c, (p.fault listing).goto next⟩ := by
    intro next hle
    exact ((h.fault listing).mono hle).goto
  cases listing with
  | leases =>
    cases answer with
    | ok => exact ((h.liveRuns _).mono (by decide : 0 ≤ 1)).goto
    | notFound => exact hskip _ (by decide)
    | failed => exact hskip _ (by decide)
  | testNamespaces =>
    cases answer with
    | ok => exact (h.found (discoverTestEnvs_justified hc p) (by decide)).goto
    | notFound => exact hskip _ (by decide)
    | failed => exact hskip _ (by decide)
  | syncPods =>
    cases answer with
    | ok => exact ((h.pods _).mono (by decide : 2 ≤ 3)).goto
    | notFound => exact hskip _ (by decide)
    | failed => exact hskip _ (by decide)
  | syncNamespaces =>
    cases answer with
    | ok => exact ((h.namespaces _).mono (by decide : 3 ≤ 4)).goto
    | notFound => exact hskip _ (by decide)
    | failed => exact hskip _ (by decide)
  | syncRecords =>
    cases answer with
    | ok => exact (h.found (syncTargets_justified hc p h.syncNamespaces h.syncPods) (by decide)).goto
    | notFound => exact hskip _ (by decide)
    | failed => exact hskip _ (by decide)
  | runPods =>
    cases answer with
    | ok =>
      have hjust := discoverRunPods_justified hc p .run (by intro h; cases h)
      exact (h.found hjust (by decide)).goto
    | notFound => exact hskip _ (by decide)
    | failed => exact hskip _ (by decide)
  | buildPods =>
    cases answer with
    | ok =>
      have hjust := discoverRunPods_justified hc { p with buildVersion := c.nextUid } .build
        (fun _ => Nat.le_refl _)
      exact ((h.buildVersion c.nextUid).found hjust (by decide)).goto
    | notFound => exact hskip _ (by decide)
    | failed => exact hskip _ (by decide)
  | seedBindings =>
    cases answer with
    | ok => exact (h.found (discoverSeedBindings_justified hc p) (by decide)).goto
    | notFound => exact (h.mono (by decide : 7 ≤ 8)).goto
    | failed => exact hskip _ (by decide)
  | reservations =>
    cases answer with
    | ok => exact (h.found (discoverReservations_justified c p) (by decide)).reclaim
    | notFound => exact h.reclaim
    | failed => exact (h.fault _).reclaim

end Reclaim
