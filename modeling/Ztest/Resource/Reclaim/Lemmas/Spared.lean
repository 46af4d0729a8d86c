import Ztest.Resource.Reclaim.Lemmas.Evidence

namespace Reclaim

theorem delete_spec {c : Cluster} (hc : WellFormed c) (t : Target) (reply : Reply)
    : Later c (delete c t reply).1 ∧ WellFormed (delete c t reply).1 := by
  unfold delete
  split
  . exact ⟨(deleteOne_spec hc _ _ reply).1, (deleteOne_spec hc _ _ reply).2.1⟩
  . exact ⟨(deleteOne_spec hc _ _ reply).1, (deleteOne_spec hc _ _ reply).2.1⟩
  . exact ⟨(deleteOne_spec hc _ _ reply).1, (deleteOne_spec hc _ _ reply).2.1⟩
  . exact ⟨(deleteOne_spec hc _ _ reply).1, (deleteOne_spec hc _ _ reply).2.1⟩
  . exact ⟨(deleteLease_spec hc _ reply).1, (deleteLease_spec hc _ reply).2.1⟩

/--
The two kinds of delete step: the request of a target, and the second request of a sync.
-/
theorem World.delete_cases {w w' : World} {reply : Reply} (h : w.delete reply = .ok w')
    : (∃ t rest, w.pass.stage = .deleting (t :: rest) ∧
          w'.cluster = (Reclaim.delete w.cluster t reply).1 ∧
          ((∃ ns, w'.pass = { w.pass with stage := .deletingDriver t ns rest } ∧ t.kind = .sync) ∨
            ∃ outcome, w'.pass = { w.pass with stage := .deleting rest, outcome })) ∨
        (∃ t ns rest, w.pass.stage = .deletingDriver t ns rest ∧
          w'.cluster = (deleteDriver w.cluster t reply).1 ∧
          ∃ outcome, w'.pass = { w.pass with stage := .deleting rest, outcome }) := by
  unfold World.delete at h
  split at h
  . next t rest hstage =>
    refine Or.inl ⟨t, rest, hstage, ?_⟩
    dsimp only at h
    split at h
    . next hkind =>
      cases h
      exact ⟨rfl, Or.inl ⟨_, rfl, hkind⟩⟩
    . cases h
      exact ⟨rfl, Or.inr ⟨_, rfl⟩⟩
  . next t ns rest hstage =>
    cases h
    exact Or.inr ⟨t, ns, rest, hstage, rfl, _, rfl⟩
  . cases h

theorem Inv.act {w : World} (hw : Inv w) {cluster : Cluster} (hl : Later w.cluster cluster)
    (hc : WellFormed cluster)
    : Inv { w with cluster } where
  wellFormed := hc
  listed listing hstage := (hw.listed listing hstage).later hl hc
  pending t ht := ⟨(hw.pending t ht).1.later hl, (hw.pending t ht).2⟩
  driver := hw.driver

theorem Inv.deleted {w : World} (hw : Inv w) {cluster : Cluster} (stage : Stage) (outcome : Outcome)
    (hl : Later w.cluster cluster) (hc : WellFormed cluster)
    (hlisting : ∀ listing, stage ≠ .listing listing)
    (hpending : ∀ t ∈ stage.pending, t ∈ w.pass.stage.pending)
    (hdriver : ∀ t ns rest, stage = .deletingDriver t ns rest → t.kind = .sync)
    : Inv { cluster, pass := { w.pass with stage, outcome } } where
  wellFormed := hc
  listed listing hstage := absurd hstage (hlisting listing)
  pending := by
    intro t ht
    obtain ⟨hj, hfin⟩ := hw.pending t (hpending t ht)
    exact ⟨(hj.later hl).pass rfl (fun _ => rfl) (fun _ => rfl), hfin⟩
  driver := hdriver

theorem World.delete_inv {w w' : World} {reply : Reply} (hw : Inv w) (h : w.delete reply = .ok w')
    : Inv w' := by
  rcases World.delete_cases h with ⟨t, rest, hstage, hcluster, hpass⟩ | ⟨t, ns, rest, hstage, hcluster, hpass⟩
  . obtain ⟨hl, hc⟩ := delete_spec hw.wellFormed t reply
    rw [← hcluster] at hl hc
    rcases hpass with ⟨ns, hpass, hkind⟩ | ⟨outcome, hpass⟩
    . have hinv := hw.deleted (.deletingDriver t ns rest) w.pass.outcome hl hc
        (by intro listing hstage; cases hstage) (by simp [hstage, Stage.pending])
        (by intro t' ns' rest' heq; cases heq; exact hkind)
      rw [← hpass] at hinv
      exact hinv
    . have hinv := hw.deleted (.deleting rest) outcome hl hc
        (by intro listing hstage; cases hstage) (by simp +contextual [hstage, Stage.pending])
        (by intro t' ns' rest' heq; cases heq)
      rw [← hpass] at hinv
      exact hinv
  . obtain ⟨hl, hc, _⟩ := deleteOne_spec hw.wellFormed (.pods .sync) (driverPodOf t) reply
    obtain ⟨outcome, hpass⟩ := hpass
    have hinv := hw.deleted (.deleting rest) outcome (hcluster ▸ hl) (hcluster ▸ hc)
      (by intro listing hstage; cases hstage) (by simp +contextual [hstage, Stage.pending])
      (by intro t' ns' rest' heq; cases heq)
    rw [← hpass] at hinv
    exact hinv

theorem World.act_inv {w w' : World} {input : Input} (hw : Inv w) (h : w.act input = .ok w')
    : Inv w' := by
  have hothers : ∀ input, (w.cluster.act input).map (fun cluster => { w with cluster }) = .ok w' → Inv w' := by
    intro input h
    obtain ⟨cluster, hact, rfl⟩ := Run.map_ok h
    obtain ⟨hl, hc⟩ := Cluster.act_spec hw.wellFormed hact
    exact hw.act hl hc
  cases input with
  | list answer =>
    simp only [World.act, World.list] at h
    split at h
    . next listing hstage =>
      cases h
      exact Pass.list_inv (hw.listed listing hstage) answer
    . cases h
  | delete reply => exact World.delete_inv hw h
  | tick seconds => exact hothers (.tick seconds) h
  | writeLease run user duration => exact hothers (.writeLease run user duration) h
  | releaseLease run => exact hothers (.releaseLease run) h
  | create place name run user phase => exact hothers (.create place name run user phase) h
  | launch place syncId user phase => exact hothers (.launch place syncId user phase) h
  | setPhase home name phase => exact hothers (.setPhase home name phase) h
  | remove place name => exact hothers (.remove place name) h
  | mark place name => exact hothers (.mark place name) h

theorem World.step_inv (w : World) (input : Input) (w' : World) (r : Unit) (hw : Inv w)
    (h : w.step input = .ok (w', r))
    : Inv w' := by
  obtain ⟨w'', hact, heq⟩ := Run.map_ok h
  cases heq
  exact World.act_inv hw hact

theorem World.start_inv {c : Cluster} (hc : WellFormed c) (options : Options) : Inv (.start c options) := by
  refine ⟨hc, ?_, ?_, ?_⟩
  . intro listing hstage
    cases hstage
    refine ⟨hc, ?_, ?_, ?_⟩
    . intro pods hp
      cases hp
    . intro o ho
      cases ho
    . intro t ht
      cases ht
  . intro t ht
    cases ht
  . intro t ns rest hstage
    cases hstage

theorem driverPodFor_inj {a b : Text} (h : driverPodFor a = driverPodFor b) : a = b :=
  List.append_cancel_left h

/--
What the pass knows when it deletes: the run of the object had an unexpired lease, and the object is
no settled pod and no build pod that came after the list.
-/
structure Pass.KeepsRun (p : Pass) (o : Object) : Prop where
  kind : o.kind = false
  run : ∃ run ∈ p.liveRuns, o.runId = some run
  settled : ∀ home, o.place = .pods home → o.settled = false
  listed : o.place = .pods .build → o.uid < p.buildVersion

/--
The driver pods of the syncs could not be listed, or the one of this sync was pending or running.
-/
structure Pass.KeepsSync (p : Pass) (o : Object) : Prop where
  kind : o.kind = true
  driver : ∀ pods, p.syncPods = some pods →
    ∃ pod ∈ pods, pod.syncId = o.syncId ∧ (SyncStatus.observe pod.phase).isLive = true

section Spared

variable {p : Pass} {c : Cluster} {t : Target} {o : Object} (ho : o ∈ c.objects)
include ho

theorem RunGround.run_spared {place : Place} (h : RunGround p c t place) (hfin : t.liveness = .finished)
    (hkeep : p.KeepsRun o)
    : ¬(o.place = place ∧ o.name = t.name) := by
  rintro ⟨rfl, hname⟩
  obtain ⟨run, hrun, hof⟩ := hkeep.run
  obtain ⟨c₁, l, hc₁, hlater, hl, hlkind, hlplace, hlname, hbuild, hjudged⟩ := h
  rcases hlater.objects o ho with ⟨o₁, ho₁, hsame⟩ | ⟨huid, hfresh⟩
  . -- The object that was listed is still there: it was judged.
    have heq : o₁ = l := by
      apply hc₁.unique o₁ ho₁ l hl
      . rw [hsame.place, hlplace]
      . rw [hsame.name, hlname, hname]
    subst heq
    rcases hjudged hfin with ⟨⟨home, hhome⟩, hended⟩ | hruns
    . exact absurd (hsame.settled hended) (by simp [hkeep.settled home hhome])
    . exact hruns run hrun (hsame.runId.trans hof)
  . -- Another object under the name that was listed: only the build pod's name comes back.
    have hne : o.place ≠ .pods .build := by
      intro hplace
      have := hkeep.listed hplace
      have := hbuild hplace
      omega
    have hdrawn := ((hc₁.named l hl hlkind).2).resolve_left (by rw [hlplace]; exact hne)
    rcases hfresh hkeep.kind with hplace | hnew
    . exact hne hplace
    . rw [hname, ← hlname] at hnew
      exact hnew hdrawn

variable (hc : WellFormed c)
include hc

theorem RunGround.sync_spared {place : Place} (h : RunGround p c t place) (hrecords : place ≠ .records)
    (hkind : o.kind = true)
    : ¬(o.place = place ∧ o.name = t.name) := by
  rintro ⟨rfl, hname⟩
  obtain ⟨c₁, l, hc₁, hlater, hl, hlkind, hlplace, hlname, _, _⟩ := h
  obtain ⟨id, hid, _, hoName, hplaces⟩ := hc.labelled o ho hkind
  obtain ⟨hnotSync, hdrawn⟩ := hc₁.named l hl hlkind
  rw [hlplace] at hnotSync hdrawn
  rcases hplaces with hplace | hplace | hplace
  . rw [hplace] at hdrawn hoName
    have hmem := hdrawn.resolve_left (by simp)
    rw [hlname, ← hname, hoName] at hmem
    exact hc.apart id hid (hlater.drawn _ hmem)
  . exact hnotSync hplace
  . exact hrecords hplace

theorem SyncGround.run_spared (h : SyncGround p c t) (hkind : o.kind = false)
    : ¬(o.place = .namespaces ∧ o.name = t.name) ∧
        ¬(o.place = .pods .sync ∧ o.name = driverPodOf t) := by
  obtain ⟨id, hid, _, htName, _⟩ := h
  obtain ⟨hnotSync, hdrawn⟩ := hc.named o ho hkind
  constructor
  . rintro ⟨hplace, hname⟩
    rw [hplace] at hdrawn
    have hmem := hdrawn.resolve_left (by simp)
    rw [hname, htName] at hmem
    exact hc.apart id hid hmem
  . rintro ⟨hplace, _⟩
    exact hnotSync hplace

theorem SyncGround.sync_spared (h : SyncGround p c t) (hfin : t.liveness = .finished)
    (hkeep : p.KeepsSync o)
    : ¬(o.place = .namespaces ∧ o.name = t.name) ∧
        ¬(o.place = .pods .sync ∧ o.name = driverPodOf t) := by
  obtain ⟨id, _, htId, htName, hjudged⟩ := h
  obtain ⟨pods, hpods, hended⟩ := hjudged hfin
  obtain ⟨pod, hpod, hsync, hlive⟩ := hkeep.driver pods hpods
  obtain ⟨id', _, hoId, hoName, _⟩ := hc.labelled o ho hkeep.kind
  have hne : id' ≠ id := by
    rintro rfl
    rw [hended pod hpod (hsync.trans hoId)] at hlive
    cases hlive
  constructor
  . rintro ⟨hplace, hname⟩
    rw [hplace] at hoName
    exact hne (driverPodFor_inj (hoName.symm.trans (hname.trans htName)))
  . rintro ⟨hplace, hname⟩
    rw [hplace] at hoName
    simp only [driverPodOf, htId] at hname
    exact hne (driverPodFor_inj (hoName.symm.trans hname))

variable (hfin : t.liveness = .finished) (hkeep : p.KeepsRun o ∨ p.KeepsSync o)
include hfin hkeep

theorem RunGround.spared {place : Place} (h : RunGround p c t place) (hrecords : place ≠ .records)
    : ¬(o.place = place ∧ o.name = t.name) := by
  rcases hkeep with hkeep | hkeep
  . exact h.run_spared ho hfin hkeep
  . exact h.sync_spared ho hc hrecords hkeep.kind

theorem SyncGround.spared (h : SyncGround p c t)
    : ¬(o.place = .namespaces ∧ o.name = t.name) ∧
        ¬(o.place = .pods .sync ∧ o.name = driverPodOf t) := by
  rcases hkeep with hkeep | hkeep
  . exact h.run_spared ho hc hkeep.kind
  . exact h.sync_spared ho hc hfin hkeep

theorem Justified.delete_spared (h : Justified p c t) (reply : Reply) : o ∈ (delete c t reply).1.objects := by
  have hone := fun place name => (deleteOne_spec hc place name reply).2.2 o ho
  unfold Justified at h
  unfold delete
  cases hk : t.kind with
  | testEnv =>
    rw [hk] at h
    exact hone _ _ (h.spared ho hc hfin hkeep (by simp))
  | sync =>
    rw [hk] at h
    exact hone _ _ (h.spared ho hc hfin hkeep).1
  | runPod =>
    rw [hk] at h
    obtain ⟨home, hhome, hground⟩ := h
    rw [hhome, Option.getD_some]
    exact hone _ _ (hground.spared ho hc hfin hkeep (by simp))
  | seedBinding =>
    rw [hk] at h
    exact hone _ _ (h.spared ho hc hfin hkeep (by simp))
  | reservation =>
    rw [(deleteLease_spec hc t.name reply).2.2]
    exact ho

end Spared

theorem World.delete_spared {w w' : World} {reply : Reply} (hw : Inv w) (hforce : w.pass.options.force = false)
    (h : w.delete reply = .ok w') {o : Object} (ho : o ∈ w.cluster.objects)
    (hkeep : w.pass.KeepsRun o ∨ w.pass.KeepsSync o)
    : o ∈ w'.cluster.objects := by
  rcases World.delete_cases h with ⟨t, rest, hstage, hcluster, _⟩ | ⟨t, ns, rest, hstage, hcluster, _⟩
  . obtain ⟨hj, hfin⟩ := hw.pending t (by rw [hstage]; exact List.mem_cons_self)
    rw [hcluster]
    exact hj.delete_spared ho hw.wellFormed (hfin hforce) hkeep reply
  . obtain ⟨hj, hfin⟩ := hw.pending t (by rw [hstage]; exact List.mem_cons_self)
    unfold Justified at hj
    rw [hw.driver t ns rest hstage] at hj
    rw [hcluster]
    exact (deleteOne_spec hw.wellFormed _ _ reply).2.2 o ho
      (hj.spared ho hw.wellFormed (hfin hforce) hkeep).2

theorem Pass.reclaim_frame (p : Pass)
    : p.reclaim.options = p.options ∧ p.reclaim.liveRuns = p.liveRuns ∧ p.reclaim.stage ≠ .listing .leases := by
  unfold Pass.reclaim
  dsimp only
  split
  . exact ⟨rfl, rfl, by simp⟩
  . exact ⟨rfl, rfl, by simp⟩

/--
The leases are listed once, first.
-/
theorem Pass.list_frame (p : Pass) (c : Cluster) (listing : Listing) (answer : Answer)
    : (p.list c listing answer).options = p.options ∧
        (listing ≠ .leases → (p.list c listing answer).liveRuns = p.liveRuns) ∧
        (p.list c listing answer).stage ≠ .listing .leases := by
  unfold Pass.list
  split
  case h_1 => exact ⟨rfl, fun h => absurd rfl h, by simp [Pass.goto]⟩
  case h_2 => exact ⟨rfl, fun h => absurd rfl h, by simp [Pass.goto]⟩
  case h_18 => exact ⟨(Pass.reclaim_frame _).1, fun _ => (Pass.reclaim_frame _).2.1, (Pass.reclaim_frame _).2.2⟩
  case h_19 => exact ⟨(Pass.reclaim_frame _).1, fun _ => (Pass.reclaim_frame _).2.1, (Pass.reclaim_frame _).2.2⟩
  case h_20 => exact ⟨(Pass.reclaim_frame _).1, fun _ => (Pass.reclaim_frame _).2.1, (Pass.reclaim_frame _).2.2⟩
  all_goals exact ⟨rfl, fun _ => rfl, by simp [Pass.goto]⟩

theorem World.act_frame {w w' : World} {input : Input} (h : w.act input = .ok w')
    : w'.pass.options = w.pass.options ∧
        (w.pass.stage ≠ .listing .leases →
          w'.pass.liveRuns = w.pass.liveRuns ∧ w'.pass.stage ≠ .listing .leases) := by
  have hothers : ∀ input, (w.cluster.act input).map (fun cluster => { w with cluster }) = .ok w' →
      w'.pass.options = w.pass.options ∧
        (w.pass.stage ≠ .listing .leases →
          w'.pass.liveRuns = w.pass.liveRuns ∧ w'.pass.stage ≠ .listing .leases) := by
    intro input h
    obtain ⟨cluster, _, rfl⟩ := Run.map_ok h
    exact ⟨rfl, fun hstage => ⟨rfl, hstage⟩⟩
  cases input with
  | list answer =>
    simp only [World.act, World.list] at h
    split at h
    . next listing hstage =>
      cases h
      obtain ⟨hoptions, hruns, hnext⟩ := Pass.list_frame w.pass w.cluster listing answer
      refine ⟨hoptions, ?_⟩
      intro hne
      refine ⟨hruns ?_, hnext⟩
      rintro rfl
      exact hne hstage
    . cases h
  | delete reply =>
    rcases World.delete_cases h with ⟨t, rest, _, _, hpass⟩ | ⟨t, ns, rest, _, _, outcome, hpass⟩
    . rcases hpass with ⟨ns, hpass, _⟩ | ⟨outcome, hpass⟩
      . rw [hpass]
        exact ⟨rfl, fun _ => ⟨rfl, by simp⟩⟩
      . rw [hpass]
        exact ⟨rfl, fun _ => ⟨rfl, by simp⟩⟩
    . rw [hpass]
      exact ⟨rfl, fun _ => ⟨rfl, by simp⟩⟩
  | tick seconds => exact hothers (.tick seconds) h
  | writeLease run user duration => exact hothers (.writeLease run user duration) h
  | releaseLease run => exact hothers (.releaseLease run) h
  | create place name run user phase => exact hothers (.create place name run user phase) h
  | launch place syncId user phase => exact hothers (.launch place syncId user phase) h
  | setPhase home name phase => exact hothers (.setPhase home name phase) h
  | remove place name => exact hothers (.remove place name) h
  | mark place name => exact hothers (.mark place name) h

theorem World.exec_options {w w' : World} {inputs : List Input} (h : Run.exec World.step w inputs = .ok w')
    : w'.pass.options = w.pass.options := by
  apply Run.exec_invariant (I := fun v => v.pass.options = w.pass.options) ?_ rfl h
  intro v input v' r hv hstep
  obtain ⟨v'', hact, heq⟩ := Run.map_ok hstep
  cases heq
  exact (World.act_frame hact).1.trans hv

theorem World.exec_liveRuns {w w' : World} {inputs : List Input} (hstage : w.pass.stage ≠ .listing .leases)
    (h : Run.exec World.step w inputs = .ok w')
    : w'.pass.liveRuns = w.pass.liveRuns := by
  have hinv := Run.exec_invariant
    (I := fun v => v.pass.liveRuns = w.pass.liveRuns ∧ v.pass.stage ≠ .listing .leases) ?_ ⟨rfl, hstage⟩ h
  . exact hinv.1
  . intro v input v' r hv hstep
    obtain ⟨v'', hact, heq⟩ := Run.map_ok hstep
    cases heq
    obtain ⟨hruns, hnext⟩ := (World.act_frame hact).2 hv.2
    exact ⟨hruns.trans hv.1, hnext⟩

theorem mem_liveRunIds {c : Cluster} {run : Text} (h : c.live run = true) : run ∈ liveRunIds c := by
  obtain ⟨lease, hlease, hlive⟩ := List.any_eq_true.mp h
  rw [Bool.and_eq_true, decide_eq_true_eq] at hlive
  exact List.mem_map.mpr ⟨lease, List.mem_filter.mpr ⟨hlease, hlive.2⟩, hlive.1⟩

/--
A pass without `--force` that could list the leases spares every namespace, binding and unsettled
pod of a run whose lease was unexpired at that moment, a build pod if it was there when the build
pods were listed. It spares every sync whose driver pod was pending or running, or could not be
listed.
-/
theorem reclaim_spares_in_flight {c : Cluster} (hc : WellFormed c) {options : Options}
    (hforce : options.force = false) {before after : List Input} {w₀ w w' : World} {reply : Reply}
    (hbefore : Run.exec World.step (.start c options) before = .ok w₀)
    (hleases : w₀.pass.stage = .listing .leases)
    (hafter : Run.exec World.step w₀ (.list .ok :: after) = .ok w)
    (hdelete : w.delete reply = .ok w')
    : (∀ o ∈ w.cluster.objects, ∀ run, o.runId = some run → w₀.cluster.live run = true →
          o.kind = false → (∀ home, o.place = .pods home → o.settled = false) →
          (o.place = .pods .build → o.uid < w.pass.buildVersion) →
          o ∈ w'.cluster.objects) ∧
        ∀ o ∈ w.cluster.objects, w.pass.KeepsSync o → o ∈ w'.cluster.objects := by
  have hinv₀ : Inv w₀ := Run.exec_invariant World.step_inv (World.start_inv hc options) hbefore
  have hinv : Inv w := Run.exec_invariant World.step_inv hinv₀ hafter
  have hopts : w.pass.options.force = false := by
    rw [World.exec_options hafter, World.exec_options hbefore]
    exact hforce
  have hruns : w.pass.liveRuns = liveRunIds w₀.cluster := by
    obtain ⟨w₁, _, hstep, hrest⟩ := Run.exec_cons_ok hafter
    obtain ⟨w₂, hlist, heq⟩ := Run.map_ok hstep
    cases heq
    simp only [World.act, World.list, hleases] at hlist
    cases hlist
    rw [World.exec_liveRuns (by simp [Pass.list, Pass.goto]) hrest]
    rfl
  constructor
  . intro o ho run hrun hlive hkind hsettled hlisted
    have hmem : run ∈ w.pass.liveRuns := hruns ▸ mem_liveRunIds hlive
    exact World.delete_spared hinv hopts hdelete ho (Or.inl ⟨hkind, ⟨run, hmem, hrun⟩, hsettled, hlisted⟩)
  . intro o ho hkeep
    exact World.delete_spared hinv hopts hdelete ho (Or.inr hkeep)

def emptyCluster : Cluster := ⟨0, [], [], 0, [], []⟩

def plainCleanup : Options := ⟨.allUsers, [], false, false⟩

-- The lists after the one of the leases, up to the sync records.
def listSyncsOk : List Input := [.list .ok, .list .ok, .list .ok, .list .ok]

def listRestOk : List Input := [.list .ok, .list .ok, .list .ok, .list .ok]

def leftover : Object := ⟨.namespaces, ['m'], 0, some ['d'], some ['u'], true, false, none, false, none⟩

def oneLeftover : Cluster := ⟨0, [], [leftover], 1, [['m']], []⟩

theorem oneLeftover_wellFormed : WellFormed oneLeftover where
  unique := by
    intro o ho o' ho' _ _
    rw [List.mem_singleton.mp ho, List.mem_singleton.mp ho']
  named := by
    intro o ho _
    rw [List.mem_singleton.mp ho]
    exact ⟨by decide, Or.inr (by decide)⟩
  labelled := by
    intro o ho hkind
    rw [List.mem_singleton.mp ho] at hkind
    cases hkind
  apart := by
    intro id hid
    cases hid

-- Beside the namespace that a dead run left, one of a run in flight.
def inFlight : List Input := [.writeLease ['r'] ['u'] 60, .create .namespaces ['n'] ['r'] ['u'] none]

theorem leftover_deleted_in_flight_kept
    : ∃ w₀ w w' o, Run.exec World.step (.start oneLeftover plainCleanup) inFlight = .ok w₀ ∧
        Run.exec World.step w₀ (.list .ok :: (listSyncsOk ++ listRestOk)) = .ok w ∧
        w.delete .removed = .ok w' ∧ leftover ∉ w'.cluster.objects ∧
        o.runId = some ['r'] ∧ o ∈ w.cluster.objects ∧ o ∈ w'.cluster.objects := by
  refine ⟨_, _, _, ⟨.namespaces, ['n'], 1, some ['r'], some ['u'], true, false, none, false, none⟩,
    rfl, rfl, rfl, by decide, rfl, List.mem_cons_of_mem _ List.mem_cons_self, ?_⟩
  have hspared := @reclaim_spares_in_flight _ oneLeftover_wellFormed plainCleanup rfl inFlight
    (listSyncsOk ++ listRestOk) _ _ _ .removed rfl rfl rfl rfl
  refine hspared.1 _ (List.mem_cons_of_mem _ List.mem_cons_self) ['r'] rfl rfl rfl ?_ ?_
  . intro home h
    cases h
  . intro h
    cases h

def unlisted : List Input :=
  [.writeLease ['r'] ['u'] 60, .create .namespaces ['n'] ['r'] ['u'] none, .list .failed] ++
    listSyncsOk ++ listRestOk

-- A run that starts between the list of the leases and the list of the namespaces.
def startedBetween : List Input :=
  [.list .ok, .writeLease ['r'] ['u'] 60, .create .namespaces ['n'] ['r'] ['u'] none] ++
    listSyncsOk ++ listRestOk

-- The build pod of a settled build gives way to one of a run in flight.
def rebuilt : List Input :=
  [.writeLease ['r'] ['u'] 60, .create (.pods .build) buildPod ['r'] ['u'] (some .running),
    .setPhase .build buildPod .succeeded, .list .ok] ++ listSyncsOk ++ listRestOk ++
    [.remove (.pods .build) buildPod, .create (.pods .build) buildPod ['r'] ['u'] (some .running)]

-- A sync whose driver pod comes after the list of the driver pods.
def launching : List Input :=
  [.writeLease (syncLeaseId ['a']) ['u'] 60, .launch .namespaces ['a'] ['u'] none, .list .ok] ++
    listSyncsOk ++ listRestOk ++ [.launch (.pods .sync) ['a'] ['u'] (some .running), .delete .removed]

-- The next delete takes an object that is not settled from a run with a live lease.
def DeletesInFlight (inputs : List Input) : Prop :=
  ∃ w w' o run, Run.exec World.step (.start emptyCluster plainCleanup) inputs = .ok w ∧
    w.delete .removed = .ok w' ∧ o ∈ w.cluster.objects ∧ o.runId = some run ∧
    w.cluster.live run = true ∧ o.settled = false ∧ o ∉ w'.cluster.objects

theorem cleanup_deletes_in_flight
    : DeletesInFlight unlisted ∧ DeletesInFlight startedBetween ∧ DeletesInFlight rebuilt ∧
        DeletesInFlight launching := by
  refine ⟨?_, ?_, ?_, ?_⟩
  . exact ⟨_, _, _, _, rfl, rfl, List.mem_singleton.mpr rfl, rfl, rfl, rfl, List.not_mem_nil⟩
  . exact ⟨_, _, _, _, rfl, rfl, List.mem_singleton.mpr rfl, rfl, rfl, rfl, List.not_mem_nil⟩
  . exact ⟨_, _, _, _, rfl, rfl, List.mem_singleton.mpr rfl, rfl, rfl, rfl, List.not_mem_nil⟩
  . exact ⟨_, _, _, _, rfl, rfl, List.mem_singleton.mpr rfl, rfl, rfl, rfl, List.not_mem_nil⟩

end Reclaim
