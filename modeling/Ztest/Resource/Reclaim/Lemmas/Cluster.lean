import Ztest.Resource.Reclaim.Impl

namespace Reclaim

open Run (guarded_ok)

/--
What an object keeps for as long as it exists.
-/
structure Same (o o' : Object) : Prop where
  place : o.place = o'.place
  name : o.name = o'.name
  uid : o.uid = o'.uid
  runId : o.runId = o'.runId
  kind : o.kind = o'.kind
  syncId : o.syncId = o'.syncId
  settled : o.settled = true → o'.settled = true

theorem Same.refl (o : Object) : Same o o := ⟨rfl, rfl, rfl, rfl, rfl, rfl, id⟩

theorem Same.trans {a b c : Object} (hab : Same a b) (hbc : Same b c) : Same a c where
  place := hab.place.trans hbc.place
  name := hab.name.trans hbc.name
  uid := hab.uid.trans hbc.uid
  runId := hab.runId.trans hbc.runId
  kind := hab.kind.trans hbc.kind
  syncId := hab.syncId.trans hbc.syncId
  settled h := hbc.settled (hab.settled h)

/--
`c'` is the cluster `c` some steps later: an object of `c'` was there in `c`, or it is new and has a
name that nothing in `c` ever had, the build pod apart.
-/
structure Later (c c' : Cluster) : Prop where
  nextUid : c.nextUid ≤ c'.nextUid
  drawn : ∀ name ∈ c.drawn, name ∈ c'.drawn
  syncs : ∀ id ∈ c.syncs, id ∈ c'.syncs
  objects : ∀ o' ∈ c'.objects,
    (∃ o ∈ c.objects, Same o o') ∨
      (c.nextUid ≤ o'.uid ∧ (o'.kind = false → o'.place = .pods .build ∨ o'.name ∉ c.drawn))

theorem Later.refl (c : Cluster) : Later c c where
  nextUid := Nat.le_refl _
  drawn _ h := h
  syncs _ h := h
  objects o h := Or.inl ⟨o, h, .refl o⟩

theorem Later.trans {a b c : Cluster} (hab : Later a b) (hbc : Later b c) : Later a c where
  nextUid := Nat.le_trans hab.nextUid hbc.nextUid
  drawn name h := hbc.drawn name (hab.drawn name h)
  syncs id h := hbc.syncs id (hab.syncs id h)
  objects := by
    intro o'' ho''
    rcases hbc.objects o'' ho'' with ⟨o', ho', hsame'⟩ | ⟨huid, hname⟩
    . rcases hab.objects o' ho' with ⟨o, ho, hsame⟩ | ⟨huid, hname⟩
      . exact Or.inl ⟨o, ho, hsame.trans hsame'⟩
      . rw [hsame'.uid] at huid
        rw [hsame'.kind, hsame'.place, hsame'.name] at hname
        exact Or.inr ⟨huid, hname⟩
    . refine Or.inr ⟨Nat.le_trans hab.nextUid huid, ?_⟩
      intro hkind
      rcases hname hkind with hplace | hnew
      . exact Or.inl hplace
      . exact Or.inr fun hmem => hnew (hab.drawn _ hmem)

/--
The objects of `ztest` as the API server and the manifests keep them: one object of a name in each
place, sync objects named after their sync id, every other name drawn once, the build pod apart.
-/
structure WellFormed (c : Cluster) : Prop where
  unique : ∀ o ∈ c.objects, ∀ o' ∈ c.objects, o.place = o'.place → o.name = o'.name → o = o'
  named : ∀ o ∈ c.objects, o.kind = false →
    o.place ≠ .pods .sync ∧ (o.place = .pods .build ∨ o.name ∈ c.drawn)
  labelled : ∀ o ∈ c.objects, o.kind = true → ∃ id ∈ c.syncs,
    o.syncId = some id ∧ o.name = Cluster.syncName o.place id ∧
      (o.place = .namespaces ∨ o.place = .pods .sync ∨ o.place = .records)
  apart : ∀ id ∈ c.syncs, driverPodFor id ∉ c.drawn

theorem Object.at_iff {o : Object} {place : Place} {name : Text}
    : o.at place name = true ↔ o.place = place ∧ o.name = name := by
  simp [Object.at]

theorem Cluster.taken_eq_false {c : Cluster} {place : Place} {name : Text}
    (h : c.taken place name = false)
    : ∀ o ∈ c.objects, ¬(o.place = place ∧ o.name = name) := by
  intro o ho hat
  have := List.any_eq_false.mp h o ho
  exact this (Object.at_iff.mpr hat)

section Map

variable {c : Cluster} {g : Object → Object} (hg : ∀ o, Same o (g o))
include hg

theorem Later.map : Later c { c with objects := c.objects.map g } where
  nextUid := Nat.le_refl _
  drawn _ h := h
  syncs _ h := h
  objects := by
    intro o' ho'
    rcases List.mem_map.mp ho' with ⟨o, ho, rfl⟩
    exact Or.inl ⟨o, ho, hg o⟩

theorem WellFormed.map (hc : WellFormed c) : WellFormed { c with objects := c.objects.map g } where
  unique := by
    intro o₁ h₁ o₂ h₂ hplace hname
    rcases List.mem_map.mp h₁ with ⟨o, ho, rfl⟩
    rcases List.mem_map.mp h₂ with ⟨o', ho', rfl⟩
    rw [← (hg o).place, ← (hg o').place] at hplace
    rw [← (hg o).name, ← (hg o').name] at hname
    rw [hc.unique o ho o' ho' hplace hname]
  named := by
    intro o' ho' hkind
    rcases List.mem_map.mp ho' with ⟨o, ho, rfl⟩
    rw [← (hg o).kind] at hkind
    rw [← (hg o).place, ← (hg o).name]
    exact hc.named o ho hkind
  labelled := by
    intro o' ho' hkind
    rcases List.mem_map.mp ho' with ⟨o, ho, rfl⟩
    rw [← (hg o).kind] at hkind
    rw [← (hg o).place, ← (hg o).name, ← (hg o).syncId]
    exact hc.labelled o ho hkind
  apart := hc.apart

end Map

theorem same_mark (o : Object) : Same o { o with deleting := true } := ⟨rfl, rfl, rfl, rfl, rfl, rfl, id⟩

theorem same_setPhase (o : Object) (phase : Qos.PodPhase)
    : Same o (if o.settled then o else { o with phase := some phase }) := by
  split
  . exact .refl o
  . next h => exact ⟨rfl, rfl, rfl, rfl, rfl, rfl, fun hs => absurd hs h⟩

section Update

variable {f : Object → Object} (hf : ∀ o, Same o (f o)) (place : Place) (name : Text)
include hf

theorem same_update (o : Object) : Same o (if o.at place name then f o else o) := by
  split
  . exact hf o
  . exact .refl o

theorem Later.update (c : Cluster) : Later c (c.update place name f) := .map (same_update hf place name)

theorem WellFormed.update {c : Cluster} (hc : WellFormed c) : WellFormed (c.update place name f) :=
  hc.map (same_update hf place name)

end Update

theorem Later.remove (c : Cluster) (place : Place) (name : Text) : Later c (c.remove place name) where
  nextUid := Nat.le_refl _
  drawn _ h := h
  syncs _ h := h
  objects o ho := Or.inl ⟨o, (List.mem_filter.mp ho).1, .refl o⟩

theorem WellFormed.remove {c : Cluster} (hc : WellFormed c) (place : Place) (name : Text)
    : WellFormed (c.remove place name) where
  unique o ho o' ho' := hc.unique o (List.mem_filter.mp ho).1 o' (List.mem_filter.mp ho').1
  named o ho := hc.named o (List.mem_filter.mp ho).1
  labelled o ho := hc.labelled o (List.mem_filter.mp ho).1
  apart := hc.apart

theorem Later.of_objects {c c' : Cluster} (huid : c'.nextUid = c.nextUid) (hdrawn : c'.drawn = c.drawn)
    (hsyncs : c'.syncs = c.syncs) (hobjects : c'.objects = c.objects)
    : Later c c' where
  nextUid := Nat.le_of_eq huid.symm
  drawn _ h := hdrawn ▸ h
  syncs _ h := hsyncs ▸ h
  objects o h := Or.inl ⟨o, hobjects ▸ h, .refl o⟩

theorem WellFormed.of_objects {c c' : Cluster} (hc : WellFormed c) (hdrawn : c'.drawn = c.drawn)
    (hsyncs : c'.syncs = c.syncs) (hobjects : c'.objects = c.objects)
    : WellFormed c' := by
  constructor
  . rw [hobjects]
    exact hc.unique
  . rw [hobjects, hdrawn]
    exact hc.named
  . rw [hobjects, hsyncs]
    exact hc.labelled
  . rw [hsyncs, hdrawn]
    exact hc.apart

theorem unique_append {objects : List Object} {new : Object}
    (hunique : ∀ o ∈ objects, ∀ o' ∈ objects, o.place = o'.place → o.name = o'.name → o = o')
    (hnew : ∀ o ∈ objects, ¬(o.place = new.place ∧ o.name = new.name))
    : ∀ o ∈ objects ++ [new], ∀ o' ∈ objects ++ [new], o.place = o'.place → o.name = o'.name → o = o' := by
  intro o ho o' ho' hplace hname
  rw [List.mem_append, List.mem_singleton] at ho ho'
  rcases ho with ho | rfl
  . rcases ho' with ho' | rfl
    . exact hunique o ho o' ho' hplace hname
    . exact absurd ⟨hplace, hname⟩ (hnew o ho)
  . rcases ho' with ho' | rfl
    . exact absurd ⟨hplace.symm, hname.symm⟩ (hnew o' ho')
    . rfl

theorem Cluster.nameFor_spec {c : Cluster} {place : Place} {name : Text}
    (h : c.nameFor place name = true)
    : place ≠ .pods .sync ∧
        (place = .pods .build ∨ name ∉ c.drawn ∧ ∀ id ∈ c.syncs, driverPodFor id ≠ name) := by
  unfold Cluster.nameFor at h
  split at h
  . exact ⟨by simp, Or.inl rfl⟩
  . cases h
  . cases h
  . next hbuild hsync _ =>
    simp only [Bool.and_eq_true, Bool.not_eq_true', List.contains_eq_mem, decide_eq_false_iff_not,
      List.any_eq_false, decide_eq_true_eq] at h
    exact ⟨hsync, Or.inr h⟩

section Create

variable {c c' : Cluster} {place : Place} {name run user : Text} {phase : Option Qos.PodPhase}

theorem Later.create (h : c.create place name run user phase = .ok c') : Later c c' := by
  obtain ⟨hguard, rfl⟩ := guarded_ok h
  simp only [Bool.and_eq_true] at hguard
  have hname := (Cluster.nameFor_spec hguard.1.2).2
  constructor
  . exact Nat.le_succ _
  . intro n hn
    exact List.mem_cons_of_mem _ hn
  . intro id hid
    exact hid
  . intro o ho
    simp only [Cluster.add, List.mem_append, List.mem_singleton] at ho
    rcases ho with ho | rfl
    . exact Or.inl ⟨o, ho, .refl o⟩
    . exact Or.inr ⟨Nat.le_refl _, fun _ => hname.imp_right And.left⟩

theorem WellFormed.create (hc : WellFormed c) (h : c.create place name run user phase = .ok c')
    : WellFormed c' := by
  obtain ⟨hguard, rfl⟩ := guarded_ok h
  simp only [Bool.and_eq_true, Bool.not_eq_true'] at hguard
  obtain ⟨⟨_, hfor⟩, htaken⟩ := hguard
  obtain ⟨hsync, hname⟩ := Cluster.nameFor_spec hfor
  constructor
  . exact unique_append hc.unique (Cluster.taken_eq_false htaken)
  . intro o ho hkind
    simp only [Cluster.add, List.mem_append, List.mem_singleton] at ho
    rcases ho with ho | rfl
    . exact ⟨(hc.named o ho hkind).1, (hc.named o ho hkind).2.imp_right (List.mem_cons_of_mem _)⟩
    . exact ⟨hsync, Or.inr List.mem_cons_self⟩
  . intro o ho hkind
    simp only [Cluster.add, List.mem_append, List.mem_singleton] at ho
    rcases ho with ho | rfl
    . exact hc.labelled o ho hkind
    . cases hkind
  . intro id hid hmem
    rcases List.mem_cons.mp hmem with heq | hmem
    . rcases hname with rfl | ⟨_, hne⟩
      . have hbuild : name = buildPod := by simpa [Cluster.nameFor] using hfor
        rw [hbuild] at heq
        simp [driverPodFor, buildPod] at heq
      . exact hne id hid heq
    . exact hc.apart id hid hmem

end Create

section Launch

variable {c c' : Cluster} {place : Place} {syncId user : Text} {phase : Option Qos.PodPhase}

theorem Later.launch (h : c.launch place syncId user phase = .ok c') : Later c c' := by
  obtain ⟨_, rfl⟩ := guarded_ok h
  constructor
  . exact Nat.le_succ _
  . intro n hn
    exact hn
  . intro id hid
    exact List.mem_cons_of_mem _ hid
  . intro o ho
    simp only [Cluster.add, List.mem_append, List.mem_singleton] at ho
    rcases ho with ho | rfl
    . exact Or.inl ⟨o, ho, .refl o⟩
    . refine Or.inr ⟨Nat.le_refl _, ?_⟩
      intro hkind
      cases hkind

theorem WellFormed.launch (hc : WellFormed c) (h : c.launch place syncId user phase = .ok c')
    : WellFormed c' := by
  obtain ⟨hguard, rfl⟩ := guarded_ok h
  simp only [Bool.and_eq_true, Bool.or_eq_true, Bool.not_eq_true', decide_eq_true_eq,
    List.contains_eq_mem, decide_eq_false_iff_not] at hguard
  obtain ⟨⟨⟨hplace, _⟩, hapart⟩, htaken⟩ := hguard
  constructor
  . exact unique_append hc.unique (Cluster.taken_eq_false htaken)
  . intro o ho hkind
    simp only [Cluster.add, List.mem_append, List.mem_singleton] at ho
    rcases ho with ho | rfl
    . exact hc.named o ho hkind
    . cases hkind
  . intro o ho hkind
    simp only [Cluster.add, List.mem_append, List.mem_singleton] at ho
    rcases ho with ho | rfl
    . obtain ⟨id, hid, hrest⟩ := hc.labelled o ho hkind
      exact ⟨id, List.mem_cons_of_mem _ hid, hrest⟩
    . exact ⟨syncId, List.mem_cons_self, rfl, rfl, or_assoc.mp hplace⟩
  . intro id hid
    rcases List.mem_cons.mp hid with rfl | hid
    . rcases hapart with hold | hnew
      . exact hc.apart id hold
      . exact hnew
    . exact hc.apart id hid

end Launch

theorem Cluster.act_spec {c c' : Cluster} {input : Input} (hc : WellFormed c) (h : c.act input = .ok c')
    : Later c c' ∧ WellFormed c' := by
  cases input with
  | tick seconds =>
    obtain ⟨_, rfl⟩ := guarded_ok h
    exact ⟨.of_objects rfl rfl rfl rfl, hc.of_objects rfl rfl rfl⟩
  | writeLease run user duration =>
    cases h
    exact ⟨.of_objects rfl rfl rfl rfl, hc.of_objects rfl rfl rfl⟩
  | releaseLease run =>
    obtain ⟨_, rfl⟩ := guarded_ok h
    exact ⟨.of_objects rfl rfl rfl rfl, hc.of_objects rfl rfl rfl⟩
  | create place name run user phase => exact ⟨.create h, hc.create h⟩
  | launch place syncId user phase => exact ⟨.launch h, hc.launch h⟩
  | setPhase home name phase =>
    cases h
    have hf := fun o => same_setPhase o phase
    exact ⟨.update hf _ _ c, hc.update hf _ _⟩
  | remove place name =>
    cases h
    exact ⟨.remove c place name, hc.remove place name⟩
  | mark place name =>
    cases h
    exact ⟨.update same_mark _ _ c, hc.update same_mark _ _⟩
  | list answer => cases h
  | delete reply => cases h

/--
A delete request changes nothing but the object it names.
-/
theorem deleteOne_spec {c : Cluster} (hc : WellFormed c) (place : Place) (name : Text) (reply : Reply)
    : Later c (deleteOne c place name reply).1 ∧ WellFormed (deleteOne c place name reply).1 ∧
        ∀ o ∈ c.objects, ¬(o.place = place ∧ o.name = name) →
          o ∈ (deleteOne c place name reply).1.objects := by
  cases reply with
  | failed => exact ⟨.refl c, hc, fun o ho _ => ho⟩
  | removed =>
    refine ⟨.remove c place name, hc.remove place name, ?_⟩
    intro o ho hne
    have hat : o.at place name = false := by rwa [Bool.eq_false_iff, ne_eq, Object.at_iff]
    exact List.mem_filter.mpr ⟨ho, by simp [hat]⟩
  | queued =>
    unfold deleteOne
    cases htaken : c.taken place name with
    | false => exact ⟨.refl c, hc, fun o ho _ => ho⟩
    | true =>
      refine ⟨.update same_mark _ _ c, hc.update same_mark _ _, ?_⟩
      intro o ho hne
      have hat : o.at place name = false := by rwa [Bool.eq_false_iff, ne_eq, Object.at_iff]
      exact List.mem_map.mpr ⟨o, ho, by simp [hat]⟩

theorem deleteLease_spec {c : Cluster} (hc : WellFormed c) (run : Text) (reply : Reply)
    : Later c (deleteLease c run reply).1 ∧ WellFormed (deleteLease c run reply).1 ∧
        (deleteLease c run reply).1.objects = c.objects := by
  cases reply with
  | failed => exact ⟨.refl c, hc, rfl⟩
  | removed => exact ⟨.of_objects rfl rfl rfl rfl, hc.of_objects rfl rfl rfl, rfl⟩
  | queued =>
    unfold deleteLease
    cases c.leases.any fun l => l.run = run with
    | false => exact ⟨.refl c, hc, rfl⟩
    | true => exact ⟨.of_objects rfl rfl rfl rfl, hc.of_objects rfl rfl rfl, rfl⟩

end Reclaim
