import Mathlib.Data.List.Induction
import Mathlib.Data.List.Permutation
import Ztest.Lib.Sums
import Ztest.Pipeline.Cluster.Impl

namespace Pipeline

open Qos

section Charged

variable {pods pods' : List Pod} {pvcs pvcs' : List Pvc} {name : String} {d : Dim}

theorem byName_eq (pvcs : List Pvc) (name : String)
    : byName pvcs name = (pvcs.filter fun p => p.name = some name).getLast? := by
  unfold byName
  induction pvcs using List.reverseRecOn with
  | nil => rfl
  | append_singleton pvcs p ih =>
    rw [List.foldl_append, List.foldl_cons, List.foldl_nil, List.filter_append]
    cases hname : p.name with
    | none => simp [hname, ih]
    | some other =>
      by_cases heq : other = name
      . subst heq
        simp [hname]
      . simp [hname, heq, Function.update_of_ne (Ne.symm heq), ih]

-- The namespaces and claims that the pods which hold capacity mount, one for each volume.
def mountsOf (pod : Pod) : List (String × String) :=
  match pod.spec with
  | none => []
  | some _ => (pod.volumes.filterMap id).map fun claim => (pod.ns, claim)

def mounts (pods : List Pod) : List (String × String) :=
  (pods.filter fun p => podHoldsCapacity p.toPod).flatMap mountsOf

def requested (pods : List Pod) (d : Dim) : Nat :=
  ((pods.filter fun p => podHoldsCapacity p.toPod).map fun p => (podFootprint p.toPod).amt d).sum

def charge (pvc : Option Pvc) (d : Dim) : Nat := (pvc.map fun p => (pvcReservation p).amt d).getD 0

-- What is charged, before it is cut off at the largest `u64`.
def charged (pods : List Pod) (pvcs : List Pvc) (d : Dim) : Nat :=
  requested pods d + ((mounts pods).map fun m => charge (byName pvcs m.2) d).sum

theorem amt_podVolumeReservation (pod : Pod) (named : String → Option Pvc)
    : (podVolumeReservation pod named).amt d =
      min ((mountsOf pod).map fun m => charge (named m.2) d).sum (2 ^ 64 - 1) := by
  unfold podVolumeReservation mountsOf
  cases pod.spec with
  | none => simp
  | some spec =>
    have hsum : ∀ claims : List String,
        ((claims.filterMap named).map fun p => (pvcReservation p).amt d).sum =
          (claims.map fun claim => charge (named claim) d).sum := by
      intro claims
      induction claims with
      | nil => rfl
      | cons claim claims ih =>
        rw [List.filterMap_cons, List.map_cons, List.sum_cons, ← ih]
        cases named claim with
        | none => simp [charge]
        | some p => simp [charge]
    dsimp only
    rw [Resources.amt_foldl_saturatingAdd, Resources.amt_zero, Nat.zero_add, hsum, List.map_map]
    rfl

theorem amt_clusterReserved : (clusterReserved pods pvcs).amt d = min (charged pods pvcs d) (2 ^ 64 - 1) := by
  have hfold : ∀ (holding : List Pod) (acc : Resources),
      (holding.foldl
        (fun acc pod => (acc.saturatingAdd (podFootprint pod.toPod)).saturatingAdd
          (podVolumeReservation pod (byName pvcs))) acc).amt d =
        min (acc.amt d + (holding.map fun p => (podFootprint p.toPod).amt d).sum +
          ((holding.flatMap mountsOf).map fun m => charge (byName pvcs m.2) d).sum) (2 ^ 64 - 1) := by
    intro holding
    induction holding with
    | nil =>
      intro acc
      have := acc.amt_le d
      simp only [List.foldl_nil, List.map_nil, List.flatMap_nil, List.sum_nil]
      omega
    | cons pod holding ih =>
      intro acc
      rw [List.foldl_cons, ih, Resources.amt_saturatingAdd, Resources.amt_saturatingAdd, amt_podVolumeReservation,
        List.map_cons, List.sum_cons, List.flatMap_cons, List.map_append, List.sum_append]
      omega
  unfold clusterReserved charged requested mounts
  rw [hfold, Resources.amt_zero, Nat.zero_add]

theorem charged_perm (h : pods'.Perm pods) : charged pods' pvcs d = charged pods pvcs d := by
  have hholding := h.filter fun p => podHoldsCapacity p.toPod
  unfold charged requested mounts
  rw [(hholding.map _).sum_eq, ((hholding.flatMap_right mountsOf).map _).sum_eq]

end Charged

def ownPvc (pvcs : List Pvc) (m : String × String) : Option Pvc :=
  pvcs.find? fun p => decide (p.ns = m.1 ∧ p.name = some m.2)

def owed (pods : List Pod) (pvcs : List Pvc) (d : Dim) : Nat :=
  requested pods d + ((mounts pods).dedup.map fun m => charge (ownPvc pvcs m) d).sum

structure Joined (pods : List Pod) (pvcs : List Pvc) : Prop where
  exact : ∀ d, (clusterReserved pods pvcs).amt d = owed pods pvcs d
  anyOrder : ∀ pods' pvcs', pods'.Perm pods → pvcs'.Perm pvcs → clusterReserved pods' pvcs' = clusterReserved pods pvcs

-- The claims of one name that a pod mounts reserve the same, and if that is anything, the mount is the only
-- one of a claim in its own namespace.
structure Plain (pods : List Pod) (pvcs : List Pvc) : Prop where
  alike : ∀ m ∈ mounts pods, ∀ p ∈ pvcs, ∀ p' ∈ pvcs, p.name = some m.2 → p'.name = some m.2 →
    pvcReservation p = pvcReservation p'
  once : ∀ m ∈ mounts pods, ∀ p ∈ pvcs, p.name = some m.2 → pvcReservation p ≠ .zero →
    (∃ p' ∈ pvcs, p'.ns = m.1 ∧ p'.name = some m.2) ∧ (mounts pods).count m = 1

def Unsaturated (pods : List Pod) (pvcs : List Pvc) : Prop :=
  ∀ pvcs' : List Pvc, pvcs'.Perm pvcs → ∀ d, charged pods pvcs' d < 2 ^ 64

section Join

variable {pods pods' : List Pod} {pvcs pvcs' : List Pvc} {name : String} {d : Dim} {m : String × String} {p : Pvc}

theorem mem_of_byName (h : byName pvcs name = some p) : p ∈ pvcs ∧ p.name = some name := by
  rw [byName_eq] at h
  simpa using List.mem_filter.mp (List.mem_of_getLast? h)

theorem mem_of_ownPvc (h : ownPvc pvcs m = some p) : p ∈ pvcs ∧ p.ns = m.1 ∧ p.name = some m.2 := by
  have hkey := List.find?_some h
  simp only [decide_eq_true_eq] at hkey
  exact ⟨List.mem_of_find?_eq_some h, hkey⟩

theorem byName_isSome (hp : p ∈ pvcs) (hname : p.name = some name) : ∃ p', byName pvcs name = some p' := by
  rw [byName_eq]
  cases hlast : (pvcs.filter fun p => p.name = some name).getLast? with
  | some p' => exact ⟨p', rfl⟩
  | none =>
    rw [List.getLast?_eq_none_iff] at hlast
    have hmem : p ∈ pvcs.filter fun p => p.name = some name := List.mem_filter.mpr ⟨hp, by simpa using hname⟩
    rw [hlast] at hmem
    cases hmem

theorem byName_last (hname : p.name = some name) (other : String)
    : byName (pvcs.erase p ++ [p]) other = if other = name then some p else byName pvcs other := by
  rw [byName_eq, List.filter_append]
  split_ifs with hother
  . subst hother
    simp [hname]
  . rw [byName_eq]
    have hne : ¬p.name = some other := by
      rw [hname]
      simpa using Ne.symm hother
    simp only [List.filter_cons, List.filter_nil, hne, decide_false, Bool.false_eq_true, if_false, List.append_nil]
    rw [← List.erase_filter, List.erase_of_not_mem]
    intro hmem
    exact hne (by simpa using (List.mem_filter.mp hmem).2)

theorem charged_eq (hjoined : Joined pods pvcs) (hbelow : Unsaturated pods pvcs) (hperm : pvcs'.Perm pvcs)
    : charged pods pvcs' d = owed pods pvcs d := by
  have hsame := hjoined.anyOrder pods pvcs' (List.Perm.refl _) hperm
  have hexact := hjoined.exact d
  have hlt := hbelow pvcs' hperm d
  rw [← hsame, amt_clusterReserved] at hexact
  omega

theorem alike_of_joined (hjoined : Joined pods pvcs) (hbelow : Unsaturated pods pvcs) (hm : m ∈ mounts pods)
    {p p' : Pvc} (hp : p ∈ pvcs) (hp' : p' ∈ pvcs) (hname : p.name = some m.2) (hname' : p'.name = some m.2)
    : pvcReservation p = pvcReservation p' := by
  have hlast : ∀ {p : Pvc}, p ∈ pvcs → (pvcs.erase p ++ [p]).Perm pvcs := fun hp =>
    List.perm_append_comm.trans (List.perm_cons_erase hp).symm
  apply Resources.ext_amt
  intro d
  have hsum := (charged_eq (d := d) hjoined hbelow (hlast hp)).trans (charged_eq hjoined hbelow (hlast hp')).symm
  unfold charged at hsum
  apply Sums.eq_of_sum_map_eq (p := fun n : String × String => n.2 = m.2) (l := mounts pods) _ _ ⟨m, hm, rfl⟩
    (Nat.add_left_cancel hsum)
  . intro n hn heq
    rw [byName_last hname, byName_last hname', if_pos heq, if_pos heq]
    exact ⟨rfl, rfl⟩
  . intro n hn hne
    rw [byName_last hname, byName_last hname', if_neg hne, if_neg hne]

theorem charge_byName (halike : ∀ p ∈ pvcs, ∀ p' ∈ pvcs, p.name = some name → p'.name = some name →
      pvcReservation p = pvcReservation p')
    (hp : p ∈ pvcs) (hname : p.name = some name)
    : charge (byName pvcs name) d = (pvcReservation p).amt d := by
  rcases byName_isSome hp hname with ⟨p', hp'⟩
  have hmem := mem_of_byName hp'
  rw [hp', charge, Option.map_some, Option.getD_some, halike p' hmem.1 p hp hmem.2 hname]

theorem charge_own_le (halike : ∀ p ∈ pvcs, ∀ p' ∈ pvcs, p.name = some m.2 → p'.name = some m.2 →
      pvcReservation p = pvcReservation p')
    : charge (ownPvc pvcs m) d ≤ charge (byName pvcs m.2) d := by
  cases hown : ownPvc pvcs m with
  | none => exact Nat.zero_le _
  | some p =>
    have hmem := mem_of_ownPvc hown
    rw [charge_byName halike hmem.1 hmem.2.2]
    exact le_refl _

theorem once_of_joined (hjoined : Joined pods pvcs) (hbelow : Unsaturated pods pvcs) (hm : m ∈ mounts pods)
    (hp : p ∈ pvcs) (hname : p.name = some m.2) (hne : pvcReservation p ≠ .zero)
    : (∃ p' ∈ pvcs, p'.ns = m.1 ∧ p'.name = some m.2) ∧ (mounts pods).count m = 1 := by
  have halike : ∀ n ∈ mounts pods, ∀ p ∈ pvcs, ∀ p' ∈ pvcs, p.name = some n.2 → p'.name = some n.2 →
      pvcReservation p = pvcReservation p' := fun n hn p hp p' hp' => alike_of_joined hjoined hbelow hn hp hp'
  have hdim : ∃ d, (pvcReservation p).amt d ≠ 0 := by
    by_contra hall
    push Not at hall
    exact hne (Resources.eq_zero_iff.mpr hall)
  rcases hdim with ⟨d, hd⟩
  have hsum := charged_eq (d := d) hjoined hbelow (List.Perm.refl pvcs)
  have hparts := (Sums.sum_map_eq_sum_dedup_iff fun n hn => charge_own_le (d := d) (halike n hn)).mp
    (Nat.add_left_cancel hsum) m hm
  rw [charge_byName (halike m hm) hp hname] at hparts
  have hcount : 0 < (mounts pods).count m := List.count_pos_iff.mpr hm
  cases hown : ownPvc pvcs m with
  | none =>
    rw [hown] at hparts
    have hzero : 0 = (mounts pods).count m * (pvcReservation p).amt d := hparts
    rcases Nat.mul_eq_zero.mp hzero.symm with hc | hr
    . omega
    . exact absurd hr hd
  | some p' =>
    have hmem := mem_of_ownPvc hown
    refine ⟨⟨p', hmem⟩, ?_⟩
    rw [hown, charge, Option.map_some, Option.getD_some, halike m hm p' hmem.1 p hp hmem.2.2 hname] at hparts
    exact (Nat.eq_of_mul_eq_mul_right (Nat.pos_of_ne_zero hd) ((Nat.one_mul _).trans hparts)).symm

theorem charged_of_plain (hplain : Plain pods pvcs) : charged pods pvcs d = owed pods pvcs d := by
  unfold charged owed
  congr 1
  apply (Sums.sum_map_eq_sum_dedup_iff fun n hn => charge_own_le (hplain.alike n hn)).mpr
  intro m hm
  cases hnamed : byName pvcs m.2 with
  | none =>
    have hle := @charge_own_le pvcs d m (hplain.alike m hm)
    rw [hnamed] at hle
    rw [Nat.le_zero.mp hle]
    exact (Nat.mul_zero _).symm
  | some p =>
    have hp := mem_of_byName hnamed
    have hcharge : charge (some p) d = (pvcReservation p).amt d := rfl
    rw [hcharge]
    by_cases hzero : pvcReservation p = .zero
    . have hle := @charge_own_le pvcs d m (hplain.alike m hm)
      rw [hnamed, hcharge, hzero, Resources.amt_zero] at hle
      rw [hzero, Resources.amt_zero, Nat.mul_zero]
      exact Nat.le_zero.mp hle
    . rcases hplain.once m hm p hp.1 hp.2 hzero with ⟨⟨p', hp', hkey⟩, hcount⟩
      rw [hcount, Nat.one_mul]
      cases hown : ownPvc pvcs m with
      | none =>
        have hnone := List.find?_eq_none.mp hown p' hp'
        exact absurd (by simpa using hkey) hnone
      | some q =>
        have hq := mem_of_ownPvc hown
        rw [charge, Option.map_some, Option.getD_some, hplain.alike m hm q hq.1 p hp.1 hq.2.2 hp.2]

end Join

theorem joined_iff (pods : List Pod) (pvcs : List Pvc) (hbelow : Unsaturated pods pvcs)
    : Joined pods pvcs ↔ Plain pods pvcs := by
  constructor
  . intro hjoined
    exact ⟨fun m hm p hp p' hp' => alike_of_joined hjoined hbelow hm hp hp',
      fun m hm p hp => once_of_joined hjoined hbelow hm hp⟩
  . intro hplain
    refine ⟨fun d => ?_, fun pods' pvcs' hpods hpvcs => ?_⟩
    . have hlt := hbelow pvcs (List.Perm.refl _) d
      have heq := charged_of_plain (d := d) hplain
      rw [amt_clusterReserved]
      omega
    . apply Resources.ext_amt
      intro d
      rw [amt_clusterReserved, amt_clusterReserved, charged_perm hpods]
      have hsame : ∀ m ∈ mounts pods, charge (byName pvcs' m.2) d = charge (byName pvcs m.2) d := by
        intro m hm
        cases hnamed : byName pvcs' m.2 with
        | some p =>
          have hp := mem_of_byName hnamed
          exact (charge_byName (hplain.alike m hm) (hpvcs.mem_iff.mp hp.1) hp.2).symm
        | none =>
          cases hnamed' : byName pvcs m.2 with
          | none => rfl
          | some p =>
            have hp := mem_of_byName hnamed'
            rcases byName_isSome (hpvcs.mem_iff.mpr hp.1) hp.2 with ⟨p', hp'⟩
            rw [hnamed] at hp'
            cases hp'
      unfold charged
      rw [List.map_congr_left hsame]

-- A pod without containers that mounts `data` in its namespace, and a claim of that name.
def mounting (ns : String) : Pod where
  runId := none
  phase := some .running
  spec := some ⟨[], []⟩
  ns := ns
  volumes := [some "data"]

def dataClaim (ns storage : String) : Pvc where
  ns := ns
  name := some "data"
  annotations := []
  storage := some storage

theorem neighbour_charged : ¬Joined [mounting "a"] [dataClaim "a" "5", dataClaim "b" "7"] := by
  intro h
  have hexact := h.exact .diskBytes
  revert hexact
  decide

-- Two namespaces with a claim of the same name and size each.
theorem neighbours_joined : Joined [mounting "a", mounting "b"] [dataClaim "a" "5", dataClaim "b" "5"] := by
  apply (joined_iff _ _ _).mpr
  . constructor
    . intro m _ p hp p' hp' _ _
      rcases List.mem_pair.mp hp with rfl | rfl <;> rcases List.mem_pair.mp hp' with rfl | rfl <;> rfl
    . intro m hm p _ _ _
      have hm' : m = ("a", "data") ∨ m = ("b", "data") := List.mem_pair.mp hm
      rcases hm' with rfl | rfl
      . exact ⟨⟨_, List.mem_cons_self, rfl, rfl⟩, by decide⟩
      . exact ⟨⟨_, List.mem_cons_of_mem _ (List.mem_singleton_self _), rfl, rfl⟩, by decide⟩
  . intro pvcs' hperm d
    have hmem : pvcs' ∈ [[dataClaim "a" "5", dataClaim "b" "5"], [dataClaim "b" "5", dataClaim "a" "5"]] :=
      List.mem_permutations'.mpr hperm
    rcases List.mem_pair.mp hmem with rfl | rfl <;> cases d <;> decide

end Pipeline
