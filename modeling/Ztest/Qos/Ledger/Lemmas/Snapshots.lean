import Ztest.Qos.Ledger.Impl
import Ztest.Qos.Ledger.Fleet

namespace Qos
namespace Ledger

variable {leases : Listing} {pods : List Pod} {run : String}

theorem lookup_foldl_addPod (leases : Listing) (l : List Pod) (usage : Usage) (run : String)
    : (run ∈ leases.map (·.1) →
        (((l.foldl (Usage.addPod leases) usage).byRun.lookup run).getD .zero)
          =
        (l.filter (·.runId = some run)).foldl (fun acc p => acc.saturatingAdd (podFootprint p))
          ((usage.byRun.lookup run).getD .zero))
      ∧ (run ∉ leases.map (·.1) →
        (l.foldl (Usage.addPod leases) usage).byRun.lookup run = usage.byRun.lookup run) := by
  induction l generalizing usage with
  | nil => exact ⟨fun _ => rfl, fun _ => rfl⟩
  | cons p l ih =>
    obtain ⟨hin, hout⟩ := ih (usage.addPod leases p)
    rw [List.foldl_cons]
    constructor
    . intro hrun
      rw [hin hrun]
      unfold Usage.addPod leaseOf
      cases hp : p.runId with
      | none => simp [hp]
      | some other =>
        by_cases heq : other = run
        . subst heq
          simp [hp, Option.filter, hrun]
        . have hne : run ≠ other := fun h => heq h.symm
          by_cases hother : other ∈ leases.map (·.1)
          . simp [hp, Option.filter, hother, heq, AList.lookup_insert_ne hne]
          . simp [hp, Option.filter, hother, heq]
    . intro hrun
      rw [hout hrun]
      unfold Usage.addPod leaseOf
      cases hp : p.runId with
      | none => simp
      | some other =>
        by_cases hother : other ∈ leases.map (·.1)
        . have hne : run ≠ other := by
            intro h
            rw [h] at hrun
            exact hrun hother
          simp [Option.filter, hother, AList.lookup_insert_ne hne]
        . simp [Option.filter, hother]

theorem lookup_byRun {usage : Resources} (h : (splitUsage pods leases).byRun.lookup run = some usage)
    : run ∈ leases.map (·.1) ∧ usage = runUsage pods run := by
  obtain ⟨hin, hout⟩ := lookup_foldl_addPod leases (pods.filter podHoldsCapacity) ⟨.zero, ∅⟩ run
  unfold splitUsage at h
  by_cases hrun : run ∈ leases.map (·.1)
  . refine ⟨hrun, ?_⟩
    have := hin hrun
    rw [h] at this
    exact this
  . rw [hout hrun] at h
    cases h

theorem assertInvariant_ok
    (h : ∀ run ∈ leases.map (·.1), (runUsage pods run).fitsWithin (reservedOf leases run) = true)
    : assertInvariant leases pods = .ok () := by
  have hgo : ∀ l : List (Sigma fun _ : String => Resources),
      (∀ e ∈ l, e.2.fitsWithin (reservedOf leases e.1) = true) →
      assertInvariant.go leases l = .ok () := by
    intro l
    induction l with
    | nil =>
      intro _
      rfl
    | cons e l ih =>
      intro hl
      unfold assertInvariant.go
      rw [if_pos (hl e List.mem_cons_self)]
      exact ih fun e' he' => hl e' (List.mem_cons_of_mem _ he')
  unfold assertInvariant
  apply hgo
  intro e he
  rw [List.mem_insertionSort] at he
  obtain ⟨hrun, husage⟩ := lookup_byRun (AList.mem_lookup_iff.mpr he)
  rw [husage]
  exact h e.1 hrun

def holding (pods : List Pod) (run : String) : List Pod :=
  (pods.filter podHoldsCapacity).filter (·.runId = some run)

theorem amt_runUsage (pods : List Pod) (run : String) (d : Dim)
    : (runUsage pods run).amt d = min (footprints (holding pods run) d) (2 ^ 64 - 1) := by
  unfold runUsage
  rw [Resources.amt_foldl_saturatingAdd]
  simp [footprints, holding]

theorem fitsWithin_of_sublist {pods' : List Pod} {cap : Resources}
    (h : (holding pods' run).Sublist (holding pods run))
    (hfits : (runUsage pods run).fitsWithin cap = true)
    : (runUsage pods' run).fitsWithin cap = true := by
  rw [Resources.fitsWithin_iff] at hfits ⊢
  intro d
  have hd := hfits d
  have hle := footprints_le_of_sublist h d
  rw [amt_runUsage] at hd ⊢
  omega

theorem holding_erase (pods : List Pod) (pod : Pod) (run : String)
    : (holding (pods.erase pod) run).Sublist (holding pods run) := by
  unfold holding
  exact ((List.erase_sublist).filter _).filter _

theorem holding_replace (pods : List Pod) (pod settled : Pod) (run : String)
    (hsettled : podHoldsCapacity settled = false)
    : (holding (pods.replace pod settled) run).Sublist (holding pods run) := by
  unfold holding
  apply List.Sublist.filter
  induction pods with
  | nil => exact List.Sublist.refl _
  | cons p pods ih =>
    rw [List.replace_cons]
    split
    . rw [List.filter_cons_of_neg (by simp [hsettled])]
      exact (List.sublist_cons_self p pods).filter _
    . rw [List.filter_cons, List.filter_cons]
      split
      . exact ih.cons_cons p
      . exact ih

theorem holding_append_of_ne {pod : Pod} (h : pod.runId ≠ some run)
    : holding (pods ++ [pod]) run = holding pods run := by
  unfold holding
  rw [List.filter_append, List.filter_append]
  simp [List.filter_filter, h]

namespace Cluster

variable {c c' : Cluster}

structure Healthy (c : Cluster) : Prop where
  within : ∀ id lease, c.leases.lookup id = some lease →
    (runUsage c.pods id).fitsWithin (reservationOf lease) = true

-- Between the two listings, every listed run is within the reservation that was listed.
structure Inv (c : Cluster) : Prop where
  healthy : c.Healthy
  window : ∀ live, c.listed = some live → ∀ run ∈ live.map (·.1),
    (runUsage c.pods run).fitsWithin (reservedOf live run) = true

/--
Between the two listings of the polling run, no listed run creates a pod that takes its usage past
the reservation that was listed.
-/
def CreatesWithinListed (c : Cluster) (a : Act) : Prop :=
  match a with
  | .createPod pod => ∀ live run, c.listed = some live → pod.runId = some run →
    run ∈ live.map (·.1) → (runUsage (c.pods ++ [pod]) run).fitsWithin (reservedOf live run) = true
  | _ => True

theorem Inv.shrink {pods : List Pod} (h : c.Inv)
    (hsub : ∀ run, (holding pods run).Sublist (holding c.pods run))
    : Inv { c with pods } := by
  refine ⟨⟨?_⟩, ?_⟩
  . intro id lease hlease
    exact fitsWithin_of_sublist (hsub id) (h.healthy.within id lease hlease)
  . intro live hlive run hrun
    exact fitsWithin_of_sublist (hsub run) (h.window live hlive run hrun)

theorem Inv.writeLease {id : String} {reserve : Resources} {kind : LeaseKind} (h : c.Inv)
    (hok : c.writeLease id reserve kind = .ok c')
    : c'.Inv := by
  unfold Cluster.writeLease at hok
  split at hok
  . next hfits =>
    cases hok
    refine ⟨⟨?_⟩, h.window⟩
    intro id' lease hlease
    by_cases heq : id' = id
    . subst heq
      rw [AList.lookup_insert] at hlease
      cases hlease
      exact hfits
    . rw [AList.lookup_insert_ne heq] at hlease
      exact h.healthy.within id' lease hlease
  . cases hok

theorem Inv.createPod {pod : Pod} (h : c.Inv) (hwithin : c.CreatesWithinListed (.createPod pod))
    (hok : c.createPod pod = .ok c')
    : c'.Inv := by
  -- The other runs see no change.
  have hother : ∀ run, pod.runId ≠ some run → ∀ cap : Resources,
      (runUsage c.pods run).fitsWithin cap = true →
      (runUsage (c.pods ++ [pod]) run).fitsWithin cap = true := by
    intro run hne cap hfits
    apply fitsWithin_of_sublist ?_ hfits
    rw [holding_append_of_ne hne]
  have hinv : (∀ run, pod.runId = some run → ∀ lease, c.leases.lookup run = some lease →
        (runUsage (c.pods ++ [pod]) run).fitsWithin (reservationOf lease) = true) →
      Inv { c with pods := c.pods ++ [pod] } := by
    intro hown
    refine ⟨⟨?_⟩, ?_⟩
    . intro id lease hlease
      by_cases hid : pod.runId = some id
      . exact hown id hid lease hlease
      . exact hother id hid _ (h.healthy.within id lease hlease)
    . intro live hlive run hrun
      by_cases hid : pod.runId = some run
      . exact hwithin live run hlive hid hrun
      . exact hother run hid _ (h.window live hlive run hrun)
  unfold Cluster.createPod at hok
  split at hok
  . next hnone =>
    cases hok
    apply hinv
    intro run hrun
    rw [hnone] at hrun
    cases hrun
  . next run hrun =>
    split at hok
    . cases hok
    . next lease hlease =>
      split at hok
      . next hfits =>
        cases hok
        apply hinv
        intro run' hrun' lease' hlease'
        rw [hrun] at hrun'
        cases hrun'
        rw [hlease] at hlease'
        cases hlease'
        exact hfits
      . cases hok

theorem Inv.listLeases (h : c.Inv) : c.listLeases.Inv := by
  refine ⟨⟨h.healthy.within⟩, ?_⟩
  intro live hlive run hrun
  cases hlive
  unfold listing at hrun
  rw [map_listingOf, ← AList.mem_keys, ← AList.lookup_isSome, Option.isSome_iff_exists] at hrun
  obtain ⟨lease, hlease⟩ := hrun
  unfold listing
  rw [reservedOf_listingOf hlease]
  exact h.healthy.within run lease hlease

theorem Inv.listPods {live : Listing} (h : c.Inv) (hlive : c.listed = some live)
    : c.listPods = .ok { c with listed := none } := by
  unfold Cluster.listPods
  rw [hlive]
  simp only [assertInvariant_ok (h.window live hlive)]

theorem Inv.act {a : Act} (h : c.Inv) (hwithin : c.CreatesWithinListed a) (hok : c.act a = .ok c')
    : c'.Inv := by
  cases a with
  | writeLease id reserve kind => exact h.writeLease hok
  | deleteLease id =>
    cases hok
    refine ⟨⟨?_⟩, h.window⟩
    intro id' lease hlease
    exact h.healthy.within id' lease (AList.lookup_of_lookup_erase hlease)
  | createPod pod => exact h.createPod hwithin hok
  | deletePod pod =>
    cases hok
    exact h.shrink (holding_erase c.pods pod)
  | settlePod pod succeeded =>
    cases hok
    apply h.shrink
    intro run
    apply holding_replace
    cases succeeded <;> rfl
  | listLeases =>
    cases hok
    exact h.listLeases
  | listPods =>
    cases hlisted : c.listed with
    | none =>
      unfold Cluster.act Cluster.listPods at hok
      rw [hlisted] at hok
      cases hok
    | some live =>
      rw [show c.act .listPods = _ from h.listPods hlisted] at hok
      cases hok
      exact ⟨⟨h.healthy.within⟩, fun _ hnone => nomatch hnone⟩

theorem Inv.act_ne_violated {a : Act} (h : c.Inv) (v : Violation)
    : c.act a ≠ .error (.ended v) := by
  cases a with
  | writeLease id reserve kind =>
    unfold Cluster.act Cluster.writeLease
    simp only
    split <;> simp
  | createPod pod =>
    unfold Cluster.act Cluster.createPod
    simp only
    split
    . simp
    . split
      . simp
      . split <;> simp
  | listPods =>
    cases hlisted : c.listed with
    | none =>
      unfold Cluster.act Cluster.listPods
      rw [hlisted]
      simp
    | some live =>
      rw [show c.act .listPods = _ from h.listPods hlisted]
      simp
  | _ => simp [Cluster.act]

theorem acquire_never_panics (c : Cluster) (inputs : List Act) (hhealthy : c.Healthy)
    (hlisted : c.listed = none) (halong : Run.Along step CreatesWithinListed c inputs)
    : ∀ v, Run.exec step c inputs ≠ .error (.ended v) := by
  intro v
  have hinit : c.Inv := by
    refine ⟨hhealthy, ?_⟩
    rw [hlisted]
    exact fun _ hnone => nomatch hnone
  apply Run.exec_ne_error_along (I := Inv) (Q := CreatesWithinListed) ?_ ?_ hinit halong
  . intro c a c' r h hwithin hstep
    obtain ⟨t, hact, heq⟩ := Run.map_ok hstep
    cases heq
    exact h.act hwithin hact
  . intro c a h _ herror
    unfold step at herror
    cases hact : c.act a with
    | ok c' =>
      rw [hact] at herror
      cases herror
    | error e =>
      rw [hact] at herror
      cases herror
      exact h.act_ne_violated v hact

theorem acquire_never_panics_fixed_lease
    : Run.exec step ⟨∅, [], none⟩
          [.writeLease "r" ⟨4000, 8, 0, 0, 0⟩ .run, .listLeases,
            .createPod ⟨some "r", none, some ⟨[⟨3000, 4, false⟩], []⟩⟩, .listPods]
        ≠ .error (.ended ⟨"r", ⟨3000, 4, 0, 0, 0⟩, ⟨4000, 8, 0, 0, 0⟩⟩) := by
  apply acquire_never_panics
  . exact ⟨fun id lease h => nomatch h⟩
  . rfl
  . refine ⟨trivial, ?_⟩
    intro c r h
    cases h
    refine ⟨trivial, ?_⟩
    intro c r h
    cases h
    constructor
    . intro live run hlive hrun _
      cases hlive
      cases hrun
      rfl
    . exact fun _ _ _ => ⟨trivial, fun _ _ _ => trivial⟩

-- `r` grows its lease and then its pods, all between the two listings.
theorem grown_lease_trips_assertion
    : Run.exec step ⟨∅, [], none⟩
          [.writeLease "r" ⟨2000, 4, 0, 0, 0⟩ .run,
            .createPod ⟨some "r", none, some ⟨[⟨2000, 4, false⟩], []⟩⟩, .listLeases,
            .writeLease "r" ⟨4000, 8, 0, 0, 0⟩ .run,
            .createPod ⟨some "r", none, some ⟨[⟨2000, 4, false⟩], []⟩⟩, .listPods]
        = .error (.ended ⟨"r", ⟨4000, 8, 0, 0, 0⟩, ⟨2000, 4, 0, 0, 0⟩⟩) := by
  rfl

end Cluster
end Ledger
end Qos
