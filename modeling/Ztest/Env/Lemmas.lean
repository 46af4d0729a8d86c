import Ztest.Env.Impl

namespace Env

open Qos (Dim QosClass QosProfile Resources)

def Compute (d : Dim) : Prop := d = .cpuMilli ∨ d = .memBytes

section ReadBack

theorem saturatingAdd_zero_left (r : Resources) : Resources.zero.saturatingAdd r = r := by
  apply Resources.ext_amt
  intro d
  have := r.amt_le d
  rw [Resources.amt_saturatingAdd, Resources.amt_zero]
  omega

theorem max_zero_right (r : Resources) : r.max .zero = r := by
  apply Resources.ext_amt
  intro d
  rw [Resources.amt_max, Resources.amt_zero]
  omega

theorem podEffectiveRequest_single (c : Qos.Container)
    : Qos.podEffectiveRequest ⟨[c], []⟩ = Qos.containerRequests c := by
  simp [Qos.podEffectiveRequest, Qos.podEffective, saturatingAdd_zero_left, max_zero_right]

/--
What a component renders is read back as what it is charged for.
-/
theorem effectiveRequest_render {spec : PodSpec} {pod : Pod} (hrender : spec.render = some pod)
    (hsmall : (specRequest spec).amt .cpuMilli < 2 ^ 53)
    : pod.effectiveRequest = specRequest spec := by
  unfold PodSpec.render at hrender
  unfold specRequest at hsmall ⊢
  split at hrender
  next => cases hrender
  next res hsizing =>
    rw [hsizing] at hsmall ⊢
    have hcpu : Qos.parseCpuMilli res.cpu.toQuantity = res.cpu.millicores :=
      Qos.parseCpuMilli_toQuantity hsmall
    simp only [podIsGuaranteed, List.all_cons, Option.isSome_some, List.all_nil, Bool.and_self, if_true,
      Option.some.injEq] at hrender
    rw [← hrender]
    unfold Pod.effectiveRequest
    simp only [List.map_cons, List.map_nil, podEffectiveRequest_single, Container.parsed, hcpu,
      Qos.parseMemBytes_toQuantity]
    rfl

theorem specRequest_of_render_eq_none {spec : PodSpec} (h : spec.render = none) : specRequest spec = .zero := by
  unfold PodSpec.render at h
  unfold specRequest
  split at h
  next hsizing => rw [hsizing]
  next => simp [podIsGuaranteed] at h

theorem guaranteedCpuMem_whole {r : Resources} (hpod : r.podSchedulable = true)
    (hwhole : r.cpuMilli.toNat % 1000 = 0) (hsmall : r.cpuMilli.toNat < 2 ^ 53)
    : ∃ cpu memory, r.guaranteedCpuMem = some (cpu, memory)
        ∧ Qos.parseCpuMilli cpu = r.cpuMilli ∧ Qos.parseMemBytes memory = r.memBytes := by
  have hpos : 0 < r.cpuMilli.toNat := by
    have hcpu := (Bool.and_eq_true_iff.mp hpod).1
    exact UInt64.lt_iff_toNat_lt.mp (of_decide_eq_true hcpu)
  have hcores : max ((r.cpuMilli.toNat + 999) / 1000) 1 * 1000 = r.cpuMilli.toNat := by omega
  unfold Resources.guaranteedCpuMem
  rw [if_pos hpod]
  refine ⟨_, _, rfl, ?_, Qos.parseMemBytes_digits r.memBytes⟩
  rw [Qos.parseCpuMilli_toDigits (by omega), hcores, UInt64.ofNat_toNat]

theorem buildPod_eq (name image : Text) (tier : QosClass)
    : ∃ pod, buildPod name image tier = some pod ∧ pod.effectiveRequest = tier.profile.runner := by
  have hpod : tier.profile.runner.podSchedulable = true := by cases tier <;> decide
  have hwhole : tier.profile.runner.cpuMilli.toNat % 1000 = 0 := by cases tier <;> decide
  have hsmall : tier.profile.runner.cpuMilli.toNat < 2 ^ 53 := by cases tier <;> decide
  have hdisk : tier.profile.runner
      = .new tier.profile.runner.cpuMilli tier.profile.runner.memBytes 0 0 := by cases tier <;> rfl
  rcases guaranteedCpuMem_whole hpod hwhole hsmall with ⟨cpu, memory, hquantity, hcpu, hmemory⟩
  unfold buildPod
  rw [hquantity]
  refine ⟨_, rfl, ?_⟩
  simp only [Pod.effectiveRequest, List.map_cons, List.map_nil, podEffectiveRequest_single,
    Container.parsed, hcpu, hmemory, Qos.containerRequests]
  exact hdisk.symm

end ReadBack

section Budget

theorem admitSpec_ok {budget charged : DeployBudget} {spec : PodSpec} (h : budget.admitSpec spec = .ok charged)
    : charged = budget.charge spec
        ∧ (budget.charge spec).committed.fitsWithin budget.bound.reserve = true := by
  unfold DeployBudget.admitSpec at h
  split at h
  next => cases h
  next =>
    dsimp only at h
    split at h
    next hfits =>
      injection h with heq
      exact ⟨heq.symm, hfits⟩
    next => cases h

theorem specRequest_amt_le {budget : DeployBudget} {spec : PodSpec} {d : Dim}
    : (specRequest spec).amt d ≤ (budget.charge spec).committed.amt d := by
  have := (specRequest spec).amt_le d
  unfold DeployBudget.charge
  rw [Resources.amt_saturatingAdd]
  omega

/--
The charges add up without saturating, and each of them is within the reserve.
-/
theorem admitAll_ok {budget final : DeployBudget} {specs : List PodSpec}
    (h : budget.admitAll specs = .ok final) {d : Dim} (hd : budget.bound.reserve.amt d < 2 ^ 53)
    : final.bound = budget.bound
        ∧ final.committed.amt d = budget.committed.amt d + (specs.map fun spec => (specRequest spec).amt d).sum
        ∧ (∀ spec ∈ specs, (specRequest spec).amt d ≤ budget.bound.reserve.amt d)
        ∧ (budget.committed.amt d ≤ budget.bound.reserve.amt d
            → final.committed.amt d ≤ budget.bound.reserve.amt d) := by
  induction specs generalizing budget with
  | nil =>
    injection h with heq
    subst heq
    simp
  | cons spec rest ih =>
    unfold DeployBudget.admitAll at h
    split at h
    next => cases h
    next charged hadmitted =>
      rcases admitSpec_ok hadmitted with ⟨rfl, hfits⟩
      have hle := Resources.fitsWithin_iff.mp hfits d
      have hsum : (budget.charge spec).committed.amt d
          = budget.committed.amt d + (specRequest spec).amt d := by
        unfold DeployBudget.charge at hle ⊢
        rw [Resources.amt_saturatingAdd] at hle ⊢
        omega
      rcases ih h hd with ⟨hbound, hcommitted, hrest, hfinal⟩
      refine ⟨hbound, ?_, ?_, fun _ => hfinal hle⟩
      . rw [hcommitted, hsum, List.map_cons, List.sum_cons]
        omega
      . intro spec' hspec
        rcases List.mem_cons.mp hspec with rfl | hspec
        . exact specRequest_amt_le.trans hle
        . exact hrest spec' hspec

theorem close_ok {budget : DeployBudget} {declared : Resources} (hbound : budget.bound = .exact declared)
    (h : budget.close = .ok ()) {d : Dim} (hd : Compute d)
    : budget.committed.amt d = declared.amt d := by
  unfold DeployBudget.close at h
  rw [hbound] at h
  dsimp only at h
  split at h
  next heq =>
    rcases hd with rfl | rfl
    . exact congrArg UInt64.toNat heq.1
    . exact congrArg UInt64.toNat heq.2
  next => cases h

theorem sum_effectiveRequest {specs : List PodSpec}
    (hread : ∀ spec ∈ specs, ∀ pod, spec.render = some pod → pod.effectiveRequest = specRequest spec) (d : Dim)
    : ((specs.filterMap PodSpec.render).map fun pod => pod.effectiveRequest.amt d).sum
        =
      (specs.map fun spec => (specRequest spec).amt d).sum := by
  induction specs with
  | nil => rfl
  | cons spec rest ih =>
    have hrest := ih fun s hs => hread s (List.mem_cons_of_mem _ hs)
    cases hrender : spec.render with
    | none =>
      rw [List.filterMap_cons_none hrender, hrest, List.map_cons, List.sum_cons,
        specRequest_of_render_eq_none hrender, Resources.amt_zero, Nat.zero_add]
    | some pod =>
      rw [List.filterMap_cons_some hrender, List.map_cons, List.sum_cons, hrest, List.map_cons,
        List.sum_cons, hread spec List.mem_cons_self pod hrender]

end Budget

section Profile

theorem ofProfile_reserve {tier : QosClass} {footprint : Option Resources} {profile : QosProfile}
    (h : tier.profileWith footprint = some profile)
    : (DeployBudget.ofProfile footprint profile).bound.reserve = profile.footprint
        ∧ profile.runner = tier.profile.runner
        ∧ (footprint = none → profile = tier.profile) := by
  unfold QosClass.profileWith QosProfile.withFootprint at h
  cases footprint with
  | none =>
    dsimp only at h
    split at h
    next => cases h
    next =>
      injection h with heq
      subst heq
      exact ⟨rfl, rfl, fun _ => rfl⟩
  | some declared =>
    dsimp only at h
    split at h
    next => cases h
    next overridden hsome =>
      split at h
      next => cases h
      next =>
        injection h with heq
        subst heq
        split at hsome
        next =>
          injection hsome with heq
          subst heq
          exact ⟨rfl, rfl, fun hnone => nomatch hnone⟩
        next => cases hsome

theorem tier_footprint_lt (tier : QosClass) {d : Dim} (hd : Compute d) : tier.profile.footprint.amt d < 2 ^ 53 := by
  rcases hd with rfl | rfl <;> cases tier <;> decide

theorem tier_runner_lt (tier : QosClass) {d : Dim} (hd : Compute d) : tier.profile.runner.amt d < 2 ^ 53 := by
  rcases hd with rfl | rfl <;> cases tier <;> decide

theorem footprint_lt {tier : QosClass} {footprint : Option Resources} {profile : QosProfile}
    (hprofile : tier.profileWith footprint = some profile)
    (hsmall : ∀ declared, footprint = some declared → ∀ d, Compute d → declared.amt d < 2 ^ 53)
    {d : Dim} (hd : Compute d)
    : profile.footprint.amt d < 2 ^ 53 := by
  rcases ofProfile_reserve hprofile with ⟨hreserve, _, htier⟩
  cases footprint with
  | none =>
    rw [htier rfl]
    exact tier_footprint_lt tier hd
  | some declared =>
    rw [← hreserve]
    exact hsmall declared rfl d hd

/--
The component pods and the runner request at most what the test was admitted for, the components
exactly what it declared, and each of them what it was charged.
-/
theorem pods_within_admitted {tier : QosClass} {footprint : Option Resources} {profile : QosProfile}
    (hprofile : tier.profileWith footprint = some profile)
    (hsmall : ∀ declared, footprint = some declared → ∀ d, Compute d → declared.amt d < 2 ^ 53)
    {specs : List PodSpec} {budget : DeployBudget}
    (hadmitted : (DeployBudget.ofProfile footprint profile).admitAll specs = .ok budget)
    (hclose : budget.close = .ok ()) (name image : Text)
    : (∃ runner, buildPod name image tier = some runner ∧ ∀ d, Compute d →
          ((specs.filterMap PodSpec.render).map fun pod => pod.effectiveRequest.amt d).sum
              + runner.effectiveRequest.amt d
            ≤ profile.admitted.amt d)
        ∧
      (∀ declared, footprint = some declared → ∀ d, Compute d →
          ((specs.filterMap PodSpec.render).map fun pod => pod.effectiveRequest.amt d).sum = declared.amt d)
        ∧
      ∀ spec ∈ specs, ∀ pod, spec.render = some pod → pod.effectiveRequest = specRequest spec := by
  rcases ofProfile_reserve hprofile with ⟨hreserve, hrunner, _⟩
  have hlt : ∀ {d}, Compute d → (DeployBudget.ofProfile footprint profile).bound.reserve.amt d < 2 ^ 53 := by
    intro d hd
    rw [hreserve]
    exact footprint_lt hprofile hsmall hd
  have hstart : ∀ d, (DeployBudget.ofProfile footprint profile).committed.amt d = 0 := Resources.amt_zero
  have hread : ∀ spec ∈ specs, ∀ pod, spec.render = some pod → pod.effectiveRequest = specRequest spec := by
    intro spec hspec pod hrender
    have hcpu := (admitAll_ok hadmitted (hlt (.inl rfl))).2.2.1 spec hspec
    exact effectiveRequest_render hrender (Nat.lt_of_le_of_lt hcpu (hlt (.inl rfl)))
  have hsum : ∀ {d}, Compute d →
      ((specs.filterMap PodSpec.render).map fun pod => pod.effectiveRequest.amt d).sum = budget.committed.amt d := by
    intro d hd
    rw [sum_effectiveRequest hread, (admitAll_ok hadmitted (hlt hd)).2.1, hstart, Nat.zero_add]
  refine ⟨?_, ?_, hread⟩
  . rcases buildPod_eq name image tier with ⟨runner, hbuild, hrequest⟩
    refine ⟨runner, hbuild, ?_⟩
    intro d hd
    have hcommitted := (admitAll_ok hadmitted (hlt hd)).2.2.2 (hstart d ▸ Nat.zero_le _)
    have hfootprint := footprint_lt hprofile hsmall hd
    have htier := tier_runner_lt tier hd
    unfold QosProfile.admitted
    rw [hsum hd, hrequest, Resources.amt_saturatingAdd, hrunner]
    rw [hreserve] at hcommitted
    omega
  . rintro declared rfl d hd
    rw [hsum hd]
    exact close_ok (admitAll_ok hadmitted (hlt hd)).1 hclose hd

end Profile

namespace Sample

def validator : PodSpec :=
  ⟨['v'], ['z'], ['z'], none, some ⟨⟨1000, by decide⟩, ⟨2147483648, by decide⟩⟩, some .general⟩

def indexer : PodSpec :=
  ⟨['i'], ['z'], ['z'], some ⟨⟨750, by decide⟩, ⟨1073741824, by decide⟩⟩, none, some .general⟩

def declared : Resources := .new 1750 3221225472 0 0

def profile : QosProfile := { QosClass.testnet.profile with footprint := declared }

def budget : DeployBudget :=
  ⟨.exact declared, declared, [(['v'], .new 1000 2147483648 0 0), (['i'], .new 750 1073741824 0 0)]⟩

end Sample

open Sample in
theorem testnet_within_admitted
    : ∃ runner, buildPod [] [] .testnet = some runner
        ∧ (([validator, indexer].filterMap PodSpec.render).map fun pod =>
              pod.effectiveRequest.amt .memBytes).sum + runner.effectiveRequest.amt .memBytes
          ≤ Sample.profile.admitted.amt .memBytes := by
  have hprofile : QosClass.testnet.profileWith (some declared) = some Sample.profile := rfl
  have hsmall : ∀ r, some declared = some r → ∀ d, Compute d → r.amt d < 2 ^ 53 := by
    intro r hr d hd
    injection hr with hr
    subst hr
    rcases hd with rfl | rfl <;> decide
  have hadmitted : (DeployBudget.ofProfile (some declared) Sample.profile).admitAll [validator, indexer]
      = .ok budget := rfl
  rcases (pods_within_admitted hprofile hsmall hadmitted rfl [] []).1 with ⟨runner, hbuild, hle⟩
  exact ⟨runner, hbuild, hle .memBytes (.inr rfl)⟩

end Env
