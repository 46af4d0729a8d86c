import Ztest.Qos.Resources
import Mathlib.Data.List.Induction
import Mathlib.Order.Bounds.Basic
import Mathlib.Algebra.Order.BigOperators.Group.List
import Mathlib.Algebra.Order.Group.Nat

/-!
This module contains the life of a pod as the sets of containers that run together, and that
`pod_effective` of `qos/units.rs` is the largest of their loads.
-/

namespace Qos

section Life

variable {C : Type} (restartAlways : C → Bool)

-- What runs beside a plain init container are the sidecars that are declared before it.
def InitMoment (initContainers together : List C) : Prop :=
  ∃ before c after, initContainers = before ++ c :: after ∧ restartAlways c = false
    ∧ together = c :: before.filter restartAlways

-- The containers that run together at some moment of the pod's life.
inductive Moment (containers initContainers : List C) : List C → Prop
  | init {together : List C} : InitMoment restartAlways initContainers together
    → Moment containers initContainers together
  | steady : Moment containers initContainers (containers ++ initContainers.filter restartAlways)

def load (perContainer : C → Resources) (d : Dim) (together : List C) : Nat :=
  (together.map fun c => (perContainer c).amt d).sum

def loads (perContainer : C → Resources) (containers initContainers : List C) (d : Dim) : Set Nat :=
  {n | ∃ together, Moment restartAlways containers initContainers together
    ∧ load perContainer d together = n}

end Life

variable {C : Type} {restartAlways : C → Bool} {perContainer : C → Resources}
variable {containers initContainers : List C}

theorem load_append (d : Dim) (xs ys : List C)
    : load perContainer d (xs ++ ys) = load perContainer d xs + load perContainer d ys := by
  simp [load]

theorem le_load_of_mem {d : Dim} {c : C} {together : List C} (h : c ∈ together)
    : (perContainer c).amt d ≤ load perContainer d together :=
  List.single_le_sum (fun _ _ => Nat.zero_le _) _ (List.mem_map_of_mem h)

theorem load_le_load {f g : C → Resources} {d : Dim} {together : List C}
    (h : ∀ c ∈ together, (f c).amt d ≤ (g c).amt d)
    : load f d together ≤ load g d together :=
  List.sum_le_sum h

theorem not_initMoment_nil {together : List C} : ¬InitMoment restartAlways [] together := by
  rintro ⟨before, c, after, heq, _⟩
  cases before <;> cases heq

theorem initMoment_append {last : C} {together : List C}
    : InitMoment restartAlways (initContainers ++ [last]) together
        ↔ InitMoment restartAlways initContainers together
          ∨ restartAlways last = false ∧ together = last :: initContainers.filter restartAlways := by
  constructor
  . rintro ⟨before, c, after, heq, hplain, rfl⟩
    cases after using List.reverseRecOn with
    | nil =>
      rcases List.append_singleton_inj.mp heq with ⟨rfl, rfl⟩
      exact Or.inr ⟨hplain, rfl⟩
    | append_singleton after x =>
      rw [← List.cons_append, ← List.append_assoc] at heq
      rcases List.append_singleton_inj.mp heq with ⟨rfl, _⟩
      exact Or.inl ⟨before, c, after, rfl, hplain, rfl⟩
  . rintro (⟨before, c, after, rfl, hplain, rfl⟩ | ⟨hplain, rfl⟩)
    . exact ⟨before, c, after ++ [last], by simp, hplain, rfl⟩
    . exact ⟨initContainers, last, [], rfl, hplain, rfl⟩

variable (restartAlways) in
-- Every container runs at some moment.
theorem exists_moment {c : C} (h : c ∈ containers ++ initContainers)
    : ∃ together, Moment restartAlways containers initContainers together ∧ c ∈ together := by
  cases List.mem_append.mp h with
  | inl hregular => exact ⟨_, .steady, List.mem_append_left _ hregular⟩
  | inr hinit =>
    cases hrestart : restartAlways c with
    | true => exact ⟨_, .steady, List.mem_append_right _ (List.mem_filter.mpr ⟨hinit, hrestart⟩)⟩
    | false =>
      rcases List.append_of_mem hinit with ⟨before, after, heq⟩
      exact ⟨_, .init ⟨before, c, after, heq, hrestart, rfl⟩, List.mem_cons_self⟩

theorem mem_of_moment {together : List C} (h : Moment restartAlways containers initContainers together)
    : ∀ c ∈ together, c ∈ containers ++ initContainers := by
  intro c hc
  cases h with
  | init hinit =>
    rcases hinit with ⟨before, first, after, rfl, _, rfl⟩
    apply List.mem_append_right
    cases List.mem_cons.mp hc with
    | inl heq => exact heq ▸ List.mem_append_right _ List.mem_cons_self
    | inr hbefore => exact List.mem_append_left _ (List.mem_of_mem_filter hbefore)
  | steady =>
    cases List.mem_append.mp hc with
    | inl hregular => exact List.mem_append_left _ hregular
    | inr hsidecar => exact List.mem_append_right _ (List.mem_of_mem_filter hsidecar)

section Fold

-- What the fold over the init containers has added up, each amount clamped to 64 bits.
structure Sums (perContainer : C → Resources) (restartAlways : C → Bool) (regular : Nat) (d : Dim)
    (initContainers : List C) (acc : Effective) : Prop where
  sidecars : acc.sidecars.amt d
    = min (load perContainer d (initContainers.filter restartAlways)) (2 ^ 64 - 1)
  running : acc.running.amt d
    = min (regular + load perContainer d (initContainers.filter restartAlways)) (2 ^ 64 - 1)
  initPeak : ∀ bound, acc.initPeak.amt d ≤ bound
    ↔ ∀ together, InitMoment restartAlways initContainers together
      → min (load perContainer d together) (2 ^ 64 - 1) ≤ bound

theorem Sums.initContainer {regular : Nat} {d : Dim} {acc : Effective} {last : C}
    (h : Sums perContainer restartAlways regular d initContainers acc)
    : Sums perContainer restartAlways regular d (initContainers ++ [last])
        (acc.initContainer restartAlways perContainer last) := by
  have hsidecars := h.sidecars
  have hrunning := h.running
  unfold Effective.initContainer
  cases hrestart : restartAlways last with
  | true =>
    have hload : load perContainer d ((initContainers ++ [last]).filter restartAlways)
        = load perContainer d (initContainers.filter restartAlways) + (perContainer last).amt d := by
      simp [load, hrestart]
    rw [if_pos rfl]
    refine ⟨?_, ?_, ?_⟩
    . rw [hload, Resources.amt_saturatingAdd, hsidecars]
      omega
    . rw [hload, Resources.amt_saturatingAdd, hrunning]
      omega
    . intro bound
      simp only [initMoment_append, hrestart, Bool.true_eq_false, false_and, or_false]
      exact h.initPeak bound
  | false =>
    have hfilter : (initContainers ++ [last]).filter restartAlways
        = initContainers.filter restartAlways := by
      simp [hrestart]
    have hload : load perContainer d (last :: initContainers.filter restartAlways)
        = (perContainer last).amt d + load perContainer d (initContainers.filter restartAlways) := by
      simp [load]
    rw [if_neg Bool.false_ne_true]
    refine ⟨?_, ?_, ?_⟩
    . rw [hfilter]
      exact hsidecars
    . rw [hfilter]
      exact hrunning
    . intro bound
      have hlast : ((perContainer last).saturatingAdd acc.sidecars).amt d
          = min (load perContainer d (last :: initContainers.filter restartAlways)) (2 ^ 64 - 1) := by
        rw [hload, Resources.amt_saturatingAdd, hsidecars]
        omega
      rw [Resources.amt_max, Nat.max_le, h.initPeak, hlast]
      constructor
      . rintro ⟨hearlier, hpeak⟩ together htogether
        cases initMoment_append.mp htogether with
        | inl hinit => exact hearlier together hinit
        | inr hplain => exact hplain.2 ▸ hpeak
      . intro hall
        exact ⟨fun together hinit => hall together (initMoment_append.mpr (Or.inl hinit)),
          hall _ (initMoment_append.mpr (Or.inr ⟨hrestart, rfl⟩))⟩

variable (restartAlways perContainer) in
theorem sums_foldl {regular : Nat} {d : Dim} {running : Resources}
    (hrunning : running.amt d = min regular (2 ^ 64 - 1)) (initContainers : List C)
    : Sums perContainer restartAlways regular d initContainers
        (initContainers.foldl (Effective.initContainer restartAlways perContainer)
          ⟨running, .zero, .zero⟩) := by
  induction initContainers using List.reverseRecOn with
  | nil =>
    refine ⟨by simp [load], by simpa [load] using hrunning, ?_⟩
    intro bound
    simp [not_initMoment_nil]
  | append_singleton initContainers last ih =>
    rw [List.foldl_append]
    exact ih.initContainer

end Fold

theorem podEffective_le_iff {d : Dim} {bound : Nat}
    : (podEffective restartAlways perContainer containers initContainers).amt d ≤ bound
        ↔ ∀ together, Moment restartAlways containers initContainers together
          → min (load perContainer d together) (2 ^ 64 - 1) ≤ bound := by
  have hregular : (containers.foldl (fun acc c => acc.saturatingAdd (perContainer c))
      Resources.zero).amt d = min (load perContainer d containers) (2 ^ 64 - 1) := by
    rw [Resources.amt_foldl_saturatingAdd, Resources.amt_zero, Nat.zero_add]
    rfl
  have hsums := sums_foldl restartAlways perContainer hregular initContainers
  unfold podEffective
  rw [Resources.amt_max, Nat.max_le, hsums.running, hsums.initPeak, ← load_append]
  constructor
  . rintro ⟨hsteady, hinit⟩ together hmoment
    cases hmoment with
    | init h => exact hinit together h
    | steady => exact hsteady
  . intro hall
    exact ⟨hall _ .steady, fun together h => hall together (.init h)⟩

theorem load_le_podEffective {d : Dim} {together : List C}
    (h : Moment restartAlways containers initContainers together)
    : min (load perContainer d together) (2 ^ 64 - 1)
        ≤ (podEffective restartAlways perContainer containers initContainers).amt d :=
  podEffective_le_iff.mp (Nat.le_refl _) together h

variable (restartAlways perContainer containers initContainers) in
theorem exists_load_eq_podEffective (d : Dim)
    : ∃ together, Moment restartAlways containers initContainers together
        ∧ min (load perContainer d together) (2 ^ 64 - 1)
          = (podEffective restartAlways perContainer containers initContainers).amt d := by
  apply Classical.byContradiction
  intro hnone
  have hbelow : ∀ together, Moment restartAlways containers initContainers together
      → min (load perContainer d together) (2 ^ 64 - 1)
        < (podEffective restartAlways perContainer containers initContainers).amt d :=
    fun together h => Nat.lt_of_le_of_ne (load_le_podEffective h) fun heq => hnone ⟨together, h, heq⟩
  have hsteady := hbelow _ .steady
  have hpred : (podEffective restartAlways perContainer containers initContainers).amt d
      ≤ (podEffective restartAlways perContainer containers initContainers).amt d - 1 :=
    podEffective_le_iff.mpr fun together h => Nat.le_sub_one_of_lt (hbelow together h)
  omega

/--
What a pod is charged is its peak: where no sum leaves 64 bits it is the largest load of a moment of the
pod's life. It grows with every container's amount and is never below a single one.
-/
theorem podEffective_isGreatest (restartAlways : C → Bool) (containers initContainers : List C) (d : Dim)
    : (∀ perContainer : C → Resources,
          (∀ n ∈ loads restartAlways perContainer containers initContainers d, n < 2 ^ 64)
          → IsGreatest (loads restartAlways perContainer containers initContainers d)
              ((podEffective restartAlways perContainer containers initContainers).amt d))
        ∧ (∀ f g : C → Resources, (∀ c ∈ containers ++ initContainers, (f c).amt d ≤ (g c).amt d)
          → (podEffective restartAlways f containers initContainers).amt d
              ≤ (podEffective restartAlways g containers initContainers).amt d)
        ∧ ∀ (perContainer : C → Resources), ∀ c ∈ containers ++ initContainers,
            (perContainer c).amt d
              ≤ (podEffective restartAlways perContainer containers initContainers).amt d := by
  refine ⟨?_, ?_, ?_⟩
  . intro perContainer hfits
    have hclamp : ∀ together, Moment restartAlways containers initContainers together
        → min (load perContainer d together) (2 ^ 64 - 1) = load perContainer d together := by
      intro together h
      have hlt := hfits _ ⟨together, h, rfl⟩
      omega
    constructor
    . rcases exists_load_eq_podEffective restartAlways perContainer containers initContainers d with
        ⟨together, h, heq⟩
      exact ⟨together, h, (hclamp together h).symm.trans heq⟩
    . rintro n ⟨together, h, rfl⟩
      exact hclamp together h ▸ load_le_podEffective h
  . intro f g hle
    apply podEffective_le_iff.mpr
    intro together h
    have hload : load f d together ≤ load g d together :=
      load_le_load fun c hc => hle c (mem_of_moment h c hc)
    exact Nat.le_trans (by omega) (load_le_podEffective h)
  . intro perContainer c hc
    rcases exists_moment restartAlways hc with ⟨together, h, hmem⟩
    have hle : (perContainer c).amt d ≤ load perContainer d together := le_load_of_mem hmem
    have hmax := (perContainer c).amt_le d
    exact Nat.le_trans (by omega) (load_le_podEffective h)

-- An init container that outweighs the pod's steady state, beside the sidecar before it.
theorem podEffective_isGreatest_init_peak
    : IsGreatest
        (loads Container.restartAlways containerRequests [⟨2000, 0, false⟩]
          [⟨500, 0, true⟩, ⟨3000, 0, false⟩] .cpuMilli)
        ((podEffectiveRequest ⟨[⟨2000, 0, false⟩], [⟨500, 0, true⟩, ⟨3000, 0, false⟩]⟩).amt .cpuMilli)
      ∧ (podEffectiveRequest ⟨[⟨2000, 0, false⟩], [⟨500, 0, true⟩, ⟨3000, 0, false⟩]⟩).amt .cpuMilli
          = 3500 := by
  refine ⟨(podEffective_isGreatest _ _ _ .cpuMilli).1 containerRequests ?_, by decide⟩
  rintro n ⟨together, h, rfl⟩
  cases h with
  | init h =>
    rcases h with ⟨before, c, after, heq, hplain, rfl⟩
    rcases before with _ | ⟨x, _ | ⟨y, before⟩⟩
    . cases heq
      cases hplain
    . cases heq
      decide
    . simp at heq
  | steady => decide

end Qos
