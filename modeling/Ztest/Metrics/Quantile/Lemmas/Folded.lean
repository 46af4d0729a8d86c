import Ztest.Metrics.Impl
import Mathlib.Algebra.Order.BigOperators.Group.List
import Mathlib.Data.List.MinMax
import Mathlib.Tactic.Linarith

/-!
This module contains when the ladder that label sets are folded to counts their observations. Sets are summed
up bound by bound, so a set says nothing about a bound of another one, and the folded bounds are in the order
of their bits.
-/

namespace Metrics

section Bits

theorem fromBits_toBits (le : Bound) : fromBits (toBits le) = le := by
  cases le using WithTop.recTopCoe with
  | top => rfl
  | coe q =>
    unfold fromBits toBits
    rcases lt_or_ge q 0 with hneg | hpos
    . have hlt : (q : Bound) < 0 := WithTop.coe_lt_coe.mpr hneg
      rw [decide_eq_true hlt]
      show ((-|q| : ℚ) : Bound) = q
      rw [abs_of_neg hneg, neg_neg]
    . rw [decide_eq_false (not_lt.mpr (WithTop.coe_nonneg.mpr hpos) : ¬(q : Bound) < 0)]
      show ((|q| : ℚ) : Bound) = q
      rw [abs_of_nonneg hpos]

theorem toBits_injective : Function.Injective toBits := Function.LeftInverse.injective fromBits_toBits

theorem toBits_of_nonneg {le : Bound} (h : 0 ≤ le) : toBits le = toLex (false, le) := by
  unfold toBits
  rw [decide_eq_false (not_lt.mpr h)]
  cases le using WithTop.recTopCoe with
  | top => rfl
  | coe q => simp [abs_of_nonneg (WithTop.coe_nonneg.mp h)]

theorem toBits_lt_toBits {le le' : Bound} (h : 0 ≤ le) (h' : 0 ≤ le') : toBits le < toBits le' ↔ le < le' := by
  rw [toBits_of_nonneg h, toBits_of_nonneg h', Prod.Lex.toLex_lt_toLex]
  simp

theorem toBits_top_lt {le : Bound} (h : le < 0) : toBits ⊤ < toBits le := by
  rw [toBits_of_nonneg le_top, toBits, decide_eq_true h, Prod.Lex.toLex_lt_toLex]
  exact Or.inl rfl

end Bits

section Recorded

/--
A label set with its bounds, and how many of its observations are at or below any bound.
-/
structure Recorded where
  labels : Labels
  finite : List ℚ
  ascending : finite.Pairwise (· < ·)
  atMost : Bound → ℚ
  nonneg : ∀ le, 0 ≤ atMost le
  monotone : Monotone atMost

namespace Recorded

def bounds (r : Recorded) : List Bound := r.finite.map (↑) ++ [⊤]

def published (r : Recorded) : Buckets := ⟨r.labels, r.bounds.map fun le => (le, r.atMost le)⟩

theorem pairwise_bounds (r : Recorded) : r.bounds.Pairwise (· < ·) := by
  rw [bounds, List.pairwise_append]
  refine ⟨?_, List.pairwise_singleton _ _, ?_⟩
  . rw [List.pairwise_map]
    exact r.ascending.imp fun h => WithTop.coe_lt_coe.mpr h
  . intro le hle top htop
    rcases List.mem_map.mp hle with ⟨q, _, rfl⟩
    rw [List.mem_singleton.mp htop]
    exact WithTop.coe_lt_top q

theorem top_mem (r : Recorded) : ⊤ ∈ r.bounds := List.mem_append_right _ (List.mem_singleton_self ⊤)

end Recorded

def highest (rungs : List Rung) (le : Bound) : ℚ := ((rungs.filter (·.1 ≤ le)).map Prod.snd).foldr max 0

theorem foldr_max_le {xs : List ℚ} {y : ℚ} (hy : 0 ≤ y) (h : ∀ x ∈ xs, x ≤ y) : xs.foldr max 0 ≤ y := by
  induction xs with
  | nil => exact hy
  | cons x xs ih =>
    rw [List.forall_mem_cons] at h
    exact max_le h.1 (ih h.2)

theorem highest_nonneg (rungs : List Rung) (le : Bound) : 0 ≤ highest rungs le := by
  unfold highest
  induction (rungs.filter (·.1 ≤ le)).map Prod.snd with
  | nil => exact le_refl 0
  | cons x xs ih => exact ih.trans (le_max_right _ _)

theorem highest_mono (rungs : List Rung) : Monotone (highest rungs) := by
  intro le le' hle
  apply foldr_max_le (highest_nonneg rungs le')
  intro x hx
  rcases List.mem_map.mp hx with ⟨rung, hrung, rfl⟩
  rw [List.mem_filter, decide_eq_true_eq] at hrung
  apply List.le_max_of_le' 0 _ (le_refl _)
  apply List.mem_map_of_mem
  rw [List.mem_filter, decide_eq_true_eq]
  exact ⟨hrung.1, hrung.2.trans hle⟩

theorem highest_of_mem {rungs : List Rung} (h : rungs.Pairwise fun x y => x.1 < y.1 ∧ x.2 ≤ y.2)
    (hnonneg : ∀ x ∈ rungs, 0 ≤ x.2) {x : Rung} (hx : x ∈ rungs)
    : highest rungs x.1 = x.2 := by
  apply le_antisymm
  . apply foldr_max_le (hnonneg x hx)
    intro count hcount
    rcases List.mem_map.mp hcount with ⟨y, hy, rfl⟩
    rw [List.mem_filter, decide_eq_true_eq] at hy
    obtain ⟨before, after, rfl⟩ := List.append_of_mem hx
    rw [List.pairwise_append, List.pairwise_cons] at h
    rcases List.mem_append.mp hy.1 with hmem | hmem
    . exact (h.2.2 y hmem x List.mem_cons_self).2
    . rcases List.mem_cons.mp hmem with rfl | hmem
      . exact le_refl _
      . exact absurd (h.2.1.1 y hmem).1 (not_lt.mpr hy.2)
  . apply List.le_max_of_le' 0 _ (le_refl _)
    apply List.mem_map_of_mem
    rw [List.mem_filter, decide_eq_true_eq]
    exact ⟨hx, le_refl _⟩

/--
Every ascending cumulative ladder that ends at infinity is published by a label set.
-/
theorem exists_published (set : Buckets) (hascending : set.le.Pairwise fun x y => x.1 < y.1 ∧ x.2 ≤ y.2)
    (hnonneg : ∀ x ∈ set.le, 0 ≤ x.2) (htop : (set.le.map Prod.fst).getLast? = some ⊤)
    : ∃ r : Recorded, r.published = set := by
  obtain ⟨init, hinit⟩ : ∃ init, set.le.map Prod.fst = init ++ [⊤] := by
    exact ⟨_, (List.dropLast_append_getLast? ⊤ htop).symm⟩
  have hbounds : (set.le.map Prod.fst).Pairwise (· < ·) :=
    List.pairwise_map.mpr (hascending.imp fun h => h.1)
  rw [hinit, List.pairwise_append] at hbounds
  have hfinite : ((init.map (WithTop.untopD 0)).map ((↑) : ℚ → Bound)) = init := by
    rw [List.map_map]
    conv_rhs => rw [← List.map_id init]
    apply List.map_congr_left
    intro le hle
    have hlt := hbounds.2.2 le hle ⊤ (List.mem_singleton_self ⊤)
    rcases WithTop.ne_top_iff_exists.mp hlt.ne with ⟨q, rfl⟩
    rfl
  have hascends : (init.map (WithTop.untopD 0)).Pairwise (· < ·) := by
    have hmapped := hbounds.1
    rw [← hfinite, List.pairwise_map] at hmapped
    exact hmapped.imp fun h => WithTop.coe_lt_coe.mp h
  refine ⟨⟨set.labels, init.map (WithTop.untopD 0), hascends, highest set.le, highest_nonneg set.le, highest_mono set.le⟩, ?_⟩
  unfold Recorded.published Recorded.bounds
  rw [hfinite, ← hinit, List.map_map]
  have hmap : set.le.map ((fun le => (le, highest set.le le)) ∘ Prod.fst) = set.le := by
    conv_rhs => rw [← List.map_id set.le]
    apply List.map_congr_left
    intro x hx
    exact Prod.ext rfl (highest_of_mem hascending hnonneg hx)
  rw [hmap]

end Recorded

section Folded

def Recorded.counted (r : Recorded) (le : Bound) : ℚ := if le ∈ r.bounds then r.atMost le else 0

def sums (sets : List Recorded) : List (Bits × ℚ) :=
  Sums.addAll (sets.flatMap fun r => r.bounds.map fun le => (toBits le, r.atMost le)) []

def folded (sets : List Recorded) : List Rung := (sums sets).map fun e => (fromBits e.1, e.2)

theorem under_published (r : Recorded) (le : Bound)
    : Sums.under (toBits le) (r.bounds.map fun b => (toBits b, r.atMost b)) = r.counted le := by
  unfold Recorded.counted
  have hnodup : r.bounds.Nodup := r.pairwise_bounds.imp fun h => h.ne
  generalize r.bounds = bounds at hnodup
  induction bounds with
  | nil => rfl
  | cons b bs ih =>
    rw [List.nodup_cons] at hnodup
    rw [List.map_cons, Sums.under_cons, ih hnodup.2]
    by_cases heq : b = le
    . rw [heq] at hnodup
      simp [heq, hnodup.1]
    . have hne : toBits b ≠ toBits le := fun h => heq (toBits_injective h)
      simp [hne, Ne.symm heq]

theorem under_sums (sets : List Recorded) (le : Bound)
    : Sums.under (toBits le) (sums sets) = (sets.map (·.counted le)).sum := by
  rw [sums, Sums.under_addAll]
  induction sets with
  | nil => simp [Sums.under]
  | cons r sets ih =>
    rw [List.flatMap_cons, Sums.under_append, under_published, List.map_cons, List.sum_cons, ← ih, add_left_comm]

theorem sorted_sums (sets : List Recorded) : ((sums sets).map Prod.fst).Pairwise (· < ·) :=
  Sums.sorted_addAll _ List.Pairwise.nil

theorem mem_keys_sums (sets : List Recorded) (bits : Bits)
    : bits ∈ (sums sets).map Prod.fst ↔ ∃ r ∈ sets, ∃ le ∈ r.bounds, toBits le = bits := by
  rw [sums, Sums.mem_keys_addAll]
  simp

theorem pairwise_folded (sets : List Recorded) : (folded sets).Pairwise fun x y => toBits x.1 < toBits y.1 := by
  have hsorted := sorted_sums sets
  rw [List.pairwise_map] at hsorted
  rw [folded, List.pairwise_map]
  apply hsorted.imp_of_mem
  intro e e' he he' hlt
  rcases (mem_keys_sums sets e.1).mp (List.mem_map_of_mem he) with ⟨_, _, le, _, hle⟩
  rcases (mem_keys_sums sets e'.1).mp (List.mem_map_of_mem he') with ⟨_, _, le', _, hle'⟩
  rw [← hle, ← hle', fromBits_toBits, fromBits_toBits, hle, hle']
  exact hlt

theorem mem_bounds_folded (sets : List Recorded) (le : Bound)
    : le ∈ (folded sets).map Prod.fst ↔ ∃ r ∈ sets, le ∈ r.bounds := by
  have hkeys : (folded sets).map Prod.fst = ((sums sets).map Prod.fst).map fromBits := by
    simp [folded]
  rw [hkeys, List.mem_map]
  constructor
  . rintro ⟨bits, hbits, rfl⟩
    rcases (mem_keys_sums sets bits).mp hbits with ⟨r, hr, le, hle, rfl⟩
    exact ⟨r, hr, by rw [fromBits_toBits]; exact hle⟩
  . rintro ⟨r, hr, hle⟩
    exact ⟨toBits le, (mem_keys_sums sets _).mpr ⟨r, hr, le, hle, rfl⟩, fromBits_toBits le⟩

theorem count_of_mem_folded {sets : List Recorded} {x : Rung} (hx : x ∈ folded sets)
    : x.2 = (sets.map (·.counted x.1)).sum := by
  rcases List.mem_map.mp hx with ⟨e, he, rfl⟩
  rcases (mem_keys_sums sets e.1).mp (List.mem_map_of_mem he) with ⟨r, hr, le, hle, hbits⟩
  rw [← under_sums, ← Sums.under_of_mem (sorted_sums sets) he, ← hbits, fromBits_toBits]

theorem Recorded.counted_le (r : Recorded) (le : Bound) : r.counted le ≤ r.atMost le := by
  unfold counted
  split
  . exact le_refl _
  . exact r.nonneg le

theorem sum_map_eq_iff {α : Type} {f g : α → ℚ} {xs : List α} (h : ∀ x ∈ xs, f x ≤ g x)
    : (xs.map f).sum = (xs.map g).sum ↔ ∀ x ∈ xs, f x = g x := by
  induction xs with
  | nil => simp
  | cons x xs ih =>
    rw [List.forall_mem_cons] at h
    have hrest := List.sum_le_sum h.2
    rw [List.map_cons, List.map_cons, List.sum_cons, List.sum_cons, List.forall_mem_cons, ← ih h.2]
    constructor
    . intro heq
      have hx := h.1
      constructor
      . linarith
      . linarith
    . rintro ⟨hx, hxs⟩
      rw [hx, hxs]

/--
A folded ladder says how many observations of all sets are at or below a bound of any.
-/
structure Faithful (sets : List Recorded) (rungs : List Rung) : Prop where
  ascending : rungs.Pairwise fun x y => x.1 < y.1 ∧ x.2 ≤ y.2
  bounds : ∀ le, le ∈ rungs.map Prod.fst ↔ ∃ r ∈ sets, le ∈ r.bounds
  counts : ∀ x ∈ rungs, x.2 = (sets.map (·.atMost x.1)).sum

/--
No bound is negative, and a set without a bound of another one observes nothing at or below it.
-/
structure Undistorted (sets : List Recorded) : Prop where
  nonneg : ∀ r ∈ sets, ∀ q ∈ r.finite, 0 ≤ q
  unmissed : ∀ r ∈ sets, ∀ le ∈ r.bounds, ∀ other ∈ sets, le ∉ other.bounds → other.atMost le = 0

theorem Undistorted.bounds_nonneg {sets : List Recorded} (h : Undistorted sets) {r : Recorded} (hr : r ∈ sets)
    {le : Bound} (hle : le ∈ r.bounds)
    : 0 ≤ le := by
  rcases List.mem_append.mp hle with hmem | hmem
  . rcases List.mem_map.mp hmem with ⟨q, hq, rfl⟩
    exact WithTop.coe_nonneg.mpr (h.nonneg r hr q hq)
  . rw [List.mem_singleton.mp hmem]
    exact le_top

theorem Undistorted.faithful {sets : List Recorded} (h : Undistorted sets) : Faithful sets (folded sets) := by
  have hcounts : ∀ x ∈ folded sets, x.2 = (sets.map (·.atMost x.1)).sum := by
    intro x hx
    rw [count_of_mem_folded hx]
    rcases (mem_bounds_folded sets x.1).mp (List.mem_map_of_mem hx) with ⟨r, hr, hle⟩
    apply congrArg List.sum
    apply List.map_congr_left
    intro other hother
    unfold Recorded.counted
    split
    . rfl
    . next hmissing => exact (h.unmissed r hr x.1 hle other hother hmissing).symm
  refine ⟨?_, mem_bounds_folded sets, hcounts⟩
  apply (pairwise_folded sets).imp_of_mem
  intro x y hx hy hlt
  rcases (mem_bounds_folded sets x.1).mp (List.mem_map_of_mem hx) with ⟨r, hr, hle⟩
  rcases (mem_bounds_folded sets y.1).mp (List.mem_map_of_mem hy) with ⟨r', hr', hle'⟩
  have hbound := (toBits_lt_toBits (h.bounds_nonneg hr hle) (h.bounds_nonneg hr' hle')).mp hlt
  refine ⟨hbound, ?_⟩
  rw [hcounts x hx, hcounts y hy]
  exact List.sum_le_sum fun other _ => other.monotone hbound.le

theorem Faithful.undistorted {sets : List Recorded} (h : Faithful sets (folded sets)) : Undistorted sets := by
  constructor
  . intro r hr q hq
    by_contra hneg
    have hlt : (q : Bound) < 0 := WithTop.coe_lt_coe.mpr (not_le.mp hneg)
    have hq' : (q : Bound) ∈ (folded sets).map Prod.fst :=
      (h.bounds q).mpr ⟨r, hr, List.mem_append_left _ (List.mem_map_of_mem hq)⟩
    have htop : (⊤ : Bound) ∈ (folded sets).map Prod.fst := (h.bounds ⊤).mpr ⟨r, hr, r.top_mem⟩
    have hboth : ((folded sets).map Prod.fst).Pairwise fun le le' => le < le' ∧ toBits le < toBits le' := by
      rw [List.pairwise_map]
      exact List.Pairwise.and (h.ascending.imp fun h => h.1) (pairwise_folded sets)
    -- Infinity is above `q` as a bound and below it as bits.
    obtain ⟨before, after, heq⟩ := List.append_of_mem hq'
    rw [heq, List.pairwise_append, List.pairwise_cons] at hboth
    rw [heq] at htop
    rcases List.mem_append.mp htop with hmem | hmem
    . exact absurd (hboth.2.2 ⊤ hmem q List.mem_cons_self).1 (not_lt.mpr le_top)
    . rcases List.mem_cons.mp hmem with heq | hmem
      . exact WithTop.coe_ne_top heq.symm
      . exact absurd (hboth.2.1.1 ⊤ hmem).2 (toBits_top_lt hlt).asymm
  . intro r hr le hle other hother hmissing
    rcases List.mem_map.mp ((h.bounds le).mpr ⟨r, hr, hle⟩) with ⟨x, hx, rfl⟩
    have hsums := (count_of_mem_folded hx).symm.trans (h.counts x hx)
    have heq := (sum_map_eq_iff fun other _ => other.counted_le x.1).mp hsums other hother
    rw [← heq, Recorded.counted, if_neg hmissing]

theorem faithful_iff_undistorted {sets : List Recorded} : Faithful sets (folded sets) ↔ Undistorted sets :=
  ⟨Faithful.undistorted, Undistorted.faithful⟩

end Folded

end Metrics
