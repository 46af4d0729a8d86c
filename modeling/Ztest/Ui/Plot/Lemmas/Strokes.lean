import Mathlib.Algebra.BigOperators.Ring.List
import Mathlib.Data.List.Induction
import Mathlib.Data.List.Nodup
import Ztest.Lib.Shares
import Ztest.Ui.Plot.Impl

/-!
This module contains what a column's sub-rows come to: they add up to the rounded height, a channel of zero
has none, and each positive channel has one where there are enough of them.

What a column paints has its levels follow one another from the bottom, so that no sub-cell is painted twice and
none above the raster.
-/

namespace Ui
namespace Plot

section Apportioned

open Shares

section Remainders

variable {exact : List Rat} {subH i : Nat}

theorem totalRows_le_floors (h : ∀ e ∈ exact, 0 ≤ e)
    : totalRows subH exact ≤ (floors exact).sum + exact.countP fun e => decide (0 < Int.fract e) := by
  have hsum := sum_le_sum_floors_add h
  unfold totalRows
  split_ifs with hpos
  . refine max_le ?_ (min_le_of_left_le ?_)
    . have hlt := lt_of_lt_of_le hpos hsum
      exact_mod_cast hlt
    . unfold roundUsize
      rw [Int.toNat_le, ← Int.lt_add_one_iff, Int.floor_lt]
      generalize (floors exact).sum = floor at hsum ⊢
      push_cast at hsum ⊢
      linarith
  . omega

theorem floors_le_totalRows (h : ∀ e ∈ exact, 0 ≤ e) (hle : exact.sum ≤ subH)
    : (floors exact).sum ≤ totalRows subH exact := by
  have hsum := sum_floors_le h
  unfold totalRows
  split_ifs with hpos
  . refine le_max_of_le_right (le_min ?_ ?_)
    . unfold roundUsize
      have hfloor : (((floors exact).sum : Nat) : Int) ≤ ⌊exact.sum + 1 / 2⌋ := by
        rw [Int.le_floor]
        generalize (floors exact).sum = floor at hsum ⊢
        push_cast
        linarith
      omega
    . exact_mod_cast hsum.trans hle
  . have hzero : ((floors exact).sum : Rat) ≤ 0 := hsum.trans (not_lt.mp hpos)
    exact (Nat.le_zero.mp (by exact_mod_cast hzero)).le

theorem remainderOrder_perm (exact : List Rat) : (remainderOrder exact).Perm (List.range exact.length) :=
  List.mergeSort_perm ..

theorem remainderOrder_sorted (exact : List Rat)
    : (remainderOrder exact).Pairwise fun a b => remainder exact b ≤ remainder exact a := by
  have hsorted := @List.pairwise_mergeSort Nat (fun a b =>
    decide (remainder exact b < remainder exact a ∨ remainder exact b = remainder exact a ∧ a ≤ b))
    (by
      intro a b c hab hbc
      simp only [decide_eq_true_eq] at hab hbc ⊢
      rcases hab with hab | ⟨hab, hle⟩
      . rcases hbc with hbc | ⟨hbc, _⟩
        . exact .inl (hbc.trans hab)
        . exact .inl (hbc ▸ hab)
      . rcases hbc with hbc | ⟨hbc, hle'⟩
        . exact .inl (hab ▸ hbc)
        . exact .inr ⟨hbc.trans hab, hle.trans hle'⟩)
    (by
      intro a b
      simp only [Bool.or_eq_true, decide_eq_true_eq]
      rcases lt_trichotomy (remainder exact a) (remainder exact b) with hlt | heq | hgt
      . exact .inr (.inl hlt)
      . rcases le_total a b with hle | hle
        . exact .inl (.inr ⟨heq.symm, hle⟩)
        . exact .inr (.inr ⟨heq, hle⟩)
      . exact .inl (.inl hgt))
    (List.range exact.length)
  apply hsorted.imp
  intro a b h
  simp only [decide_eq_true_eq] at h
  rcases h with hlt | ⟨heq, _⟩
  . exact hlt.le
  . exact heq.le

theorem countP_remainder (exact : List Rat)
    : (remainderOrder exact).countP (fun i => decide (0 < remainder exact i)) =
      exact.countP fun e => decide (0 < Int.fract e) := by
  have hmap : (List.range exact.length).map (exact.getD · 0) = exact := by
    apply List.ext_getElem
    . simp
    . intro i hi hi'
      simp [hi']
  rw [(remainderOrder_perm exact).countP_eq]
  conv_rhs => rw [← hmap, List.countP_map]
  rfl

theorem cycleTake_eq_take {order : List Nat} {n : Nat} (h : n ≤ order.length) : cycleTake order n = order.take n := by
  unfold cycleTake
  cases n with
  | zero => rfl
  | succ n => rw [List.replicate_succ, List.flatten_cons, List.take_append_of_le_length h]

theorem handed (h : ∀ e ∈ exact, 0 ≤ e)
    : let given := cycleTake (remainderOrder exact) (totalRows subH exact - (floors exact).sum)
      given.length = totalRows subH exact - (floors exact).sum ∧ ∀ i ∈ given, i < exact.length ∧ 0 < remainder exact i := by
  have hle : totalRows subH exact - (floors exact).sum ≤
      (remainderOrder exact).countP fun i => decide (0 < remainder exact i) := by
    rw [countP_remainder]
    have := @totalRows_le_floors exact subH h
    omega
  have hlen := hle.trans List.countP_le_length
  dsimp only
  rw [cycleTake_eq_take hlen]
  refine ⟨List.length_take_of_le hlen, fun i hi => ⟨?_, ?_⟩⟩
  . exact List.mem_range.mp ((remainderOrder_perm exact).mem_iff.mp (List.mem_of_mem_take hi))
  . have hsorted : (remainderOrder exact).Pairwise fun a b =>
        decide (0 < remainder exact b) = true → decide (0 < remainder exact a) = true := by
      apply (remainderOrder_sorted exact).imp
      intro a b hab hb
      simp only [decide_eq_true_eq] at hb ⊢
      exact hb.trans_le hab
    simpa using of_mem_take hsorted hle i hi

theorem length_largestRemainder : (largestRemainder subH exact).length = exact.length := by
  unfold largestRemainder addRow
  dsimp only
  rw [length_foldl_succ, List.length_map]

theorem sum_largestRemainder (h : ∀ e ∈ exact, 0 ≤ e) (hle : exact.sum ≤ subH)
    : (largestRemainder subH exact).sum = totalRows subH exact := by
  have hgiven := @handed exact subH h
  have hfloors := floors_le_totalRows h hle
  unfold largestRemainder addRow
  dsimp only at hgiven ⊢
  unfold floors at hgiven hfloors
  rw [sum_foldl_succ, hgiven.1]
  . omega
  . intro i hi
    rw [List.length_map]
    exact (hgiven.2 i hi).1

theorem largestRemainder_zero (h : ∀ e ∈ exact, 0 ≤ e) (hi : exact.getD i 0 = 0)
    : (largestRemainder subH exact).getD i 0 = 0 := by
  have hgiven := @handed exact subH h
  unfold largestRemainder addRow
  dsimp only at hgiven ⊢
  unfold floors at hgiven
  rw [getD_foldl_succ, List.count_eq_zero_of_not_mem, Nat.add_zero]
  . rw [List.getD_eq_getElem?_getD, List.getElem?_map]
    cases hget : exact[i]? with
    | none => rfl
    | some e =>
      rw [List.getD_eq_getElem?_getD, hget] at hi
      rw [Option.map_some, Option.getD_some, show e = 0 from hi]
      rfl
  . intro hmem
    have := (hgiven.2 i hmem).2
    unfold remainder at this
    rw [hi] at this
    simp at this
  . intro i hi
    rw [List.length_map]
    exact (hgiven.2 i hi).1

end Remainders

section Lending

variable {key : Nat → Nat} {indices rows is : List Nat} {values : List Rat} {i d : Nat}

theorem maxByKey_append (key : Nat → Nat) (indices : List Nat) (j : Nat)
    : maxByKey key (indices ++ [j])
        =
      match maxByKey key indices with
      | none => some j
      | some b => if key b ≤ key j then some j else some b := by
  unfold maxByKey
  rw [List.foldl_append]
  rfl

theorem maxByKey_spec (key : Nat → Nat) (indices : List Nat)
    : match maxByKey key indices with
      | none => indices = []
      | some b => b ∈ indices ∧ ∀ j ∈ indices, key j ≤ key b := by
  induction indices using List.reverseRecOn with
  | nil => rfl
  | append_singleton indices j ih =>
    rw [maxByKey_append]
    cases hbest : maxByKey key indices with
    | none =>
      rw [hbest] at ih
      subst ih
      simp
    | some b =>
      rw [hbest] at ih
      dsimp only
      split_ifs with hle
      . refine ⟨by simp, fun k hk => ?_⟩
        rcases List.mem_append.mp hk with hk | hk
        . exact (ih.2 k hk).trans hle
        . rw [List.mem_singleton.mp hk]
      . refine ⟨List.mem_append_left _ ih.1, fun k hk => ?_⟩
        rcases List.mem_append.mp hk with hk | hk
        . exact ih.2 k hk
        . rw [List.mem_singleton.mp hk]
          omega

theorem donor_some (h : donor rows = some d) : d < rows.length ∧ 1 < rows.getD d 0 := by
  have hspec := maxByKey_spec (rows.getD · 0) (List.range rows.length)
  unfold donor at h
  rw [Option.filter_eq_some_iff] at h
  rw [h.1] at hspec
  exact ⟨List.mem_range.mp hspec.1, by simpa using h.2⟩

theorem donor_none (h : donor rows = none) (j : Nat) (hj : j < rows.length) : rows.getD j 0 ≤ 1 := by
  have hspec := maxByKey_spec (rows.getD · 0) (List.range rows.length)
  unfold donor at h
  rw [Option.filter_eq_none_iff] at h
  cases hbest : maxByKey (rows.getD · 0) (List.range rows.length) with
  | none =>
    rw [hbest] at hspec
    rw [List.range_eq_nil.mp hspec] at hj
    omega
  | some b =>
    rw [hbest] at hspec
    have hb := h b hbest
    have hj' := hspec.2 j (List.mem_range.mpr hj)
    simp only [decide_eq_true_eq] at hb
    omega

theorem lent_spec (hi : i < rows.length) (hzero : rows.getD i 0 = 0) (hd : donor rows = some d)
    : (addRow (takeRow rows d) i).length = rows.length ∧
      (addRow (takeRow rows d) i).sum = rows.sum ∧
      ∀ j, (addRow (takeRow rows d) i).getD j 0 =
        if j = i then 1 else if j = d then rows.getD d 0 - 1 else rows.getD j 0 := by
  rcases donor_some hd with ⟨hdlen, hdrows⟩
  have hne : d ≠ i := by
    rintro rfl
    omega
  have htaken : ∀ j, (takeRow rows d).getD j 0 = if d = j then rows.getD j 0 - 1 else rows.getD j 0 :=
    getD_modify hdlen
  have hlen : (takeRow rows d).length = rows.length := List.length_modify ..
  have hi' : i < (takeRow rows d).length := by omega
  refine ⟨by rw [addRow, List.length_modify, hlen], ?_, fun j => ?_⟩
  . have htook : (takeRow rows d).sum + rows.getD d 0 = rows.sum + (rows.getD d 0 - 1) := sum_modify hdlen
    have hgave : (addRow (takeRow rows d) i).sum + (takeRow rows d).getD i 0 =
        (takeRow rows d).sum + ((takeRow rows d).getD i 0 + 1) := sum_modify hi'
    omega
  . have hadded : (addRow (takeRow rows d) i).getD j 0 =
        if i = j then (takeRow rows d).getD j 0 + 1 else (takeRow rows d).getD j 0 := getD_modify hi' j
    rw [hadded, htaken]
    split_ifs <;> subst_vars <;> omega

theorem lend_spec (his : ∀ i ∈ is, i < rows.length)
    : (lend values rows is).length = rows.length ∧ (lend values rows is).sum = rows.sum ∧
      ∀ j, values.getD j 0 ≤ 0 → rows.getD j 0 = 0 → (lend values rows is).getD j 0 = 0 := by
  induction is generalizing rows with
  | nil => exact ⟨rfl, rfl, fun j _ h => h⟩
  | cons i is ih =>
    rw [List.forall_mem_cons] at his
    rw [lend]
    split_ifs with hskip
    . exact ih his.2
    . cases hd : donor rows with
      | none => exact ⟨rfl, rfl, fun j _ h => h⟩
      | some d =>
        simp only [not_or, not_lt, not_le, Nat.le_zero] at hskip
        rcases lent_spec his.1 hskip.1 hd with ⟨hlen, hsum, hget⟩
        have hrest := @ih (addRow (takeRow rows d) i) (by rw [hlen]; exact his.2)
        refine ⟨hrest.1.trans hlen, hrest.2.1.trans hsum, fun j hj hzero => hrest.2.2 j hj ?_⟩
        have hji : j ≠ i := by
          rintro rfl
          exact absurd hj (not_le.mpr hskip.2)
        have hjd : j ≠ d := by
          rintro rfl
          have := (donor_some hd).2
          omega
        rw [hget, if_neg hji, if_neg hjd, hzero]

theorem lend_covers (his : ∀ i ∈ is, i < rows.length)
    (hwant : (List.range rows.length).countP (fun j => decide (0 < values.getD j 0)) ≤ rows.sum)
    (hzero : ∀ j, values.getD j 0 ≤ 0 → rows.getD j 0 = 0) {j : Nat} (hj : 0 < values.getD j 0)
    (hseen : j ∈ is ∨ 0 < rows.getD j 0)
    : 0 < (lend values rows is).getD j 0 := by
  induction is generalizing rows with
  | nil =>
    rcases hseen with hmem | hpos
    . cases hmem
    . exact hpos
  | cons i is ih =>
    rw [List.forall_mem_cons] at his
    rw [lend]
    split_ifs with hskip
    . apply ih his.2 hwant hzero
      rcases hseen with hmem | hpos
      . rcases List.mem_cons.mp hmem with rfl | hmem
        . exact .inr (hskip.resolve_right (not_le.mpr hj))
        . exact .inl hmem
      . exact .inr hpos
    . simp only [not_or, not_lt, not_le, Nat.le_zero] at hskip
      cases hd : donor rows with
      | none =>
        have hmore := exists_one_lt hwant (fun j hj => hzero j (by simpa using hj)) his.1
          (by simpa using hskip.2) hskip.1
        rcases hmore with ⟨k, hk, hlt⟩
        have := donor_none hd k hk
        omega
      | some d =>
        rcases lent_spec his.1 hskip.1 hd with ⟨hlen, hsum, hget⟩
        have hdrows := (donor_some hd).2
        apply @ih (addRow (takeRow rows d) i) (by rw [hlen]; exact his.2) (by rw [hlen, hsum]; exact hwant)
        . intro k hk
          have hki : k ≠ i := by
            rintro rfl
            exact absurd hk (not_le.mpr hskip.2)
          have hkd : k ≠ d := by
            rintro rfl
            have := hzero k hk
            omega
          rw [hget, if_neg hki, if_neg hkd, hzero k hk]
        . rw [hget]
          rcases hseen with hmem | hpos
          . rcases List.mem_cons.mp hmem with rfl | hmem
            . exact .inr (by simp)
            . exact .inl hmem
          . right
            split_ifs <;> omega

end Lending

section Column

variable {values : List Rat} {ceiling : Rat} {subH : Nat}

-- The rounded height of a column, at least one row where anything is positive.
def height (values : List Rat) (ceiling : Rat) (subH : Nat) : Nat :=
  if 0 < values.sum then max 1 (roundUsize (values.sum / ceiling * subH)) else 0

theorem exactRows_nonneg (e : Rat) (he : e ∈ exactRows values ceiling subH) : 0 ≤ e := by
  rcases List.mem_map.mp he with ⟨v, _, rfl⟩
  exact mul_nonneg (le_max_left _ _) (Nat.cast_nonneg _)

theorem clamp_of_le {v : Rat} (hceiling : 0 < ceiling) (hv : 0 ≤ v) (hle : v ≤ ceiling)
    : clamp (v / ceiling) = v / ceiling := by
  unfold clamp
  rw [min_eq_left ((div_le_one hceiling).mpr hle), max_eq_right (div_nonneg hv hceiling.le)]

theorem sum_exactRows (hvalues : ∀ v ∈ values, 0 ≤ v) (hceiling : 0 < ceiling) (hsum : values.sum ≤ ceiling)
    : (exactRows values ceiling subH).sum = values.sum / ceiling * subH := by
  have hscale : exactRows values ceiling subH = values.map fun v => v * (subH / ceiling) := by
    apply List.map_congr_left
    intro v hv
    have hle : v ≤ ceiling := (List.single_le_sum hvalues v hv).trans hsum
    rw [clamp_of_le hceiling (hvalues v hv) hle]
    ring
  rw [hscale, List.sum_map_mul_right, List.map_id']
  ring

theorem sum_exactRows_le (hceiling : 0 < ceiling) (hvalues : ∀ v ∈ values, 0 ≤ v) (hsum : values.sum ≤ ceiling)
    : (exactRows values ceiling subH).sum ≤ subH := by
  rw [sum_exactRows hvalues hceiling hsum]
  have hone : values.sum / ceiling ≤ 1 := (div_le_one hceiling).mpr hsum
  have := mul_le_mul_of_nonneg_right hone (Nat.cast_nonneg (α := Rat) subH)
  rwa [one_mul] at this

theorem totalRows_eq_height (hvalues : ∀ v ∈ values, 0 ≤ v) (hceiling : 0 < ceiling)
    (hsum : values.sum ≤ ceiling) (hsub : 1 ≤ subH)
    : totalRows subH (exactRows values ceiling subH) = height values ceiling subH := by
  have hexact := @sum_exactRows values ceiling subH hvalues hceiling hsum
  have hle := @sum_exactRows_le values ceiling subH hceiling hvalues hsum
  have hpos : 0 < (exactRows values ceiling subH).sum ↔ 0 < values.sum := by
    have hsub' : (0 : Rat) < subH := by exact_mod_cast hsub
    rw [hexact, mul_pos_iff_of_pos_right hsub', div_pos_iff_of_pos_right hceiling]
  have hround : roundUsize (exactRows values ceiling subH).sum ≤ subH := by
    unfold roundUsize
    rw [Int.toNat_le, ← Int.lt_add_one_iff, Int.floor_lt]
    push_cast
    linarith
  unfold totalRows height
  rw [if_congr hpos rfl rfl, min_eq_left hround, hexact]

theorem getD_exactRows_zero {i : Nat} (hi : values.getD i 0 = 0) : (exactRows values ceiling subH).getD i 0 = 0 := by
  unfold exactRows
  rw [List.getD_eq_getElem?_getD, List.getElem?_map]
  cases hget : values[i]? with
  | none => rfl
  | some v =>
    rw [List.getD_eq_getElem?_getD, hget] at hi
    rw [Option.map_some, Option.getD_some, show v = 0 from hi]
    simp [clamp]

theorem length_rows : (largestRemainder subH (exactRows values ceiling subH)).length = values.length := by
  rw [length_largestRemainder, exactRows, List.length_map]

theorem length_apportion : (apportion values ceiling subH).length = values.length := by
  unfold apportion
  rw [(lend_spec fun i hi => List.mem_range.mp hi).1, length_rows]

theorem sum_apportion (hvalues : ∀ v ∈ values, 0 ≤ v) (hceiling : 0 < ceiling) (hsum : values.sum ≤ ceiling)
    (hsub : 1 ≤ subH)
    : (apportion values ceiling subH).sum = height values ceiling subH := by
  unfold apportion
  rw [(lend_spec fun i hi => List.mem_range.mp hi).2.1,
    sum_largestRemainder exactRows_nonneg (sum_exactRows_le hceiling hvalues hsum),
    totalRows_eq_height hvalues hceiling hsum hsub]

theorem rows_zero (hvalues : ∀ v ∈ values, 0 ≤ v) {i : Nat} (hi : values.getD i 0 ≤ 0)
    : (largestRemainder subH (exactRows values ceiling subH)).getD i 0 = 0 := by
  apply largestRemainder_zero exactRows_nonneg
  apply getD_exactRows_zero
  apply le_antisymm hi
  rw [List.getD_eq_getElem?_getD]
  cases hget : values[i]? with
  | none => exact le_rfl
  | some v => exact hvalues v (List.mem_of_getElem? hget)

theorem apportion_zero (hvalues : ∀ v ∈ values, 0 ≤ v) {i : Nat} (hi : values.getD i 0 ≤ 0)
    : (apportion values ceiling subH).getD i 0 = 0 :=
  (lend_spec fun _ hj => List.mem_range.mp hj).2.2 i hi (rows_zero hvalues hi)

theorem countP_positive (values : List Rat)
    : ((List.range values.length).countP fun j => decide (0 < values.getD j 0)) =
      values.countP fun v => decide (0 < v) := by
  have hmap : (List.range values.length).map (values.getD · 0) = values := by
    apply List.ext_getElem
    . simp
    . intro i hi hi'
      simp [hi']
  conv_rhs => rw [← hmap, List.countP_map]
  rfl

theorem apportion_pos (hvalues : ∀ v ∈ values, 0 ≤ v) (hceiling : 0 < ceiling) (hsum : values.sum ≤ ceiling)
    (hsub : 1 ≤ subH) (henough : values.countP (fun v => decide (0 < v)) ≤ height values ceiling subH) {i : Nat}
    (hi : 0 < values.getD i 0)
    : 0 < (apportion values ceiling subH).getD i 0 := by
  have hlen := @length_rows values ceiling subH
  have hilt : i < values.length := by
    by_contra hnot
    rw [List.getD_eq_getElem?_getD, List.getElem?_eq_none (not_lt.mp hnot)] at hi
    exact lt_irrefl _ hi
  apply lend_covers (fun _ hj => List.mem_range.mp hj) _ (fun _ hj => rows_zero hvalues hj) hi
  . left
    rw [List.mem_range, hlen]
    exact hilt
  . rw [hlen, countP_positive, sum_largestRemainder exactRows_nonneg (sum_exactRows_le hceiling hvalues hsum),
      totalRows_eq_height hvalues hceiling hsum hsub]
    exact henough

end Column

end Apportioned

section Levels

variable {ceiling : Rat} {subH : Nat} {column : List Band}

theorem stack_levels (channel : Nat) (segments : List ((Rat × Rat) × Nat)) (level : Nat)
    : (stack channel segments level).map Prod.fst = List.range' level (segments.map Prod.snd).sum := by
  induction segments generalizing channel level with
  | nil => rfl
  | cons s segments ih =>
    rcases s with ⟨band, n⟩
    have hsegment : (segment channel band n level).map Prod.fst = List.range' level n := by
      unfold segment
      rw [List.map_map, List.range'_eq_map_range]
      rfl
    rw [stack, List.map_append, ih, hsegment, List.map_cons, List.sum_cons, List.range'_append_1]

-- The tops of the channels below the first one that was not observed.
def tops (column : List Band) : List Rat := (observed column).map Prod.snd

theorem strokes_levels (hall : column.all Option.isNone = false)
    : (strokes ceiling subH column).map Prod.fst =
      List.range' 0 (apportion (tops column) ceiling subH).sum ++
        if (observed column).length < column.length then
          List.range' (apportion (tops column) ceiling subH).sum
            (subH - (apportion (tops column) ceiling subH).sum)
        else
          [] := by
  have hlen : (observed column).length = (apportion (tops column) ceiling subH).length := by
    rw [length_apportion, tops, List.length_map]
  unfold strokes
  rw [hall, if_neg (by simp)]
  dsimp only
  rw [show (observed column).map Prod.snd = tops column from rfl]
  rw [List.map_append, stack_levels, List.map_snd_zip hlen.ge]
  split_ifs
  . rw [List.map_map]
    exact congrArg _ (List.map_id _)
  . rfl

theorem sum_apportion_le (hvalues : ∀ v ∈ tops column, 0 ≤ v) (hceiling : 0 < ceiling) (hsum : (tops column).sum ≤ ceiling)
    (hsub : 1 ≤ subH)
    : (apportion (tops column) ceiling subH).sum ≤ subH := by
  rw [sum_apportion hvalues hceiling hsum hsub, ← totalRows_eq_height hvalues hceiling hsum hsub]
  unfold totalRows
  split_ifs
  . exact max_le hsub (min_le_right _ _)
  . omega

theorem strokes_range (hvalues : ∀ v ∈ tops column, 0 ≤ v) (hceiling : 0 < ceiling)
    (hsum : (tops column).sum ≤ ceiling) (hsub : 1 ≤ subH)
    : ∃ n, n ≤ subH ∧ (strokes ceiling subH column).map Prod.fst = List.range n := by
  cases hall : column.all Option.isNone with
  | true =>
    refine ⟨0, Nat.zero_le _, ?_⟩
    unfold strokes
    rw [hall, if_pos rfl]
    rfl
  | false =>
    have hle := sum_apportion_le hvalues hceiling hsum hsub
    rw [strokes_levels hall]
    split_ifs
    . refine ⟨subH, le_refl _, ?_⟩
      have happend := @List.range'_append_1 0 (apportion (tops column) ceiling subH).sum
        (subH - (apportion (tops column) ceiling subH).sum)
      rw [Nat.zero_add, Nat.add_sub_cancel' hle] at happend
      rw [happend, List.range_eq_range']
    . refine ⟨_, hle, ?_⟩
      rw [List.append_nil, List.range_eq_range']

end Levels

section Paint

variable {r : Raster} {x : Nat} {painted : List (Nat × Sub)}

theorem rowOf_inj {a b : Nat} (ha : a < r.subH) (hb : b < r.subH) (h : r.rowOf a = r.rowOf b) : a = b := by
  unfold Raster.rowOf at h
  omega

theorem cellIndex_inj {y y' x' : Nat} (hx : x < r.subW) (hx' : x' < r.subW)
    (h : y * r.subW + x = y' * r.subW + x')
    : y = y' ∧ x = x' := by
  have hpos : 0 < r.subW := by omega
  have hdiv : (y * r.subW + x) / r.subW = (y' * r.subW + x') / r.subW := by rw [h]
  have hmod : (y * r.subW + x) % r.subW = (y' * r.subW + x') % r.subW := by rw [h]
  rw [Nat.mul_comm, Nat.mul_comm y'] at hdiv hmod
  rw [Nat.mul_add_div hpos, Nat.mul_add_div hpos, Nat.div_eq_of_lt hx, Nat.div_eq_of_lt hx'] at hdiv
  rw [Nat.mul_add_mod, Nat.mul_add_mod, Nat.mod_eq_of_lt hx, Nat.mod_eq_of_lt hx'] at hmod
  exact ⟨by omega, hmod⟩

theorem set_size (level : Nat) (sub : Sub)
    : (r.set x level sub).subW = r.subW ∧ (r.set x level sub).subH = r.subH ∧
      (r.set x level sub).ceiling = r.ceiling ∧ (r.set x level sub).cells.length = r.cells.length := by
  unfold Raster.set
  split_ifs
  . simp
  . simp

theorem atCell_set {level : Nat} {sub : Sub} (hx : x < r.subW) (hlevel : level < r.subH)
    (hcells : r.cells.length = r.subW * r.subH) {x' y : Nat} (hx' : x' < r.subW)
    : (r.set x level sub).atCell x' y = if x' = x ∧ y = r.rowOf level then some sub else r.atCell x' y := by
  have hrow : r.rowOf level * r.subW + x < r.cells.length := by
    have hlt : r.rowOf level + 1 ≤ r.subH := by
      unfold Raster.rowOf
      omega
    have := Nat.mul_le_mul_right r.subW hlt
    rw [hcells, Nat.mul_comm r.subW]
    rw [Nat.add_mul] at this
    omega
  unfold Raster.set Raster.atCell
  rw [if_pos ⟨hx, hlevel⟩]
  dsimp only
  rw [List.getElem?_set]
  by_cases h : x' = x ∧ y = r.rowOf level
  . rcases h with ⟨rfl, rfl⟩
    rw [if_pos rfl, if_pos hrow, if_pos ⟨rfl, rfl⟩]
    rfl
  . have hne : ¬r.rowOf level * r.subW + x = y * r.subW + x' := by
      intro heq
      rcases cellIndex_inj hx hx' heq with ⟨hy, hxx⟩
      exact h ⟨hxx.symm, hy.symm⟩
    rw [if_neg hne, if_neg h]

def paint (r : Raster) (x : Nat) (painted : List (Nat × Sub)) : Raster :=
  painted.foldl (fun r s => r.set x s.1 s.2) r

theorem paint_size (r : Raster) (x : Nat) (painted : List (Nat × Sub))
    : (paint r x painted).subW = r.subW ∧ (paint r x painted).subH = r.subH ∧
      (paint r x painted).ceiling = r.ceiling ∧ (paint r x painted).cells.length = r.cells.length := by
  induction painted generalizing r with
  | nil => exact ⟨rfl, rfl, rfl, rfl⟩
  | cons s painted ih =>
    have hset := @set_size r x s.1 s.2
    have hrest := ih (r.set x s.1 s.2)
    exact ⟨hrest.1.trans hset.1, hrest.2.1.trans hset.2.1, hrest.2.2.1.trans hset.2.2.1,
      hrest.2.2.2.trans hset.2.2.2⟩

theorem atCell_paint_of_ne (hx : x < r.subW) (hcells : r.cells.length = r.subW * r.subH)
    (hlevels : ∀ s ∈ painted, s.1 < r.subH) {x' y : Nat} (hx' : x' < r.subW)
    (hfree : ∀ s ∈ painted, ¬(x' = x ∧ y = r.rowOf s.1))
    : (paint r x painted).atCell x' y = r.atCell x' y := by
  induction painted generalizing r with
  | nil => rfl
  | cons s painted ih =>
    rw [List.forall_mem_cons] at hlevels hfree
    have hset := @set_size r x s.1 s.2
    have hrow : ∀ level, (r.set x s.1 s.2).rowOf level = r.rowOf level := by
      intro level
      rw [Raster.rowOf, Raster.rowOf, hset.2.1]
    have hrest := @ih (r.set x s.1 s.2) (by rw [hset.1]; exact hx) (by rw [hset.1, hset.2.1, hset.2.2.2, hcells])
      (by rw [hset.2.1]; exact hlevels.2) (by rw [hset.1]; exact hx') (by simp only [hrow]; exact hfree.2)
    exact hrest.trans ((atCell_set hx hlevels.1 hcells hx').trans (if_neg hfree.1))

theorem atCell_paint (hx : x < r.subW) (hcells : r.cells.length = r.subW * r.subH)
    (hlevels : ∀ s ∈ painted, s.1 < r.subH) (hnodup : (painted.map Prod.fst).Nodup)
    : ∀ s ∈ painted, (paint r x painted).atCell x (r.rowOf s.1) = some s.2 := by
  induction painted generalizing r with
  | nil =>
    intro s hs
    cases hs
  | cons s painted ih =>
    rw [List.forall_mem_cons] at hlevels
    rw [List.map_cons, List.nodup_cons] at hnodup
    have hset := @set_size r x s.1 s.2
    have hrow : ∀ level, (r.set x s.1 s.2).rowOf level = r.rowOf level := by
      intro level
      rw [Raster.rowOf, Raster.rowOf, hset.2.1]
    have hx' : x < (r.set x s.1 s.2).subW := by rwa [hset.1]
    have hcells' : (r.set x s.1 s.2).cells.length = (r.set x s.1 s.2).subW * (r.set x s.1 s.2).subH := by
      rw [hset.1, hset.2.1, hset.2.2.2, hcells]
    have hlevels' : ∀ s' ∈ painted, s'.1 < (r.set x s.1 s.2).subH := by
      rw [hset.2.1]
      exact hlevels.2
    rw [List.forall_mem_cons]
    constructor
    . have hfree : ∀ s' ∈ painted, ¬(x = x ∧ r.rowOf s.1 = (r.set x s.1 s.2).rowOf s'.1) := by
        rintro s' hs' ⟨_, heq⟩
        rw [hrow] at heq
        have := rowOf_inj hlevels.1 (hlevels.2 s' hs') heq
        exact hnodup.1 (this ▸ List.mem_map_of_mem hs')
      have hkept := atCell_paint_of_ne hx' hcells' hlevels' hx' hfree
      exact hkept.trans ((atCell_set hx hlevels.1 hcells hx).trans (if_pos ⟨rfl, rfl⟩))
    . have hrest := ih hx' hcells' hlevels' hnodup.2
      simp only [hrow] at hrest
      exact hrest

end Paint

structure PaintsOnce (raster : Raster) (x : Nat) (channels : List (List Band)) : Prop where
  inside : ∀ s ∈ strokes raster.ceiling raster.subH (columnAt channels x), s.1 < raster.subH
  once : ((strokes raster.ceiling raster.subH (columnAt channels x)).map fun s => raster.rowOf s.1).Nodup
  -- Each stroke is there when the column is done.
  kept : x < raster.subW → raster.cells.length = raster.subW * raster.subH →
    ∀ s ∈ strokes raster.ceiling raster.subH (columnAt channels x),
      (paintColumn raster x channels).atCell x (raster.rowOf s.1) = some s.2

theorem paintColumn_once {raster : Raster} {x : Nat} {channels : List (List Band)}
    (hvalues : ∀ v ∈ tops (columnAt channels x), 0 ≤ v) (hceiling : 0 < raster.ceiling)
    (hsum : (tops (columnAt channels x)).sum ≤ raster.ceiling) (hsub : 1 ≤ raster.subH)
    : PaintsOnce raster x channels := by
  rcases strokes_range hvalues hceiling hsum hsub with ⟨n, hn, hrange⟩
  have hinside : ∀ s ∈ strokes raster.ceiling raster.subH (columnAt channels x), s.1 < raster.subH := by
    intro s hs
    have hmem := List.mem_map_of_mem (f := Prod.fst) hs
    rw [hrange, List.mem_range] at hmem
    omega
  have hnodup : ((strokes raster.ceiling raster.subH (columnAt channels x)).map Prod.fst).Nodup := by
    rw [hrange]
    exact List.nodup_range
  refine ⟨hinside, ?_, fun hx hcells => atCell_paint hx hcells hinside hnodup⟩
  have hrows : (strokes raster.ceiling raster.subH (columnAt channels x)).map (fun s => raster.rowOf s.1) =
      ((strokes raster.ceiling raster.subH (columnAt channels x)).map Prod.fst).map raster.rowOf := by
    rw [List.map_map]
    rfl
  rw [hrows, hrange]
  refine List.Nodup.map_on ?_ List.nodup_range
  intro a ha b hb heq
  rw [List.mem_range] at ha hb
  exact rowOf_inj (by omega) (by omega) heq

end Plot
end Ui
