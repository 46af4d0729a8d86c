import Mathlib.Data.List.Fold
import Mathlib.Data.List.MinMax
import Mathlib.Data.List.ReduceOption
import Mathlib.Tactic.NormNum
import Ztest.Lib.Tiles
import Ztest.Ui.Plot.Lemmas.Strokes

/-!
This module contains the columns of a whole plot. The windows of a resampled series tile the input, so
that each band feeds one column. The ceiling a plot is drawn to holds each column, and what a column paints
is there when all of them are done.
-/

namespace Ui
namespace Plot

section Resampled

open Tiles

section Union

variable {bands : List (Rat × Rat)} {b : Rat × Rat}

-- `r` spans `bands`, and both its ends are ends of one of them.
structure Spans (r : Rat × Rat) (bands : List (Rat × Rat)) : Prop where
  covers : ∀ b ∈ bands, r.1 ≤ b.1 ∧ b.2 ≤ r.2
  low : ∃ b ∈ bands, b.1 = r.1
  high : ∃ b ∈ bands, b.2 = r.2

theorem foldl_spans (acc : Rat × Rat) (bands : List (Rat × Rat))
    : Spans (bands.foldl (fun a b => (min a.1 b.1, max a.2 b.2)) acc) (acc :: bands) := by
  induction bands generalizing acc with
  | nil =>
    refine ⟨fun b hb => ?_, ⟨acc, by simp, rfl⟩, ⟨acc, by simp, rfl⟩⟩
    rw [List.mem_singleton.mp hb]
    exact ⟨le_refl _, le_refl _⟩
  | cons b bands ih =>
    have hrest := ih (min acc.1 b.1, max acc.2 b.2)
    rw [List.foldl_cons]
    rcases hrest with ⟨hcovers, ⟨lo, hlo, hloeq⟩, ⟨hi, hhi, hhieq⟩⟩
    rw [List.forall_mem_cons] at hcovers
    refine ⟨?_, ?_, ?_⟩
    . rw [List.forall_mem_cons, List.forall_mem_cons]
      refine ⟨⟨?_, ?_⟩, ⟨?_, ?_⟩, hcovers.2⟩
      . exact hcovers.1.1.trans (min_le_left _ _)
      . exact (le_max_left _ _).trans hcovers.1.2
      . exact hcovers.1.1.trans (min_le_right _ _)
      . exact (le_max_right _ _).trans hcovers.1.2
    . rcases List.mem_cons.mp hlo with rfl | hmem
      . rcases min_choice acc.1 b.1 with hmin | hmin
        . exact ⟨acc, by simp, hmin.symm.trans hloeq⟩
        . exact ⟨b, by simp, hmin.symm.trans hloeq⟩
      . exact ⟨lo, by simp [hmem], hloeq⟩
    . rcases List.mem_cons.mp hhi with rfl | hmem
      . rcases max_choice acc.2 b.2 with hmax | hmax
        . exact ⟨acc, by simp, hmax.symm.trans hhieq⟩
        . exact ⟨b, by simp, hmax.symm.trans hhieq⟩
      . exact ⟨hi, by simp [hmem], hhieq⟩

theorem union_spans (h : union bands = some b) : Spans b bands := by
  cases bands with
  | nil => cases h
  | cons a bands =>
    cases h
    exact foldl_spans a bands

theorem union_isSome (h : bands ≠ []) : ∃ b, union bands = some b := by
  cases bands with
  | nil => exact absurd rfl h
  | cons b bs => exact ⟨_, rfl⟩

end Union

section Windows

variable {len n i k : Nat}

def bound (len n i : Nat) : Nat := i * len / n

theorem bound_lt (hn : 1 ≤ n) (hlen : n ≤ len) (i : Nat) : bound len n i < bound len n (i + 1) := by
  unfold bound
  rw [Nat.lt_iff_add_one_le, ← Nat.add_div_right _ hn]
  apply Nat.div_le_div_right
  rw [Nat.add_mul]
  omega

theorem window_eq (hn : 1 ≤ n) (hlen : n ≤ len) (hi : i < n) : window len n i = (bound len n i, bound len n (i + 1)) := by
  have hlt := bound_lt hn hlen i
  have hle : bound len n (i + 1) ≤ len := by
    unfold bound
    apply Nat.div_le_of_le_mul
    exact Nat.mul_le_mul_right len hi
  unfold window bound at *
  dsimp only
  rw [max_eq_left hlt, min_eq_left hle]

theorem existsUnique_window (hn : 1 ≤ n) (hlen : n ≤ len) (hk : k < len)
    : ∃! i, i < n ∧ Within (window len n i) k := by
  have hzero : bound len n 0 = 0 := by
    simp [bound]
  have hlast : bound len n n = len := Nat.mul_div_cancel_left len hn
  rcases @existsUnique_within Nat _ (bound len n) n (fun i _ => bound_lt hn hlen i) k
    (by rw [hzero]; exact Nat.zero_le k) (by rw [hlast]; exact hk) with ⟨i, ⟨hi, hwithin⟩, huniq⟩
  refine ⟨i, ⟨hi, by rwa [window_eq hn hlen hi]⟩, ?_⟩
  rintro j ⟨hj, hj'⟩
  rw [window_eq hn hlen hj] at hj'
  exact huniq j ⟨hj, hj'⟩

end Windows

section Columns

variable {bands : List Band} {n i k : Nat} {b : Rat × Rat}

-- The bands that were observed in a window.
def fed (bands : List Band) (n i : Nat) : List (Rat × Rat) :=
  ((bands.drop (window bands.length n i).1).take
    ((window bands.length n i).2 - (window bands.length n i).1)).reduceOption

theorem mem_fed : b ∈ fed bands n i ↔ ∃ k, Within (window bands.length n i) k ∧ bands[k]? = some (some b) := by
  unfold fed Within
  generalize window bands.length n i = w
  rw [List.reduceOption_mem_iff, List.mem_iff_getElem?]
  constructor
  . rintro ⟨j, hj⟩
    rw [List.getElem?_take, List.getElem?_drop] at hj
    split_ifs at hj with hlt
    exact ⟨w.1 + j, ⟨by omega, by omega⟩, hj⟩
  . rintro ⟨k, ⟨hlo, hhi⟩, hk⟩
    refine ⟨k - w.1, ?_⟩
    rw [List.getElem?_take, List.getElem?_drop, if_pos (by omega), Nat.add_sub_cancel' hlo, hk]

theorem resample_getElem (hn : 1 ≤ n) (hlen : n ≤ bands.length) (hi : i < n)
    : (resample bands n)[i]? = some (union (fed bands n i)) := by
  have hne : bands ≠ [] := by
    rintro rfl
    simp at hlen
    omega
  unfold resample
  rw [if_neg (by omega), if_neg hne, List.getElem?_map, List.getElem?_range hi]
  rfl

theorem length_resample (bands : List Band) (n : Nat) : (resample bands n).length = n := by
  unfold resample
  split_ifs with hzero
  . exact hzero.symm
  . exact List.length_replicate
  . rw [List.length_map, List.length_range]

theorem shown_once (f : Rat × Rat → Rat) (hn : 1 ≤ n) (hlen : n ≤ bands.length)
    (hband : bands[k]? = some (some b)) (honly : ∀ (k' : Nat) (b' : Rat × Rat), k' ≠ k → bands[k']? = some (some b') → f b' ≠ f b)
    (hpick : ∀ r i, Spans r (fed bands n i) → ∃ b' ∈ fed bands n i, f b' = f r)
    (hkeep : ∀ r i, Spans r (fed bands n i) → b ∈ fed bands n i → f r = f b)
    : ∃! i : Nat, ∃ r : Rat × Rat, (resample bands n)[i]? = some (some r) ∧ f r = f b := by
  have hk : k < bands.length := (List.getElem?_eq_some_iff.mp hband).1
  rcases existsUnique_window hn hlen hk with ⟨i, ⟨hi, hwithin⟩, huniq⟩
  have hmem : b ∈ fed bands n i := mem_fed.mpr ⟨k, hwithin, hband⟩
  refine ⟨i, ?_, ?_⟩
  . rcases union_isSome (List.ne_nil_of_mem hmem) with ⟨r, hr⟩
    exact ⟨r, by rw [resample_getElem hn hlen hi, hr], hkeep r i (union_spans hr) hmem⟩
  . rintro j ⟨r, hr, heq⟩
    have hj : j < n := by
      have := (List.getElem?_eq_some_iff.mp hr).1
      rwa [length_resample] at this
    rw [resample_getElem hn hlen hj] at hr
    rcases hpick r j (union_spans (Option.some.inj hr)) with ⟨b', hb', heq'⟩
    rcases mem_fed.mp hb' with ⟨k', hwithin', hband'⟩
    have hkk : k' = k := by
      by_contra hne
      exact honly k' b' hne hband' (heq'.trans heq)
    exact huniq j ⟨hj, hkk ▸ hwithin'⟩

end Columns

structure Partitions (bands : List Band) (n : Nat) : Prop where
  length : (resample bands n).length = n
  feeds : ∀ k, k < bands.length → ∃! i, i < n ∧ Within (window bands.length n i) k
  column : ∀ (i : Nat) (r : Rat × Rat), (resample bands n)[i]? = some (some r) → Spans r (fed bands n i)
  gap : ∀ i : Nat, (resample bands n)[i]? = some none → fed bands n i = []
  peak : ∀ (k : Nat) (b : Rat × Rat), bands[k]? = some (some b) →
    (∀ (k' : Nat) (b' : Rat × Rat), k' ≠ k → bands[k']? = some (some b') → b'.2 < b.2) →
    ∃! i : Nat, ∃ r : Rat × Rat, (resample bands n)[i]? = some (some r) ∧ r.2 = b.2
  trough : ∀ (k : Nat) (b : Rat × Rat), bands[k]? = some (some b) →
    (∀ (k' : Nat) (b' : Rat × Rat), k' ≠ k → bands[k']? = some (some b') → b.1 < b'.1) →
    ∃! i : Nat, ∃ r : Rat × Rat, (resample bands n)[i]? = some (some r) ∧ r.1 = b.1

theorem resample_partitions {bands : List Band} {n : Nat} (hn : 1 ≤ n) (hlen : n ≤ bands.length)
    : Partitions bands n := by
  have hlt : ∀ (i : Nat) (x : Band), (resample bands n)[i]? = some x → i < n := by
    intro i x hx
    have := (List.getElem?_eq_some_iff.mp hx).1
    rwa [length_resample] at this
  refine ⟨length_resample bands n, fun k hk => existsUnique_window hn hlen hk, ?_, ?_, ?_, ?_⟩
  . intro i r hr
    rw [resample_getElem hn hlen (hlt i _ hr)] at hr
    exact union_spans (Option.some.inj hr)
  . intro i hnone
    rw [resample_getElem hn hlen (hlt i _ hnone)] at hnone
    by_contra hne
    rcases union_isSome hne with ⟨r, hr⟩
    rw [hr] at hnone
    cases hnone
  . intro k b hband hpeak
    apply shown_once Prod.snd hn hlen hband (fun k' b' hne hb' => (hpeak k' b' hne hb').ne)
      (fun r i hspans => hspans.high)
    intro r i hspans hmem
    rcases hspans.high with ⟨b', hb', heq⟩
    rcases mem_fed.mp hb' with ⟨k', _, hband'⟩
    by_cases hkk : k' = k
    . subst hkk
      rw [hband] at hband'
      cases hband'
      exact heq.symm
    . have hle := (hspans.covers b hmem).2
      have hless := hpeak k' b' hkk hband'
      rw [heq] at hless
      exact absurd hle (not_le.mpr hless)
  . intro k b hband htrough
    apply shown_once Prod.fst hn hlen hband (fun k' b' hne hb' => (htrough k' b' hne hb').ne')
      (fun r i hspans => hspans.low)
    intro r i hspans hmem
    rcases hspans.low with ⟨b', hb', heq⟩
    rcases mem_fed.mp hb' with ⟨k', _, hband'⟩
    by_cases hkk : k' = k
    . subst hkk
      rw [hband] at hband'
      cases hband'
      exact heq.symm
    . have hle := (hspans.covers b hmem).1
      have hless := htrough k' b' hkk hband'
      rw [heq] at hless
      exact absurd hle (not_le.mpr hless)

end Resampled

section Ceiling

variable {channels : List (List Band)} {opts : PlotOpts} {x : Nat}

def NonNeg (channels : List (List Band)) : Prop := ∀ c ∈ channels, ∀ b : Rat × Rat, some b ∈ c → 0 ≤ b.2

theorem columnTotal_eq (channels : List (List Band)) (x : Nat)
    : columnTotal channels x = ((columnAt channels x).reduceOption.map Prod.snd).sum := by
  unfold columnTotal columnAt List.reduceOption
  rw [List.map_filterMap, List.filterMap_map]
  rfl

theorem tops_sublist (column : List Band) : (tops column).Sublist (column.reduceOption.map Prod.snd) := by
  unfold tops observed List.reduceOption
  exact ((List.takeWhile_sublist _).filterMap _).map _

theorem column_nonneg (h : NonNeg channels) : ∀ v ∈ (columnAt channels x).reduceOption.map Prod.snd, 0 ≤ v := by
  intro v hv
  rcases List.mem_map.mp hv with ⟨b, hb, rfl⟩
  rw [List.reduceOption_mem_iff] at hb
  rcases List.mem_map.mp hb with ⟨c, hc, hcx⟩
  rw [Option.join_eq_some_iff] at hcx
  exact h c hc b (List.mem_of_getElem? hcx)

theorem tops_le_ceilingOf (h : NonNeg channels) : (tops (columnAt channels x)).sum ≤ ceilingOf channels opts := by
  have htotal : (tops (columnAt channels x)).sum ≤ columnTotal channels x := by
    rw [columnTotal_eq]
    exact (tops_sublist _).sum_le_sum (column_nonneg h)
  apply htotal.trans
  unfold ceilingOf
  dsimp only
  by_cases hx : x < (channels.map List.length).foldl max 0
  . rw [List.foldl_eq_foldr]
    apply List.le_max_of_le' 0 _ (le_refl _)
    simp only [List.append_assoc, List.mem_append]
    exact .inl (List.mem_map_of_mem (List.mem_range.mpr hx))
  . have hnone : columnTotal channels x = 0 := by
      have hempty : channels.filterMap (fun channel => (channel[x]?).join.map Prod.snd) = [] := by
        rw [List.filterMap_eq_nil_iff]
        intro c hc
        have hlen : c.length ≤ (channels.map List.length).foldr max 0 :=
          List.le_max_of_le' 0 (List.mem_map_of_mem hc) (le_refl _)
        rw [← List.foldl_eq_foldr] at hlen
        rw [List.getElem?_eq_none (hlen.trans (not_lt.mp hx))]
        rfl
      unfold columnTotal
      rw [hempty]
      rfl
    rw [hnone]
    rw [List.foldl_max]
    exact le_max_left _ _

theorem resample_nonneg {bands : List Band} {n : Nat} (h : ∀ b : Rat × Rat, some b ∈ bands → 0 ≤ b.2) (b : Rat × Rat)
    (hb : some b ∈ resample bands n)
    : 0 ≤ b.2 := by
  unfold resample at hb
  split_ifs at hb with hzero hnil
  . cases hb
  . have := List.eq_of_mem_replicate hb
    cases this
  . rcases List.mem_map.mp hb with ⟨i, _, hi⟩
    rcases (union_spans hi).high with ⟨b', hb', heq⟩
    rw [List.reduceOption_mem_iff] at hb'
    rw [← heq]
    exact h b' (List.mem_of_mem_drop (List.mem_of_mem_take hb'))

theorem nonNeg_resampled (h : NonNeg channels) (n : Nat) : NonNeg (channels.map (resample · n)) := by
  intro c hc b hb
  rcases List.mem_map.mp hc with ⟨c', hc', rfl⟩
  exact resample_nonneg (h c' hc') b hb

end Ceiling

section Columns

variable {r : Raster} {channels : List (List Band)} {xs : List Nat}

theorem paintColumn_eq (r : Raster) (x : Nat) (channels : List (List Band))
    : paintColumn r x channels = paint r x (strokes r.ceiling r.subH (columnAt channels x)) := rfl

theorem columns_kept (hcells : r.cells.length = r.subW * r.subH) (hxs : ∀ x ∈ xs, x < r.subW) (hnodup : xs.Nodup)
    (honce : ∀ x ∈ xs, ∀ r', r'.ceiling = r.ceiling → r'.subH = r.subH → PaintsOnce r' x channels)
    : (∀ x y, x < r.subW → x ∉ xs →
        (xs.foldl (fun r x => paintColumn r x channels) r).atCell x y = r.atCell x y) ∧
      ∀ x ∈ xs, ∀ s ∈ strokes r.ceiling r.subH (columnAt channels x),
        (xs.foldl (fun r x => paintColumn r x channels) r).atCell x (r.rowOf s.1) = some s.2 := by
  induction xs generalizing r with
  | nil => exact ⟨fun _ _ _ _ => rfl, by simp⟩
  | cons x xs ih =>
    rw [List.forall_mem_cons] at hxs honce
    rw [List.nodup_cons] at hnodup
    rw [List.foldl_cons]
    have hsize := paint_size r x (strokes r.ceiling r.subH (columnAt channels x))
    rw [← paintColumn_eq] at hsize
    have hhere := honce.1 r rfl rfl
    have hrow : ∀ level, (paintColumn r x channels).rowOf level = r.rowOf level := by
      intro level
      rw [Raster.rowOf, Raster.rowOf, hsize.2.1]
    have hrest := @ih (paintColumn r x channels) (by rw [hsize.1, hsize.2.1, hsize.2.2.2, hcells])
      (by rw [hsize.1]; exact hxs.2) hnodup.2 (by rw [hsize.2.1, hsize.2.2.1]; exact honce.2)
    rw [hsize.1, hsize.2.1, hsize.2.2.1] at hrest
    simp only [hrow] at hrest
    refine ⟨fun x' y hx' hmem => ?_, ?_⟩
    . rw [List.mem_cons, not_or] at hmem
      rw [hrest.1 x' y hx' hmem.2, paintColumn_eq]
      exact atCell_paint_of_ne hxs.1 hcells hhere.inside hx' fun s _ hs => hmem.1 hs.1
    . rw [List.forall_mem_cons]
      refine ⟨fun s hs => ?_, hrest.2⟩
      rw [hrest.1 x (r.rowOf s.1) hxs.1 hnodup.1]
      exact hhere.kept hxs.1 hcells s hs

def resampled (channels : List (List Band)) (opts : PlotOpts) : List (List Band) :=
  channels.map (resample · (opts.width * subCols))

def blank (channels : List (List Band)) (opts : PlotOpts) : Raster where
  subW := opts.width * subCols
  subH := opts.height * subRows
  ceiling := ceilingOf (resampled channels opts) opts
  cells := List.replicate (opts.width * subCols * (opts.height * subRows)) none

theorem rasterize_eq {opts : PlotOpts} (hwidth : 0 < (blank channels opts).subW)
    (hheight : 0 < (blank channels opts).subH) (hceiling : 0 < (blank channels opts).ceiling)
    : rasterize channels opts = (List.range (blank channels opts).subW).foldl
        (fun r x => paintColumn r x (resampled channels opts)) (blank channels opts) := by
  have hflat : ¬((blank channels opts).subW = 0 ∨ (blank channels opts).subH = 0 ∨
      (blank channels opts).ceiling ≤ 0) := by
    rintro (hzero | hzero | hzero)
    . omega
    . omega
    . exact absurd hzero (not_le.mpr hceiling)
  exact if_neg hflat

/--
Every stroke of every column of a plot is on it.
-/
theorem rasterize_shows (h : NonNeg channels) (opts : PlotOpts) (hheight : 0 < (blank channels opts).subH)
    (hceiling : 0 < (blank channels opts).ceiling) {x : Nat} (hx : x < (blank channels opts).subW)
    : ∀ s ∈ strokes (blank channels opts).ceiling (blank channels opts).subH
        (columnAt (resampled channels opts) x),
      (rasterize channels opts).atCell x ((blank channels opts).rowOf s.1) = some s.2 := by
  have hnonneg : NonNeg (resampled channels opts) := nonNeg_resampled h _
  have hcells : (blank channels opts).cells.length = (blank channels opts).subW * (blank channels opts).subH :=
    List.length_replicate
  have honce : ∀ x ∈ List.range (blank channels opts).subW, ∀ r' : Raster,
      r'.ceiling = (blank channels opts).ceiling → r'.subH = (blank channels opts).subH →
      PaintsOnce r' x (resampled channels opts) := by
    intro x _ r' hr hrows
    apply paintColumn_once
    . intro v hv
      exact column_nonneg hnonneg v ((tops_sublist _).mem hv)
    . rw [hr]
      exact hceiling
    . rw [hr]
      exact tops_le_ceilingOf hnonneg
    . rw [hrows]
      exact hheight
  rw [rasterize_eq (Nat.zero_lt_of_lt hx) hheight hceiling]
  exact (columns_kept hcells (fun x hx => List.mem_range.mp hx) List.nodup_range honce).2 x (List.mem_range.mpr hx)

end Columns

structure Spends (values : List Rat) (ceiling : Rat) (subH : Nat) : Prop where
  spent : (apportion values ceiling subH).sum = height values ceiling subH
  drawn : (∃ v ∈ values, 0 < v) → 1 ≤ height values ceiling subH ∧ height values ceiling subH ≤ subH
  bare : (¬∃ v ∈ values, 0 < v) → height values ceiling subH = 0
  length : (apportion values ceiling subH).length = values.length
  idle : ∀ i : Nat, values[i]? = some 0 → (apportion values ceiling subH)[i]? = some 0
  active : values.countP (fun v => decide (0 < v)) ≤ (apportion values ceiling subH).sum →
    ∀ (i : Nat) (v : Rat), values[i]? = some v → 0 < v → ∃ n, (apportion values ceiling subH)[i]? = some n ∧ 1 ≤ n

theorem apportion_spends {values : List Rat} {ceiling : Rat} {subH : Nat} (hvalues : ∀ v ∈ values, 0 ≤ v)
    (hceiling : 0 < ceiling) (hsum : values.sum ≤ ceiling) (hsub : 1 ≤ subH)
    : Spends values ceiling subH := by
  have hspent := sum_apportion hvalues hceiling hsum hsub
  have hlen := @length_apportion values ceiling subH
  have hsome : ∀ i, i < values.length → (apportion values ceiling subH)[i]? =
      some ((apportion values ceiling subH).getD i 0) := by
    intro i hi
    rw [← hlen] at hi
    rw [List.getD_eq_getElem?_getD, List.getElem?_eq_getElem hi]
    rfl
  refine ⟨hspent, ?_, ?_, hlen, ?_, ?_⟩
  . rintro ⟨v, hv, hpos⟩
    have hsumpos : 0 < values.sum := hpos.trans_le (List.single_le_sum hvalues v hv)
    constructor
    . unfold height
      rw [if_pos hsumpos]
      exact le_max_left _ _
    . rw [← totalRows_eq_height hvalues hceiling hsum hsub]
      unfold totalRows
      split_ifs
      . exact max_le hsub (min_le_right _ _)
      . omega
  . intro hnone
    have hzero : ∀ v ∈ values, v = 0 := by
      intro v hv
      by_contra hne
      exact hnone ⟨v, hv, lt_of_le_of_ne (hvalues v hv) (Ne.symm hne)⟩
    unfold height
    rw [if_neg (by rw [List.sum_eq_zero hzero]; exact lt_irrefl _)]
  . intro i hi
    have hlt := (List.getElem?_eq_some_iff.mp hi).1
    have hget : values.getD i 0 ≤ 0 := by
      rw [List.getD_eq_getElem?_getD, hi]
      exact le_refl _
    rw [hsome i hlt, apportion_zero hvalues hget]
  . intro henough i v hi hpos
    have hlt := (List.getElem?_eq_some_iff.mp hi).1
    have hget : 0 < values.getD i 0 := by
      rw [List.getD_eq_getElem?_getD, hi]
      exact hpos
    rw [hspent] at henough
    exact ⟨_, hsome i hlt, apportion_pos hvalues hceiling hsum hsub henough hget⟩

theorem plot_honest
    : (∀ values ceiling subH, (∀ v ∈ values, 0 ≤ v) → 0 < ceiling → values.sum ≤ ceiling → 1 ≤ subH →
        Spends values ceiling subH) ∧
      (∀ raster x channels, (∀ v ∈ tops (columnAt channels x), 0 ≤ v) → 0 < raster.ceiling →
        (tops (columnAt channels x)).sum ≤ raster.ceiling → 1 ≤ raster.subH → PaintsOnce raster x channels) ∧
      ∀ bands n, 1 ≤ n → n ≤ bands.length → Partitions bands n :=
  ⟨fun _ _ _ hvalues hceiling hsum hsub => apportion_spends hvalues hceiling hsum hsub,
    fun _ _ _ hvalues hceiling hsum hsub => paintColumn_once hvalues hceiling hsum hsub,
    fun _ _ hn hlen => resample_partitions hn hlen⟩

-- A column of two pools, the second of which is not there at first.
def smallPools : List (List Band) := [[some (1, 1), some (1, 1)], [none, some (1, 100)]]

theorem small_pools_honest
    : Spends [1, 1, 100] 102 8 ∧ PaintsOnce ⟨2, 8, 102, List.replicate 16 none⟩ 1 smallPools ∧
        Partitions [some (1, 1), none, some (1, 9)] 2 := by
  have htops : tops (columnAt smallPools 1) = [1, 100] := by rfl
  refine ⟨plot_honest.1 [1, 1, 100] 102 8 (by norm_num) (by norm_num) (by norm_num) (by norm_num),
    plot_honest.2.1 _ 1 smallPools ?_ (by norm_num) ?_ (by norm_num),
    plot_honest.2.2 [some (1, 1), none, some (1, 9)] 2 (by norm_num) (by simp)⟩
  . rw [htops]
    norm_num
  . rw [htops]
    norm_num

end Plot
end Ui
