import Mathlib.Algebra.Order.Field.Basic
import Mathlib.Algebra.Order.Monoid.WithTop
import Mathlib.Tactic.Ring
import Mathlib.Tactic.Linarith

/-!
This module contains cumulative ladders, whose rungs say how many observations are at or below a bound, and
quantiles that are interpolated inside the bucket which holds them.
-/

namespace Ladder

section Rungs

variable {α : Type u} [LinearOrder α]

/--
The bounds ascend from `lower` to infinity and the counts from `under`.
-/
inductive Rising : α → α → List (WithTop α × α) → Prop where
  | last {lower under count : α} (hcount : under ≤ count) : Rising lower under [(⊤, count)]
  | step {lower under le count : α} {rest : List (WithTop α × α)} (hle : lower ≤ le) (hcount : under ≤ count)
    (hrest : Rising le count rest)
    : Rising lower under (((le : α), count) :: rest)

/--
The bucket between two bounds is the first one whose count reaches the rank.
-/
inductive Holds (rank : α) : α → List (WithTop α × α) → α → WithTop α → Prop where
  | here {lower count : α} {le : WithTop α} {rest : List (WithTop α × α)} (hcount : rank ≤ count) :
    Holds rank lower ((le, count) :: rest) lower le
  | later {lower le count lo : α} {up : WithTop α} {rest : List (WithTop α × α)} (hcount : count < rank)
    (hrest : Holds rank le rest lo up)
    : Holds rank lower (((le : α), count) :: rest) lo up

def total [Zero α] (rows : List (WithTop α × α)) : α := (rows.map Prod.snd).getLastD 0

theorem Rising.of_pairwise {lower under : α} {rows : List (WithTop α × α)} (hne : rows ≠ [])
    (hbounds : (rows.map Prod.fst).Pairwise (· < ·)) (hlower : ∀ r ∈ rows, (lower : WithTop α) ≤ r.1)
    (hcounts : (under :: rows.map Prod.snd).IsChain (· ≤ ·)) (htop : (rows.map Prod.fst).getLast? = some ⊤)
    : Rising lower under rows := by
  induction rows generalizing lower under with
  | nil => exact absurd rfl hne
  | cons row rest ih =>
    obtain ⟨bound, count⟩ := row
    rw [List.map_cons, List.isChain_cons_cons] at hcounts
    rw [List.map_cons, List.pairwise_cons] at hbounds
    cases rest with
    | nil =>
      cases htop
      exact .last hcounts.1
    | cons next rest =>
      have hnext := hbounds.1 next.1 List.mem_cons_self
      obtain ⟨le, rfl⟩ := WithTop.ne_top_iff_exists.mp (ne_top_of_lt hnext)
      have hle : lower ≤ le := WithTop.coe_le_coe.mp (hlower _ List.mem_cons_self)
      refine .step hle hcounts.1 (ih (List.cons_ne_nil _ _) hbounds.2 ?_ hcounts.2 ?_)
      . intro r hr
        exact (hbounds.1 r.1 (List.mem_map_of_mem hr)).le
      . rw [List.map_cons, List.map_cons, List.getLast?_cons_cons] at htop
        exact htop

theorem exists_holds [Zero α] {rank lower under : α} {rows : List (WithTop α × α)} (h : Rising lower under rows)
    (hrank : rank ≤ total rows)
    : ∃ lo up, Holds rank lower rows lo up := by
  induction h with
  | last hcount => exact ⟨_, _, .here hrank⟩
  | @step lower under le count rest hle hcount hrest ih =>
    rcases lt_or_ge count rank with hlt | hge
    . have htotal : total (((le : WithTop α), count) :: rest) = total rest := by
        cases hrest <;> simp [total]
      rw [htotal] at hrank
      rcases ih hrank with ⟨lo, up, hholds⟩
      exact ⟨lo, up, .later hlt hholds⟩
    . exact ⟨_, _, .here hge⟩

end Rungs

section Quantile

variable {α : Type u} [Field α] [LinearOrder α]

-- Between `lower`, up to which there are `under`, and the first rung.
def interpolate (rank lower under le count : α) : α :=
  lower + (le - lower) * if 0 < count - under then (rank - under) / (count - under) else 0

-- The last bucket has no upper bound.
def quantile (rank : α) : α → α → List (WithTop α × α) → Option α
  | _, _, [] => none
  | lower, _, (⊤, count) :: _ => if count < rank then none else some lower
  | lower, under, ((le : α), count) :: rest =>
    if count < rank then quantile rank le count rest else some (interpolate rank lower under le count)

variable [IsStrictOrderedRing α]

theorem interpolate_mem {rank lower under le count : α} (hle : lower ≤ le) (hunder : under < rank) (hcount : rank ≤ count)
    : lower ≤ interpolate rank lower under le count ∧ interpolate rank lower under le count ≤ le := by
  have hspan : 0 < count - under := by linarith
  have hfrac : 0 ≤ (rank - under) / (count - under) := div_nonneg (by linarith) hspan.le
  have hone : (rank - under) / (count - under) ≤ 1 := (div_le_one hspan).mpr (by linarith)
  unfold interpolate
  rw [if_pos hspan]
  constructor
  . exact le_add_of_nonneg_right (mul_nonneg (sub_nonneg.mpr hle) hfrac)
  . have hscaled := mul_le_mul_of_nonneg_left hone (sub_nonneg.mpr hle)
    linarith

theorem interpolate_mono {rank rank' lower under le count : α} (hle : lower ≤ le) (hrank : rank ≤ rank')
    : interpolate rank lower under le count ≤ interpolate rank' lower under le count := by
  unfold interpolate
  split
  . next hspan =>
    apply add_le_add_right
    apply mul_le_mul_of_nonneg_left ?_ (sub_nonneg.mpr hle)
    exact div_le_div_of_nonneg_right (sub_le_sub_right hrank under) hspan.le
  . exact le_refl _

/--
A quantile lies in the bucket that holds it, and is its lower bound if there is no other.
-/
theorem quantile_of_holds {rank lower under lo : α} {up : WithTop α} {rows : List (WithTop α × α)}
    (h : Rising lower under rows) (hunder : under < rank) (hholds : Holds rank lower rows lo up)
    : ∃ q, quantile rank lower under rows = some q ∧ lo ≤ q ∧ (∀ u : α, up = u → q ≤ u) ∧ (up = ⊤ → q = lo) := by
  induction h with
  | @last lower under count hcount =>
    cases hholds with
    | here hrank =>
      refine ⟨_, ?_, le_refl _, nofun, fun _ => rfl⟩
      unfold quantile
      exact if_neg (not_lt.mpr hrank)
  | @step lower under le count rest hle hcount hrest ih =>
    cases hholds with
    | here hrank =>
      have hmem := interpolate_mem hle hunder hrank
      refine ⟨_, if_neg (not_lt.mpr hrank), hmem.1, ?_, nofun⟩
      intro u hu
      rw [← WithTop.coe_inj.mp hu]
      exact hmem.2
    | later hlt hrest' =>
      rcases ih hlt hrest' with ⟨q, hq, hwithin⟩
      exact ⟨q, (if_pos hlt).trans hq, hwithin⟩

theorem le_quantile {rank lower under q : α} {rows : List (WithTop α × α)} (h : Rising lower under rows)
    (hunder : under < rank) (hq : quantile rank lower under rows = some q)
    : lower ≤ q := by
  induction h with
  | last hcount =>
    unfold quantile at hq
    split at hq
    . cases hq
    . cases hq
      exact le_refl _
  | step hle hcount hrest ih =>
    unfold quantile at hq
    split at hq
    . next hlt => exact hle.trans (ih hlt hq)
    . next hge =>
      cases hq
      exact (interpolate_mem hle hunder (not_lt.mp hge)).1

theorem quantile_mono {rank rank' lower under q q' : α} {rows : List (WithTop α × α)} (h : Rising lower under rows)
    (hunder : under < rank) (hrank : rank ≤ rank') (hq : quantile rank lower under rows = some q)
    (hq' : quantile rank' lower under rows = some q')
    : q ≤ q' := by
  induction h with
  | last hcount =>
    unfold quantile at hq hq'
    split at hq
    . cases hq
    . split at hq'
      . cases hq'
      . cases hq
        cases hq'
        exact le_refl _
  | step hle hcount hrest ih =>
    unfold quantile at hq hq'
    split at hq
    . next hlt =>
      rw [if_pos (hlt.trans_le hrank)] at hq'
      exact ih hlt hq hq'
    . next hge =>
      cases hq
      split at hq'
      -- The other rank lies in a later bucket, which starts where this one ends.
      . next hlt' => exact (interpolate_mem hle hunder (not_lt.mp hge)).2.trans (le_quantile hrest hlt' hq')
      . cases hq'
        exact interpolate_mono hle hrank

end Quantile

end Ladder
