import Mathlib.Algebra.Ring.Nat
import Mathlib.Algebra.BigOperators.Group.Finset.Basic
import Mathlib.Algebra.BigOperators.Group.List.Basic
import Mathlib.Algebra.Order.BigOperators.Group.Finset
import Mathlib.Algebra.Order.BigOperators.Group.List
import Mathlib.Algebra.Order.Group.Nat
import Mathlib.Order.Lattice

/-!
This module contains sorted maps that sum up what is added under each key.
-/

namespace Sums

variable {κ : Type u} {α : Type v} [LinearOrder κ] [AddCommMonoid α]

def add (key : κ) (amount : α) : List (κ × α) → List (κ × α)
  | [] => [(key, amount)]
  | (k, a) :: rest =>
    if key < k then (key, amount) :: (k, a) :: rest
    else if key = k then (k, a + amount) :: rest
    else (k, a) :: add key amount rest

def under (key : κ) (entries : List (κ × α)) : α := ((entries.filter (·.1 = key)).map Prod.snd).sum

theorem under_cons (key : κ) (entry : κ × α) (entries : List (κ × α))
    : under key (entry :: entries) = (if entry.1 = key then entry.2 else 0) + under key entries := by
  unfold under
  by_cases hkey : entry.1 = key
  . rw [List.filter_cons_of_pos (by simpa using hkey), if_pos hkey, List.map_cons, List.sum_cons]
  . rw [List.filter_cons_of_neg (by simpa using hkey), if_neg hkey, zero_add]

theorem under_append (key : κ) (xs ys : List (κ × α)) : under key (xs ++ ys) = under key xs + under key ys := by
  simp only [under, List.filter_append, List.map_append, List.sum_append]

theorem under_add (key k : κ) (amount : α) (m : List (κ × α))
    : under k (add key amount m) = under k m + if key = k then amount else 0 := by
  induction m with
  | nil => simp [add, under_cons, add_comm]
  | cons entry rest ih =>
    unfold add
    split
    . rw [under_cons, add_comm]
    . split
      . next heq =>
        rw [under_cons, under_cons, heq]
        split
        . rw [add_right_comm]
        . rw [add_zero]
      . rw [under_cons, under_cons, ih, add_assoc]

theorem mem_keys_add (key k : κ) (amount : α) (m : List (κ × α))
    : k ∈ (add key amount m).map Prod.fst ↔ k = key ∨ k ∈ m.map Prod.fst := by
  induction m with
  | nil => simp [add]
  | cons entry rest ih =>
    unfold add
    split
    . simp
    . split
      . next heq => simp [heq]
      . rw [List.map_cons, List.map_cons, List.mem_cons, List.mem_cons, ih, or_left_comm]

theorem sorted_add (key : κ) (amount : α) {m : List (κ × α)} (h : (m.map Prod.fst).Pairwise (· < ·))
    : ((add key amount m).map Prod.fst).Pairwise (· < ·) := by
  induction m with
  | nil => exact List.pairwise_singleton _ _
  | cons entry rest ih =>
    have hcons := List.pairwise_cons.mp h
    unfold add
    split
    . next hlt =>
      refine List.pairwise_cons.mpr ⟨?_, h⟩
      intro k hk
      rcases List.mem_cons.mp hk with rfl | hk
      . exact hlt
      . exact hlt.trans (hcons.1 k hk)
    . next hnot =>
      split
      . exact h
      . next hne =>
        refine List.pairwise_cons.mpr ⟨?_, ih hcons.2⟩
        intro k hk
        rcases (mem_keys_add key k amount rest).mp hk with rfl | hk
        . exact lt_of_le_of_ne (not_lt.mp hnot) (Ne.symm hne)
        . exact hcons.1 k hk

def addAll (entries m : List (κ × α)) : List (κ × α) := entries.foldl (fun m e => add e.1 e.2 m) m

theorem under_addAll (k : κ) (entries m : List (κ × α)) : under k (addAll entries m) = under k m + under k entries := by
  induction entries generalizing m with
  | nil => simp [addAll, under]
  | cons entry rest ih =>
    rw [addAll, List.foldl_cons, ← addAll, ih, under_add, under_cons, add_assoc]

theorem mem_keys_addAll (k : κ) (entries m : List (κ × α))
    : k ∈ (addAll entries m).map Prod.fst ↔ k ∈ entries.map Prod.fst ∨ k ∈ m.map Prod.fst := by
  induction entries generalizing m with
  | nil => simp [addAll]
  | cons entry rest ih =>
    rw [addAll, List.foldl_cons, ← addAll, ih, mem_keys_add, List.map_cons, List.mem_cons, or_left_comm, or_assoc]

theorem sorted_addAll (entries : List (κ × α)) {m : List (κ × α)} (h : (m.map Prod.fst).Pairwise (· < ·))
    : ((addAll entries m).map Prod.fst).Pairwise (· < ·) := by
  induction entries generalizing m with
  | nil => exact h
  | cons entry rest ih => exact ih (sorted_add entry.1 entry.2 h)

theorem under_of_mem {m : List (κ × α)} (h : (m.map Prod.fst).Pairwise (· < ·)) {e : κ × α} (he : e ∈ m)
    : under e.1 m = e.2 := by
  induction m with
  | nil => cases he
  | cons entry rest ih =>
    have hcons := List.pairwise_cons.mp h
    rw [under_cons]
    rcases List.mem_cons.mp he with rfl | hmem
    . have hrest : rest.filter (·.1 = e.1) = [] := by
        rw [List.filter_eq_nil_iff]
        intro other hother
        simpa using (hcons.1 other.1 (List.mem_map_of_mem hother)).ne'
      rw [if_pos rfl, under, hrest, List.map_nil, List.sum_nil, add_zero]
    . rw [if_neg (hcons.1 e.1 (List.mem_map_of_mem hmem)).ne, zero_add]
      exact ih hcons.2 hmem

-- Parts below their bounds that add up to the bounds reach each of them.
theorem eq_of_sum_eq {ι : Type w} {l : List ι} {f g : ι → Nat} (hle : ∀ i ∈ l, f i ≤ g i)
    (hsum : (l.map f).sum = (l.map g).sum)
    : ∀ i ∈ l, f i = g i := by
  induction l with
  | nil =>
    intro i hi
    cases hi
  | cons j l ih =>
    rw [List.forall_mem_cons] at hle
    have htail : (l.map f).sum ≤ (l.map g).sum := List.sum_le_sum hle.2
    rw [List.map_cons, List.map_cons, List.sum_cons, List.sum_cons] at hsum
    rw [List.forall_mem_cons]
    refine ⟨by omega, ih hle.2 (by omega)⟩

-- What is charged at every mention is what is owed once where each part is.
theorem sum_map_eq_sum_dedup_iff {ι : Type w} [DecidableEq ι] [inst : BEq ι] [LawfulBEq ι] {l : List ι} {f g : ι → Nat}
    (hle : ∀ i ∈ l, g i ≤ f i)
    : (l.map f).sum = (l.dedup.map g).sum ↔ ∀ i ∈ l, g i = l.count i * f i := by
  have hinst : inst = instBEqOfDecidableEq := lawful_beq_subsingleton _ _
  subst hinst
  have hcharged : (l.map f).sum = ∑ i ∈ l.toFinset, l.count i * f i := by
    rw [Finset.sum_list_map_count]
    rfl
  have howed : (l.dedup.map g).sum = ∑ i ∈ l.toFinset, g i := by
    have hsame : l.dedup.toFinset = l.toFinset := by
      ext i
      simp
    rw [← List.sum_toFinset g (List.nodup_dedup l), hsame]
  have hpart : ∀ i ∈ l.toFinset, g i ≤ l.count i * f i := by
    intro i hi
    have hmem := List.mem_toFinset.mp hi
    calc
      g i ≤ 1 * f i := by rw [one_mul]; exact hle i hmem
      _ ≤ l.count i * f i := Nat.mul_le_mul_right _ (List.count_pos_iff.mpr hmem)
  rw [hcharged, howed, eq_comm, Finset.sum_eq_sum_iff_of_le hpart]
  simp only [List.mem_toFinset]

-- Two sums that differ in what some parts have in common.
theorem eq_of_sum_map_eq {ι : Type w} {l : List ι} {f g : ι → Nat} {p : ι → Prop} {x y : Nat}
    (hp : ∀ i ∈ l, p i → f i = x ∧ g i = y) (hnot : ∀ i ∈ l, ¬p i → f i = g i) (hex : ∃ i ∈ l, p i)
    (hsum : (l.map f).sum = (l.map g).sum)
    : x = y := by
  have hlt : ∀ {f g : ι → Nat} {x y : Nat}, (∀ i ∈ l, p i → f i = x ∧ g i = y) →
      (∀ i ∈ l, ¬p i → f i = g i) → x < y → (l.map f).sum < (l.map g).sum := by
    intro f g x y hp hnot hxy
    rcases hex with ⟨i, hi, hpi⟩
    apply List.sum_lt_sum
    . intro j hj
      by_cases hpj : p j
      . rw [(hp j hj hpj).1, (hp j hj hpj).2]
        exact hxy.le
      . exact (hnot j hj hpj).le
    . exact ⟨i, hi, by rw [(hp i hi hpi).1, (hp i hi hpi).2]; exact hxy⟩
  rcases lt_trichotomy x y with hxy | hxy | hxy
  . exact absurd hsum (hlt hp hnot hxy).ne
  . exact hxy
  . exact absurd hsum (hlt (fun i hi h => (hp i hi h).symm) (fun i hi h => (hnot i hi h).symm) hxy).ne'

section Totals

variable {ι : Type u} {β : Type v}

theorem sum_map_filter_of_eq_zero {l : List ι} {p : ι → Bool} {f : ι → Nat} (h : ∀ x ∈ l, p x = false → f x = 0)
    : ((l.filter p).map f).sum = (l.map f).sum := by
  induction l with
  | nil => rfl
  | cons x l ih =>
    have htail := ih fun y hy => h y (List.mem_cons_of_mem x hy)
    cases hx : p x with
    | false => simp [hx, htail, h x List.mem_cons_self hx]
    | true => simp [hx, htail]

theorem countP_or_of_disjoint {p q : β → Bool} (h : ∀ b, p b = true → q b = false) (l : List β)
    : l.countP (fun b => p b || q b) = l.countP p + l.countP q := by
  induction l with
  | nil => rfl
  | cons b l ih =>
    have hb := h b
    cases hp : p b <;> cases hq : q b <;> simp_all <;> omega

/--
Counting key by key is counting once, where nothing has two keys.
-/
theorem sum_map_countP {p : ι → β → Bool} {keys : List ι}
    (hdisjoint : keys.Pairwise fun x y => ∀ b, p x b = true → p y b = false) (l : List β)
    : (keys.map fun x => l.countP (p x)).sum = l.countP fun b => keys.any (p · b) := by
  induction keys with
  | nil => simp
  | cons x keys ih =>
    obtain ⟨hx, hkeys⟩ := List.pairwise_cons.mp hdisjoint
    have hrest : ∀ b, p x b = true → keys.any (p · b) = false := by
      intro b hb
      rw [List.any_eq_false]
      intro y hy
      simp [hx y hy b hb]
    simp only [List.map_cons, List.sum_cons, List.any_cons]
    rw [ih hkeys, countP_or_of_disjoint hrest]

end Totals

end Sums
