import Mathlib.Algebra.BigOperators.Group.List.Basic
import Mathlib.Algebra.Order.BigOperators.Group.List
import Mathlib.Algebra.Order.Floor.Ring
import Mathlib.Algebra.Order.Floor.Semiring
import Mathlib.Algebra.Order.Group.Nat
import Mathlib.Tactic.Linarith

/-!
This module contains whole shares of a list of amounts: what rounding each amount down loses, shares that
are changed one at a time, and a share that is larger than one.
-/

namespace Shares

section Floors

variable {K : Type} [Field K] [LinearOrder K] [IsStrictOrderedRing K] [FloorRing K] {l : List K}

def floors (l : List K) : List Nat := l.map fun e => ⌊e⌋.toNat

theorem sum_floors_le (h : ∀ e ∈ l, 0 ≤ e) : ((floors l).sum : K) ≤ l.sum := by
  induction l with
  | nil => simp [floors]
  | cons e l ih =>
    rw [List.forall_mem_cons] at h
    have hfloor : ((⌊e⌋.toNat : Nat) : K) ≤ e := by
      rw [Int.floor_toNat]
      exact Nat.floor_le h.1
    have htail : ((floors l).sum : K) ≤ l.sum := ih h.2
    unfold floors at htail ⊢
    rw [List.map_cons, List.sum_cons, List.sum_cons, Nat.cast_add]
    exact add_le_add hfloor htail

-- Each amount that is not whole loses less than one.
theorem sum_le_sum_floors_add (h : ∀ e ∈ l, 0 ≤ e)
    : l.sum ≤ (((floors l).sum + l.countP (fun e => decide (0 < Int.fract e)) : Nat) : K) := by
  induction l with
  | nil => simp [floors]
  | cons e l ih =>
    rw [List.forall_mem_cons] at h
    have htail := ih h.2
    have hhead : e ≤ ((⌊e⌋.toNat + if 0 < Int.fract e then 1 else 0 : Nat) : K) := by
      have hcast : ((⌊e⌋.toNat : Nat) : K) = (⌊e⌋ : K) := by
        exact_mod_cast congrArg (Int.cast (R := K)) (Int.toNat_of_nonneg (Int.floor_nonneg.mpr h.1))
      have hsplit := Int.floor_add_fract e
      split_ifs with hfract
      . have hlt := Int.fract_lt_one e
        push_cast
        rw [hcast]
        linarith
      . push_cast
        rw [hcast]
        linarith
    have hcount : (e :: l).countP (fun e => decide (0 < Int.fract e)) =
        l.countP (fun e => decide (0 < Int.fract e)) + if 0 < Int.fract e then 1 else 0 := by
      rw [List.countP_cons]
      simp
    have hsum : (floors (e :: l)).sum = ⌊e⌋.toNat + (floors l).sum := by
      simp [floors]
    rw [List.sum_cons, hcount, hsum]
    push_cast at htail hhead ⊢
    linarith

end Floors

section Rows

variable {rows : List Nat} {i : Nat} {is : List Nat} {f : Nat → Nat}

theorem getD_modify (h : i < rows.length) (j : Nat)
    : (rows.modify i f).getD j 0 = if i = j then f (rows.getD j 0) else rows.getD j 0 := by
  rw [List.getD_eq_getElem?_getD, List.getD_eq_getElem?_getD, List.getElem?_modify]
  split
  . next heq =>
    subst heq
    rw [List.getElem?_eq_getElem h]
    rfl
  . simp

theorem sum_modify (h : i < rows.length)
    : (rows.modify i f).sum + rows.getD i 0 = rows.sum + f (rows.getD i 0) := by
  induction rows generalizing i with
  | nil => simp at h
  | cons r rows ih =>
    cases i with
    | zero =>
      simp
      omega
    | succ i =>
      have := ih (Nat.lt_of_succ_lt_succ h)
      simp only [List.modify_succ_cons, List.sum_cons, List.getD_cons_succ]
      omega

theorem length_foldl_succ (rows is : List Nat)
    : (is.foldl (fun rows i => rows.modify i (· + 1)) rows).length = rows.length := by
  induction is generalizing rows with
  | nil => rfl
  | cons i is ih => rw [List.foldl_cons, ih, List.length_modify]

theorem getD_foldl_succ (h : ∀ i ∈ is, i < rows.length) (j : Nat)
    : (is.foldl (fun rows i => rows.modify i (· + 1)) rows).getD j 0 = rows.getD j 0 + is.count j := by
  induction is generalizing rows with
  | nil => simp
  | cons i is ih =>
    rw [List.forall_mem_cons] at h
    rw [List.foldl_cons, ih (by simpa using h.2), getD_modify h.1, List.count_cons]
    by_cases hij : i = j
    . simp [hij]
      omega
    . simp [hij]

theorem sum_foldl_succ (h : ∀ i ∈ is, i < rows.length)
    : (is.foldl (fun rows i => rows.modify i (· + 1)) rows).sum = rows.sum + is.length := by
  induction is generalizing rows with
  | nil => rfl
  | cons i is ih =>
    rw [List.forall_mem_cons] at h
    have := @sum_modify rows i (· + 1) h.1
    rw [List.foldl_cons, ih (by simpa using h.2), List.length_cons]
    omega

theorem sum_eq_sum_range (rows : List Nat)
    : rows.sum = ((List.range rows.length).map (rows.getD · 0)).sum := by
  induction rows with
  | nil => rfl
  | cons r rows ih =>
    rw [List.length_cons, List.range_succ_eq_map, List.map_cons, List.map_map, List.sum_cons, List.sum_cons]
    rw [ih]
    rfl

/--
Where those that want a share could have one each, one that has none leaves more than one to another.
-/
theorem exists_one_lt {want : Nat → Bool} (hwant : (List.range rows.length).countP want ≤ rows.sum)
    (hnone : ∀ j, want j = false → rows.getD j 0 = 0) (hi : i < rows.length) (hwants : want i = true)
    (hzero : rows.getD i 0 = 0)
    : ∃ j, j < rows.length ∧ 1 < rows.getD j 0 := by
  by_contra hall
  have hone : ∀ j, j < rows.length → rows.getD j 0 ≤ 1 := by
    intro j hj
    by_contra hlt
    exact hall ⟨j, hj, not_le.mp hlt⟩
  have hcount : (List.range rows.length).countP want =
      ((List.range rows.length).map fun j => if want j then 1 else 0).sum := by
    induction List.range rows.length with
    | nil => rfl
    | cons j js ih =>
      rw [List.countP_cons, ih, List.map_cons, List.sum_cons, Nat.add_comm]
  have hlt : ((List.range rows.length).map (rows.getD · 0)).sum <
      ((List.range rows.length).map fun j => if want j then 1 else 0).sum := by
    apply List.sum_lt_sum
    . intro j hj
      cases hwantj : want j with
      | false => exact le_of_eq (hnone j hwantj)
      | true => exact hone j (List.mem_range.mp hj)
    . refine ⟨i, List.mem_range.mpr hi, ?_⟩
      rw [hzero, hwants]
      exact Nat.zero_lt_one
  rw [← hcount, ← sum_eq_sum_range] at hlt
  omega

end Rows

section Sorted

variable {α : Type} {p : α → Bool} {l : List α} {k : Nat}

theorem of_mem_take (hsorted : l.Pairwise fun a b => p b = true → p a = true) (hk : k ≤ l.countP p)
    : ∀ x ∈ l.take k, p x = true := by
  induction l generalizing k with
  | nil => simp
  | cons a l ih =>
    rw [List.pairwise_cons] at hsorted
    cases k with
    | zero => simp
    | succ k =>
      have hhead : p a = true := by
        by_contra hfalse
        have hnone : l.countP p = 0 := by
          rw [List.countP_eq_zero]
          exact fun b hb hpb => hfalse (hsorted.1 b hb hpb)
        rw [List.countP_cons_of_neg hfalse, hnone] at hk
        omega
      rw [List.countP_cons_of_pos hhead] at hk
      rw [List.take_succ_cons, List.forall_mem_cons]
      exact ⟨hhead, ih hsorted.2 (by omega)⟩

end Sorted

end Shares
