import Mathlib.Algebra.BigOperators.Group.List.Basic
import Mathlib.Algebra.Order.BigOperators.Group.List
import Mathlib.Algebra.Order.Group.Unbundled.Basic
import Mathlib.Tactic.Abel

/-!
This module contains counters that restart from zero, and what the values of one at some instants tell of it:
from a value to a smaller one it has restarted, and else grown by the difference.
-/

namespace Counter

section Increase

variable {α : Type u} [AddCommGroup α] [LinearOrder α]

def increase (before after : α) : α := if after < before then after else after - before

def increases : List α → α
  | before :: after :: rest => increase before after + increases (after :: rest)
  | _ => 0

theorem increase_of_le {before after : α} (h : before ≤ after) : increase before after = after - before :=
  if_neg (not_lt.mpr h)

theorem increase_of_lt {before after : α} (h : after < before) : increase before after = after := if_pos h

theorem increases_append (xs ys : List α) (x : α)
    : increases (xs ++ x :: ys) = increases (xs ++ [x]) + increases (x :: ys) := by
  induction xs with
  | nil => simp [increases]
  | cons y xs ih =>
    cases xs with
    | nil => simp [increases]
    | cons z xs =>
      simp only [List.cons_append, increases] at ih ⊢
      rw [ih, add_assoc]

variable [IsOrderedAddMonoid α]

theorem increase_nonneg {before after : α} (h : 0 ≤ after) : 0 ≤ increase before after := by
  unfold increase
  split
  . exact h
  . next hle => exact sub_nonneg.mpr (not_lt.mp hle)

theorem increase_le {before after : α} (h : 0 ≤ before) : increase before after ≤ after := by
  unfold increase
  split
  . exact le_refl after
  . exact sub_le_self after h

-- A value in between makes no increase smaller.
theorem increase_triangle {x y z : α} (hx : 0 ≤ x) (hy : 0 ≤ y)
    : increase x z ≤ increase x y + increase y z := by
  rcases lt_or_ge z y with hzy | hyz
  . rw [increase_of_lt hzy]
    exact (increase_le hx).trans (le_add_of_nonneg_left (increase_nonneg hy))
  . rw [increase_of_le hyz]
    rcases lt_or_ge y x with hyx | hxy
    . rw [increase_of_lt hyx, add_sub_cancel]
      exact increase_le hx
    . rw [increase_of_le hxy, increase_of_le (hxy.trans hyz)]
      exact le_of_eq (by abel)

theorem increases_le_cons_cons {x y : α} {zs : List α} (hx : 0 ≤ x) (hy : 0 ≤ y)
    : increases (x :: zs) ≤ increases (x :: y :: zs) := by
  cases zs with
  | nil => simpa [increases] using increase_nonneg hy
  | cons z zs =>
    simp only [increases, ← add_assoc]
    exact add_le_add_left (increase_triangle hx hy) _

theorem increases_cons_sublist {xs ys : List α} (h : xs.Sublist ys) {x : α} (hx : 0 ≤ x) (hys : ∀ y ∈ ys, 0 ≤ y)
    : increases (x :: xs) ≤ increases (x :: ys) := by
  induction h generalizing x with
  | slnil => exact le_refl _
  | @cons xs ys y h ih =>
    rw [List.forall_mem_cons] at hys
    exact (ih hx hys.2).trans (increases_le_cons_cons hx hys.1)
  | @cons_cons xs ys y h ih =>
    rw [List.forall_mem_cons] at hys
    exact add_le_add_right (ih hys.1 hys.2) _

/--
More instants never make the increases smaller.
-/
theorem increases_sublist {xs ys : List α} (h : xs.Sublist ys) (hys : ∀ y ∈ ys, 0 ≤ y)
    : increases xs ≤ increases ys := by
  induction h with
  | slnil => exact le_refl _
  | @cons xs ys y h ih =>
    rw [List.forall_mem_cons] at hys
    apply (ih hys.2).trans
    cases ys with
    | nil => exact le_refl _
    | cons z zs => exact le_add_of_nonneg_left (increase_nonneg (hys.2 z List.mem_cons_self))
  | @cons_cons xs ys y h ih =>
    rw [List.forall_mem_cons] at hys
    exact increases_cons_sublist h hys.1 hys.2

end Increase

section History

inductive Event (α : Type u) [AddCommGroup α] [LinearOrder α] where
  | increment (amount : α) (nonneg : 0 ≤ amount)
  | restart

variable {α : Type u} [AddCommGroup α] [LinearOrder α]

def Event.amount : Event α → α
  | .increment amount _ => amount
  | .restart => 0

def Event.apply (v : α) : Event α → α
  | .increment amount _ => v + amount
  | .restart => 0

variable (h : List (Event α))

def value (k : Nat) : α := (h.take k).foldl Event.apply 0

-- What is added between two instants.
def accrued (i j : Nat) : α := ((h.extract i j).map Event.amount).sum

def RestartAt (r : Nat) : Prop := h[r]? = some .restart

def Quiet (i j : Nat) : Prop := ∀ r, i ≤ r → r < j → ¬RestartAt h r

/--
The instants show a restart: the last value before it, and a smaller one before the next restart.
-/
def Caught (instants : List Nat) (r : Nat) : Prop :=
  r ∈ instants ∧ ∃ q ∈ instants, r < q ∧ Quiet h (r + 1) q ∧ value h q < value h r

variable {h}

theorem value_succ (k : Nat) : value h (k + 1) = (h[k]?).elim (value h k) (Event.apply (value h k)) := by
  rw [value, List.take_add_one, List.foldl_append]
  cases h[k]? <;> rfl

theorem accrued_self (i : Nat) : accrued h i i = 0 := by simp [accrued]

theorem accrued_add {i j k : Nat} (hij : i ≤ j) (hjk : j ≤ k) : accrued h i j + accrued h j k = accrued h i k := by
  obtain ⟨d, rfl⟩ := Nat.exists_eq_add_of_le hij
  obtain ⟨e, rfl⟩ := Nat.exists_eq_add_of_le hjk
  rw [accrued, accrued, accrued, ← List.sum_append, ← List.map_append]
  simp only [List.extract_eq_take_drop, Nat.add_sub_cancel_left]
  rw [Nat.add_assoc, Nat.add_sub_cancel_left, List.take_add, List.drop_drop]

theorem accrued_succ (k : Nat) : accrued h k (k + 1) = (h[k]?).elim 0 Event.amount := by
  rw [accrued, List.extract_eq_take_drop, Nat.add_sub_cancel_left]
  rw [List.take_one, List.head?_drop]
  cases h[k]? <;> simp

theorem value_of_restartAt {r : Nat} (hr : RestartAt h r) : value h (r + 1) = 0 := by
  rw [value_succ, hr]
  rfl

theorem accrued_of_restartAt {r : Nat} (hr : RestartAt h r) : accrued h r (r + 1) = 0 := by
  rw [accrued_succ, hr]
  rfl

theorem Quiet.mono {i j i' j' : Nat} (hquiet : Quiet h i j) (hi : i ≤ i') (hj : j' ≤ j) : Quiet h i' j' :=
  fun r hir hrj => hquiet r (hi.trans hir) (hrj.trans_le hj)

theorem Quiet.value {i j : Nat} (hquiet : Quiet h i j) (hij : i ≤ j) : value h j = value h i + accrued h i j := by
  induction j, hij using Nat.le_induction with
  | base => rw [accrued_self, add_zero]
  | succ j hij ih =>
    have hj := hquiet j hij (Nat.lt_succ_self j)
    have hvalue := ih (hquiet.mono (le_refl i) (Nat.le_succ j))
    rw [← accrued_add hij (Nat.le_succ j), ← add_assoc, ← hvalue, accrued_succ, value_succ]
    cases he : h[j]? with
    | none => exact (add_zero _).symm
    | some e =>
      cases e with
      | increment amount nonneg => rfl
      | restart => exact absurd he hj

theorem Event.amount_nonneg (e : Event α) : 0 ≤ e.amount := by
  cases e with
  | increment amount nonneg => exact nonneg
  | restart => exact le_refl 0

variable [IsOrderedAddMonoid α]

theorem accrued_nonneg (i j : Nat) : 0 ≤ accrued h i j := by
  apply List.sum_nonneg
  intro x hx
  rcases List.mem_map.mp hx with ⟨e, _, rfl⟩
  exact e.amount_nonneg

theorem value_nonneg (k : Nat) : 0 ≤ value h k := by
  induction k with
  | zero => exact le_refl 0
  | succ k ih =>
    rw [value_succ]
    cases h[k]? with
    | none => exact ih
    | some e =>
      cases e with
      | increment amount nonneg => exact add_nonneg ih nonneg
      | restart => exact le_refl 0

theorem increase_succ (k : Nat) : increase (value h k) (value h (k + 1)) = accrued h k (k + 1) := by
  have hk := value_nonneg (h := h) k
  rw [value_succ, accrued_succ]
  cases h[k]? with
  | none => exact (increase_of_le (le_refl _)).trans (sub_self _)
  | some e =>
    cases e with
    | increment amount nonneg =>
      exact (increase_of_le (le_add_of_nonneg_right nonneg)).trans (add_sub_cancel_left _ _)
    | restart => exact le_antisymm (increase_le hk) (increase_nonneg (le_refl 0))

theorem increase_le_accrued {i j : Nat} (hij : i ≤ j) : increase (value h i) (value h j) ≤ accrued h i j := by
  induction j, hij using Nat.le_induction with
  | base => rw [increase_of_le (le_refl _), sub_self, accrued_self]
  | succ j hij ih =>
    rw [← accrued_add hij (Nat.le_succ j), ← increase_succ j]
    exact (increase_triangle (value_nonneg i) (value_nonneg j)).trans (add_le_add_left ih _)

theorem le_getLastD {k : Nat} {ks : List Nat} (hsorted : (k :: ks).Pairwise (· ≤ ·)) : k ≤ ks.getLastD k := by
  rw [List.getLastD_eq_getLast?]
  cases hlast : ks.getLast? with
  | none => exact le_refl k
  | some last => exact (List.pairwise_cons.mp hsorted).1 last (List.mem_of_mem_getLast? hlast)

/--
No instants show more than what was added between the first and the last of them.
-/
theorem increases_le_accrued {k : Nat} {ks : List Nat} (hsorted : (k :: ks).Pairwise (· ≤ ·))
    : increases ((k :: ks).map (value h)) ≤ accrued h k (ks.getLastD k) := by
  induction ks generalizing k with
  | nil => exact accrued_nonneg k k
  | cons k' ks ih =>
    have htail := (List.pairwise_cons.mp hsorted).2
    have hkk' := (List.pairwise_cons.mp hsorted).1 k' List.mem_cons_self
    rw [List.getLastD_cons, ← accrued_add hkk' (le_getLastD htail)]
    exact add_le_add (increase_le_accrued hkk') (ih htail)

-- Over a restart that the two instants around it show.
theorem increase_of_caught {k k' : Nat} {ks : List Nat} (hsorted : (k :: k' :: ks).Pairwise (· ≤ ·))
    (hcaught : ∀ r, RestartAt h r → k ≤ r → r < k' → Caught h (k :: k' :: ks) r)
    : increase (value h k) (value h k') = accrued h k k' := by
  have hkk' := (List.pairwise_cons.mp hsorted).1 k' List.mem_cons_self
  have hbeyond : ∀ q ∈ k :: k' :: ks, q = k ∨ k' ≤ q := by
    intro q hq
    rcases List.mem_cons.mp hq with rfl | hq
    . exact Or.inl rfl
    . rcases List.mem_cons.mp hq with rfl | hq
      . exact Or.inr (le_refl _)
      . exact Or.inr ((List.pairwise_cons.mp (List.pairwise_cons.mp hsorted).2).1 q hq)
  -- A restart in between can only be the one right after `k`.
  have honly : ∀ r, RestartAt h r → k ≤ r → r < k' → r = k := by
    intro r hr hkr hrk'
    rcases hbeyond r (hcaught r hr hkr hrk').1 with hrk | hle
    . exact hrk
    . exact absurd hrk' (not_lt.mpr hle)
  by_cases hrestart : RestartAt h k ∧ k < k'
  . rcases hcaught k hrestart.1 (le_refl k) hrestart.2 with ⟨_, q, hq, hkq, hquiet, hlt⟩
    have hk'q : k' ≤ q := (hbeyond q hq).resolve_left hkq.ne'
    have hvalue := (hquiet.mono (le_refl _) hk'q).value (Nat.succ_le_of_lt hrestart.2)
    have hrise := (hquiet.mono (Nat.succ_le_of_lt hrestart.2) (le_refl q)).value hk'q
    have hdrop : value h k' < value h k := by
      apply lt_of_le_of_lt ?_ hlt
      rw [hrise]
      exact le_add_of_nonneg_right (accrued_nonneg k' q)
    rw [increase_of_lt hdrop, hvalue, value_of_restartAt hrestart.1,
      ← accrued_add (Nat.le_succ k) (Nat.succ_le_of_lt hrestart.2), accrued_of_restartAt hrestart.1]
  . have hquiet : Quiet h k k' := by
      intro r hkr hrk' hr
      cases honly r hr hkr hrk'
      exact hrestart ⟨hr, hrk'⟩
    have hvalue := hquiet.value hkk'
    rw [hvalue, increase_of_le (le_add_of_nonneg_right (accrued_nonneg k k')), add_sub_cancel_left]

/--
Instants that show every restart between them show all that was added.
-/
theorem increases_of_caught {k : Nat} {ks : List Nat} (hsorted : (k :: ks).Pairwise (· ≤ ·))
    (hcaught : ∀ r, RestartAt h r → k ≤ r → r < ks.getLastD k → Caught h (k :: ks) r)
    : increases ((k :: ks).map (value h)) = accrued h k (ks.getLastD k) := by
  induction ks generalizing k with
  | nil => exact (accrued_self k).symm
  | cons k' ks ih =>
    have htail := (List.pairwise_cons.mp hsorted).2
    have hkk' := (List.pairwise_cons.mp hsorted).1 k' List.mem_cons_self
    have hlast := le_getLastD htail
    rw [List.getLastD_cons] at hcaught
    have hhead := increase_of_caught hsorted fun r hr hkr hrk' => hcaught r hr hkr (hrk'.trans_le hlast)
    have hrest := ih htail fun r hr hk'r hrlast => by
      rcases hcaught r hr (hkk'.trans hk'r) hrlast with ⟨hmem, q, hq, hrq, hquiet, hlt⟩
      refine ⟨?_, q, ?_, hrq, hquiet, hlt⟩
      . rcases List.mem_cons.mp hmem with rfl | hmem
        . exact List.mem_cons.mpr (Or.inl (le_antisymm hkk' hk'r))
        . exact hmem
      . rcases List.mem_cons.mp hq with rfl | hq
        . exact absurd hrq (not_lt.mpr (hkk'.trans hk'r))
        . exact hq
    rw [List.getLastD_cons, ← accrued_add hkk' hlast, ← hhead, ← hrest]
    rfl

theorem increases_of_quiet {k : Nat} {ks : List Nat} (hsorted : (k :: ks).Pairwise (· ≤ ·))
    (hquiet : Quiet h k (ks.getLastD k))
    : increases ((k :: ks).map (value h)) = accrued h k (ks.getLastD k) :=
  increases_of_caught hsorted fun r hr hkr hrlast => absurd hr (hquiet r hkr hrlast)

end History

end Counter
