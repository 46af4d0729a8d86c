import Mathlib.Algebra.BigOperators.Group.List.Basic
import Mathlib.Algebra.Ring.Nat
import Mathlib.Data.List.Chain
import Mathlib.Data.List.Induction
import Mathlib.Data.List.Basic

/-!
This module contains the greedy pass over a queue: it takes what fits beside the entries taken so far,
and goes on past an entry that does not. It also contains the greedy filling of rows, where an entry that
does not fit into a row opens the next one.
-/

namespace Greedy

variable {α : Type} (fits : List α → α → Bool)

def visit (acc : List α × List α) (x : α) : List α × List α :=
  if fits acc.1 x then (acc.1 ++ [x], acc.2) else (acc.1, acc.2 ++ [x])

def pass (queue : List α) : List α × List α := queue.foldl (visit fits) ([], [])

variable {fits}

theorem pass_append (queue : List α) (x : α) : pass fits (queue ++ [x]) = visit fits (pass fits queue) x := by
  rw [pass, List.foldl_append]
  rfl

theorem taken_sublist (queue : List α) : (pass fits queue).1.Sublist queue := by
  induction queue using List.reverseRecOn with
  | nil => exact .slnil
  | append_singleton queue x ih =>
    rw [pass_append, visit]
    split
    . exact ih.append (List.Sublist.refl _)
    . exact ih.trans (List.sublist_append_left _ _)

theorem left_sublist (queue : List α) : (pass fits queue).2.Sublist queue := by
  induction queue using List.reverseRecOn with
  | nil => exact .slnil
  | append_singleton queue x ih =>
    rw [pass_append, visit]
    split
    . exact ih.trans (List.sublist_append_left _ _)
    . exact ih.append (List.Sublist.refl _)

/--
An entry that is left did not fit beside the earlier entries that were taken.
-/
theorem left_not_fits {key : α → Nat} {queue : List α} (hordered : queue.Pairwise fun x y => key x < key y)
    : ∀ x ∈ (pass fits queue).2, fits ((pass fits queue).1.filter fun y => key y < key x) x = false := by
  induction queue using List.reverseRecOn with
  | nil =>
    intro x hx
    cases hx
  | append_singleton queue last ih =>
    rw [List.pairwise_append] at hordered
    rcases hordered with ⟨hqueue, _, hlast⟩
    have hbelow : ∀ y ∈ queue, key y < key last := fun y hy => hlast y hy last List.mem_cons_self
    rw [pass_append, visit]
    cases hfits : fits (pass fits queue).1 last with
    | true =>
      rw [if_pos rfl]
      intro x hx
      -- The last entry comes after all that are left.
      have hx' := hbelow x ((left_sublist queue).subset hx)
      rw [List.filter_append, List.filter_singleton, decide_eq_false (Nat.lt_asymm hx')]
      simpa using ih hqueue x hx
    | false =>
      rw [if_neg Bool.false_ne_true]
      intro x hx
      rcases List.mem_append.mp hx with hx | hx
      . exact ih hqueue x hx
      . rw [List.mem_singleton.mp hx, List.filter_eq_self.mpr]
        . exact hfits
        . intro y hy
          exact decide_eq_true (hbelow y ((taken_sublist queue).subset hy))

section Fill

variable (size : α → Nat) (cap : Nat)

def total (group : List α) : Nat := (group.map size).sum

def put (s : List (List α) × List α) (x : α) : List (List α) × List α :=
  if cap < total size s.2 + size x then (s.1 ++ [s.2], [x]) else (s.1, s.2 ++ [x])

def groups (s : List (List α) × List α) : List (List α) := s.1 ++ [s.2]

def fill (xs : List α) : List (List α) := groups (xs.foldl (put size cap) ([], []))

-- What opens the next group does not fit into the one before.
def Full (group next : List α) : Prop := ∃ x ∈ next.head?, cap < total size group + size x

variable {size} {cap}

theorem total_append (group group' : List α) : total size (group ++ group') = total size group + total size group' := by
  rw [total, List.map_append, List.sum_append]
  rfl

theorem total_singleton (x : α) : total size [x] = size x := by simp [total]

theorem fill_concat (xs : List α) (x : α)
    : fill size cap (xs ++ [x]) = groups (put size cap (xs.foldl (put size cap) ([], [])) x) := by
  rw [fill, List.foldl_append]
  rfl

theorem fill_ne_nil (xs : List α) : fill size cap xs ≠ [] := List.append_ne_nil_of_right_ne_nil _ (List.cons_ne_nil _ _)

theorem fill_flatten (xs : List α) : (fill size cap xs).flatten = xs := by
  induction xs using List.reverseRecOn with
  | nil => rfl
  | append_singleton xs x ih =>
    rw [fill, groups, List.flatten_append, List.flatten_singleton] at ih
    rw [fill_concat, put]
    split
    . rw [groups, List.flatten_append, List.flatten_append, List.flatten_singleton, List.flatten_singleton, ih]
    . rw [groups, List.flatten_append, List.flatten_singleton, ← List.append_assoc, ih]

theorem fill_fits (xs : List α) (h : ∀ x ∈ xs, size x ≤ cap) : ∀ group ∈ fill size cap xs, total size group ≤ cap := by
  induction xs using List.reverseRecOn with
  | nil => simp [fill, groups, total]
  | append_singleton xs x ih =>
    have ih := ih fun y hy => h y (List.mem_append_left [x] hy)
    have hx := h x (List.mem_append_right xs List.mem_cons_self)
    rw [fill, groups, List.forall_mem_append, List.forall_mem_singleton] at ih
    rw [fill_concat, put]
    split
    . rw [groups, List.forall_mem_append, List.forall_mem_append, List.forall_mem_singleton, List.forall_mem_singleton,
        total_singleton]
      exact ⟨ih, hx⟩
    next hfits =>
      rw [groups, List.forall_mem_append, List.forall_mem_singleton, total_append, total_singleton]
      exact ⟨ih.1, Nat.le_of_not_lt hfits⟩

theorem fill_full (xs : List α) : (fill size cap xs).IsChain (Full size cap) := by
  induction xs using List.reverseRecOn with
  | nil => exact List.isChain_singleton _
  | append_singleton xs x ih =>
    rw [fill_concat, put]
    split
    next hover =>
      refine ih.append (List.isChain_singleton _) ?_
      intro group hgroup next hnext
      rw [fill, groups, List.getLast?_concat, Option.mem_some_iff] at hgroup
      cases hgroup
      cases hnext
      exact ⟨x, rfl, hover⟩
    . rw [fill, groups, List.isChain_append] at ih
      rcases ih with ⟨hclosed, _, hopen⟩
      refine hclosed.append (List.isChain_singleton _) ?_
      intro group hgroup next hnext
      cases hnext
      rcases hopen group hgroup _ rfl with ⟨y, hy, hover⟩
      exact ⟨y, List.mem_head?_append_of_mem_head? hy, hover⟩

end Fill

end Greedy
