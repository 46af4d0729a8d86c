import Mathlib.Logic.Function.Basic
import Mathlib.Data.List.Forall2
import Mathlib.Data.List.Nodup
import Mathlib.Order.Lattice

/-!
This module contains lists of entries with keys: the map that such a list collects into, where a later
entry of a key replaces an earlier one, the entries whose key is new, and the list sorted by its keys, which
is the same for all orders of entries with different keys. Then there are lists that are taken through one by one
and may fail, and last the maps whose entries are kept in the order of their keys.
-/

def collect {κ : Type u} {ν : Type v} [DecidableEq κ] : List (κ × ν) → κ → Option ν
  | [], _ => none
  | (k, v) :: rest, key => (collect rest key).or (if k = key then some v else none)

variable {κ : Type u} {ν : Type v} [DecidableEq κ]

theorem mem_of_collect {l : List (κ × ν)} {key : κ} {v : ν} (h : collect l key = some v)
    : (key, v) ∈ l := by
  induction l with
  | nil => simp [collect] at h
  | cons entry rest ih =>
    simp only [collect, Option.or_eq_some_iff] at h
    rcases h with h | ⟨_, h⟩
    . exact List.mem_cons_of_mem _ (ih h)
    . split at h
      next heq =>
        rw [Option.some.injEq] at h
        rw [← heq, ← h]
        exact List.mem_cons_self
      next => simp at h

theorem collect_eq_none_iff {l : List (κ × ν)} {key : κ} : collect l key = none ↔ key ∉ l.map Prod.fst := by
  induction l with
  | nil => simp [collect]
  | cons entry rest ih =>
    simp only [collect, Option.or_eq_none_iff, ih, List.map_cons, List.mem_cons, not_or]
    constructor
    . rintro ⟨hrest, hhead⟩
      refine ⟨?_, hrest⟩
      rintro rfl
      simp at hhead
    . rintro ⟨hne, hrest⟩
      exact ⟨hrest, by simp [Ne.symm hne]⟩

theorem collect_of_mem {l : List (κ × ν)} (hnodup : (l.map Prod.fst).Nodup) {key : κ} {v : ν}
    (h : (key, v) ∈ l)
    : collect l key = some v := by
  cases hc : collect l key with
  | none => exact absurd (List.mem_map_of_mem h) (collect_eq_none_iff.mp hc)
  | some w =>
    have hpair := List.inj_on_of_nodup_map hnodup (mem_of_collect hc) h rfl
    rw [Prod.mk.injEq] at hpair
    rw [hpair.2]

theorem collect_eq_find? {l : List (κ × ν)} (hnodup : (l.map Prod.fst).Nodup) (key : κ)
    : collect l key = (l.find? fun entry => entry.1 = key).map Prod.snd := by
  cases hfind : l.find? fun entry => entry.1 = key with
  | none =>
    rw [Option.map_none, collect_eq_none_iff]
    intro hmem
    rcases List.mem_map.mp hmem with ⟨entry, hentry, heq⟩
    have := List.find?_eq_none.mp hfind entry hentry
    simp [heq] at this
  | some entry =>
    have hkey : entry.1 = key := by simpa using List.find?_some hfind
    have hmem := List.mem_of_find?_eq_some hfind
    rw [Option.map_some]
    exact collect_of_mem hnodup (hkey ▸ hmem)

-- The entries whose key is new, each key kept once, beside the keys seen so far.
def keepNew {α : Type w} (key : α → κ) : List κ → List α → List κ × List α
  | seen, [] => (seen, [])
  | seen, x :: xs =>
    if key x ∈ seen then keepNew key seen xs
    else
      let (seen, kept) := keepNew key (key x :: seen) xs
      (seen, x :: kept)

theorem keepNew_nil {α : Type w} {key : α → κ} {xs : List α} (h : (keepNew key [] xs).2 = [])
    : xs = [] := by
  cases xs with
  | nil => rfl
  | cons x xs => simp [keepNew] at h

theorem keepNew_append_eq {α : Type w} (key : α → κ) (seen : List κ) (xs ys : List α)
    : keepNew key seen (xs ++ ys)
        =
      ((keepNew key (keepNew key seen xs).1 ys).1,
        (keepNew key seen xs).2 ++ (keepNew key (keepNew key seen xs).1 ys).2) := by
  induction xs generalizing seen with
  | nil => rfl
  | cons x xs ih =>
    rw [List.cons_append, keepNew, keepNew]
    split
    . exact ih seen
    . rw [ih]
      rfl

theorem eq_of_collect_eq {α : Type w} {key : α → Nat} {a b : List α}
    (ha : (a.map key).Pairwise (· < ·)) (hb : (b.map key).Pairwise (· < ·))
    (h : ∀ k, collect (a.map fun x => (key x, x)) k = collect (b.map fun x => (key x, x)) k)
    : a = b := by
  have hmem : ∀ {a : List α}, (a.map key).Pairwise (· < ·) → ∀ x,
      x ∈ a ↔ collect (a.map fun x => (key x, x)) (key x) = some x := by
    intro a ha x
    constructor
    . intro hx
      apply collect_of_mem
      . rw [List.map_map]
        exact ha.imp Nat.ne_of_lt
      . exact List.mem_map.mpr ⟨x, hx, rfl⟩
    . intro hx
      rcases List.mem_map.mp (mem_of_collect hx) with ⟨y, hy, heq⟩
      rw [Prod.mk.injEq] at heq
      exact heq.2 ▸ hy
  have hnodup : ∀ {a : List α}, (a.map key).Pairwise (· < ·) → a.Nodup := by
    intro a ha
    exact List.Nodup.of_map key (ha.imp Nat.ne_of_lt)
  have hperm : a.Perm b := by
    rw [List.perm_ext_iff_of_nodup (hnodup ha) (hnodup hb)]
    intro x
    rw [hmem ha x, hmem hb x, h]
  rw [List.pairwise_map] at ha hb
  apply hperm.eq_of_pairwise ?_ ha hb
  intro x y _ _ hxy hyx
  exact absurd hyx (Nat.lt_asymm hxy)

section SortOn

variable {κ : Type u} {α : Type w} {key : α → κ} {xs ys : List α}

def sortOn [LE κ] [DecidableLE κ] (key : α → κ) (xs : List α) : List α := xs.mergeSort fun x y => key x ≤ key y

-- The first key that stands twice in a row.
def twiceOn [DecidableEq κ] (key : α → κ) : List α → Option κ
  | x :: y :: rest => if key x = key y then some (key x) else twiceOn key (y :: rest)
  | _ => none

def SortedOn [LT κ] (key : α → κ) (xs : List α) : Prop := xs.Pairwise fun x y => key x < key y

theorem mem_sortOn [LE κ] [DecidableLE κ] {x : α} : x ∈ sortOn key xs ↔ x ∈ xs := List.mem_mergeSort

theorem sortOn_ne_nil [LE κ] [DecidableLE κ] (h : xs ≠ []) : sortOn key xs ≠ [] := by
  intro hnil
  rcases List.exists_mem_of_ne_nil xs h with ⟨x, hx⟩
  rw [← @mem_sortOn _ _ key, hnil] at hx
  cases hx

theorem twiceOn_of_nodup [DecidableEq κ] (h : (xs.map key).Nodup) : twiceOn key xs = none := by
  induction xs with
  | nil => rfl
  | cons x xs ih =>
    cases xs with
    | nil => rfl
    | cons y xs =>
      rw [List.map_cons, List.nodup_cons] at h
      have hne : key x ≠ key y := fun heq => h.1 (by simp [heq])
      rw [twiceOn, if_neg hne]
      exact ih h.2

theorem sortOn_pairwise [LE κ] [DecidableLE κ] [Std.IsLinearOrder κ] (key : α → κ) (xs : List α)
    : (sortOn key xs).Pairwise fun x y => key x ≤ key y := by
  have hsorted := @List.pairwise_mergeSort α (fun x y => key x ≤ key y)
    (by simpa using fun a b c => Std.le_trans) (by simpa using fun a b => Std.le_total) xs
  exact hsorted.imp of_decide_eq_true

theorem sublist_sortOn [LE κ] [DecidableLE κ] [Std.IsLinearOrder κ] (hys : ys.Pairwise fun x y => key x ≤ key y)
    (h : ys.Sublist xs)
    : ys.Sublist (sortOn key xs) := by
  apply List.sublist_mergeSort
  . simpa using fun a b c => Std.le_trans
  . simpa using fun a b => Std.le_total
  . exact hys.imp decide_eq_true
  . exact h

variable [LE κ] [LT κ] [Std.LawfulOrderLT κ]

theorem sortOn_of_sortedOn [DecidableLE κ] (h : SortedOn key xs) : sortOn key xs = xs := by
  apply List.mergeSort_of_pairwise
  exact h.imp fun hlt => by simpa using Std.le_of_lt hlt

theorem SortedOn.nodup (h : SortedOn key xs) : (xs.map key).Nodup := by
  rw [List.Nodup, List.pairwise_map]
  exact h.imp Std.ne_of_lt

variable [Std.IsLinearOrder κ]

theorem sortedOn_of_twiceOn [DecidableEq κ] (hsorted : xs.Pairwise fun x y => key x ≤ key y) (h : twiceOn key xs = none)
    : SortedOn key xs := by
  induction xs with
  | nil => exact List.Pairwise.nil
  | cons x xs ih =>
    cases xs with
    | nil => exact List.pairwise_singleton _ _
    | cons y xs =>
      rw [twiceOn] at h
      split at h
      next => cases h
      next hne =>
        have htail : SortedOn key (y :: xs) := ih hsorted.of_cons h
        have hxy : key x < key y :=
          Std.lt_of_le_of_ne (List.rel_of_pairwise_cons hsorted List.mem_cons_self) hne
        refine List.Pairwise.cons ?_ htail
        intro z hz
        rcases List.mem_cons.mp hz with rfl | hz
        . exact hxy
        . exact Std.lt_trans hxy (List.rel_of_pairwise_cons htail hz)

theorem twiceOn_sortOn_eq_none_iff [DecidableEq κ] [DecidableLE κ] : twiceOn key (sortOn key xs) = none ↔ (xs.map key).Nodup := by
  have hperm : ((sortOn key xs).map key).Perm (xs.map key) := (List.mergeSort_perm xs _).map key
  rw [← hperm.nodup_iff]
  constructor
  . intro h
    exact (sortedOn_of_twiceOn (sortOn_pairwise key xs) h).nodup
  . exact twiceOn_of_nodup

theorem SortedOn.eq_of_mem_iff (hx : SortedOn key xs) (hy : SortedOn key ys) (h : ∀ a, a ∈ xs ↔ a ∈ ys) : xs = ys := by
  have hnodup : ∀ {zs : List α}, SortedOn key zs → zs.Nodup := fun hz => List.Nodup.of_map key hz.nodup
  have hperm : xs.Perm ys := (List.perm_ext_iff_of_nodup (hnodup hx) (hnodup hy)).mpr h
  apply hperm.eq_of_pairwise ?_ hx hy
  intro a b _ _ hab hba
  exact absurd (Std.lt_trans hab hba) Std.lt_irrefl

end SortOn

section MapM

variable {α : Type u} {β : Type v} {ε : Type w} {f : α → Except ε β} {xs : List α} {ys : List β}

theorem mapM_eq_ok_iff : xs.mapM f = .ok ys ↔ List.Forall₂ (fun x y => f x = .ok y) xs ys := by
  induction xs generalizing ys with
  | nil => cases ys <;> simp [pure, Except.pure]
  | cons x xs ih =>
    rw [List.mapM_cons]
    cases hx : f x with
    | error e => cases ys <;> simp [bind, Except.bind, hx]
    | ok y =>
      cases hrest : xs.mapM f with
      | error e => cases ys <;> simp [bind, Except.bind, ← ih, hx, hrest]
      | ok rest => cases ys <;> simp [bind, Except.bind, pure, Except.pure, ← ih, hx, hrest]

theorem exists_of_mem_forall₂ {R : α → β → Prop} (h : List.Forall₂ R xs ys) {x : α} (hx : x ∈ xs) : ∃ y ∈ ys, R x y := by
  induction h with
  | nil => cases hx
  | cons hxy _ ih =>
    rcases List.mem_cons.mp hx with rfl | hx
    . exact ⟨_, List.mem_cons_self, hxy⟩
    . rcases ih hx with ⟨y, hy, hxy⟩
      exact ⟨y, List.mem_cons_of_mem _ hy, hxy⟩

theorem exists_mapM_eq_ok_iff : (∃ ys, xs.mapM f = .ok ys) ↔ ∀ x ∈ xs, ∃ y, f x = .ok y := by
  constructor
  . rintro ⟨ys, h⟩ x hx
    rcases exists_of_mem_forall₂ (mapM_eq_ok_iff.mp h) hx with ⟨y, _, hy⟩
    exact ⟨y, hy⟩
  . intro h
    induction xs with
    | nil => exact ⟨[], rfl⟩
    | cons x xs ih =>
      rcases h x List.mem_cons_self with ⟨y, hy⟩
      rcases ih fun x' hx' => h x' (List.mem_cons_of_mem _ hx') with ⟨ys, hys⟩
      exact ⟨y :: ys, mapM_eq_ok_iff.mpr (.cons hy (mapM_eq_ok_iff.mp hys))⟩

end MapM

section FoldlM

variable {σ : Type u} {ι : Type v} {ε : Type w} {step : σ → ι → Except ε σ} {s t : σ}

theorem foldlM_cons_ok {i : ι} (h : step s i = .ok t) (rest : List ι) : (i :: rest).foldlM step s = rest.foldlM step t := by
  rw [List.foldlM_cons, h]
  rfl

theorem foldlM_append_ok {pre : List ι} (h : pre.foldlM step s = .ok t) (post : List ι)
    : (pre ++ post).foldlM step s = post.foldlM step t := by
  rw [List.foldlM_append, h]
  rfl

end FoldlM

namespace Entries

variable {κ : Type u} {ν : Type v} [LinearOrder κ] {key k : κ} {m : List (κ × ν)}

def get (key : κ) : List (κ × ν) → Option ν
  | [] => none
  | (k, v) :: rest => if k = key then some v else get key rest

def orInsert (key : κ) (v : ν) : List (κ × ν) → List (κ × ν)
  | [] => [(key, v)]
  | (k, w) :: rest =>
    if key < k then (key, v) :: (k, w) :: rest
    else if key = k then (k, w) :: rest
    else (k, w) :: orInsert key v rest

def erase (key : κ) (m : List (κ × ν)) : List (κ × ν) := m.filter fun e => e.1 ≠ key

def modify (key : κ) (f : ν → ν) (m : List (κ × ν)) : List (κ × ν) :=
  m.map fun e => if e.1 = key then (e.1, f e.2) else e

def Sorted (m : List (κ × ν)) : Prop := m.Pairwise fun a b => a.1 < b.1

theorem get_eq_none_of_lt (h : ∀ e ∈ m, key < e.1) : get key m = none := by
  induction m with
  | nil => rfl
  | cons e rest ih =>
    have hne : e.1 ≠ key := (h e List.mem_cons_self).ne'
    rw [get, if_neg hne]
    exact ih fun e he => h e (List.mem_cons_of_mem _ he)

theorem get_orInsert (h : Sorted m) (key k : κ) (v : ν)
    : get k (orInsert key v m) = if k = key then some ((get key m).getD v) else get k m := by
  induction m with
  | nil => simp [orInsert, get, eq_comm]
  | cons e rest ih =>
    obtain ⟨he, hrest⟩ := List.pairwise_cons.mp h
    rcases lt_trichotomy key e.1 with hlt | heq | hgt
    . have hnone : get key (e :: rest) = none :=
        get_eq_none_of_lt (List.forall_mem_cons.mpr ⟨hlt, fun x hx => hlt.trans (he x hx)⟩)
      rw [orInsert, if_pos hlt, hnone, get, Option.getD_none]
      simp only [eq_comm]
    . rw [orInsert, if_neg heq.ge.not_gt, if_pos heq]
      split
      . next hk => simp [get, hk, heq]
      . rfl
    . rw [orInsert, if_neg hgt.not_gt, if_neg hgt.ne', get, ih hrest, get, get, if_neg hgt.ne]
      by_cases hk : k = key
      . rw [if_pos hk, if_pos hk, hk, if_neg hgt.ne]
      . rw [if_neg hk, if_neg hk]

theorem get_erase (key k : κ) (m : List (κ × ν)) : get k (erase key m) = if k = key then none else get k m := by
  induction m with
  | nil => simp [erase, get]
  | cons e rest ih =>
    by_cases he : e.1 = key
    . have herase : erase key (e :: rest) = erase key rest := by simp [erase, he]
      rw [herase, ih]
      split
      . rfl
      . next hk => rw [get, if_neg fun h => hk (h.symm.trans he)]
    . have herase : erase key (e :: rest) = e :: erase key rest := by simp [erase, he]
      rw [herase, get, ih, get]
      by_cases hk : e.1 = k
      . rw [if_pos hk, if_pos hk, if_neg fun h => he (hk.trans h)]
      . rw [if_neg hk, if_neg hk]

theorem get_modify (key k : κ) (f : ν → ν) (m : List (κ × ν))
    : get k (modify key f m) = if k = key then (get key m).map f else get k m := by
  induction m with
  | nil => simp [modify, get]
  | cons e rest ih =>
    have hmodify : modify key f (e :: rest) = (e.1, if e.1 = key then f e.2 else e.2) :: modify key f rest := by
      unfold modify
      rw [List.map_cons]
      split <;> rfl
    rw [hmodify, get, ih, get, get]
    by_cases hk : e.1 = k
    . subst hk
      by_cases he : e.1 = key <;> simp [he]
    . by_cases he : e.1 = key
      . have hne : k ≠ key := fun h => hk (he.trans h.symm)
        simp [hk, hne]
      . simp [hk, he]

theorem get_map {μ : Type w} (f : ν → μ) (key : κ) (m : List (κ × ν))
    : get key (m.map fun e => (e.1, f e.2)) = (get key m).map f := by
  induction m with
  | nil => rfl
  | cons e rest ih =>
    rw [List.map_cons, get, get, ih]
    split <;> rfl

theorem mem_orInsert {key : κ} {v : ν} {e : κ × ν} (h : e ∈ orInsert key v m) : e.1 = key ∨ e ∈ m := by
  induction m with
  | nil => exact .inl (by simp_all [orInsert])
  | cons x rest ih =>
    rw [orInsert] at h
    split at h
    . rcases List.mem_cons.mp h with rfl | h
      . exact .inl rfl
      . exact .inr h
    . split at h
      . exact .inr h
      . rcases List.mem_cons.mp h with rfl | h
        . exact .inr List.mem_cons_self
        . exact (ih h).imp id (List.mem_cons_of_mem _)

theorem Sorted.orInsert (h : Sorted m) (key : κ) (v : ν) : Sorted (orInsert key v m) := by
  induction m with
  | nil => exact List.pairwise_singleton _ _
  | cons e rest ih =>
    obtain ⟨he, hrest⟩ := List.pairwise_cons.mp h
    rw [Entries.orInsert]
    split
    . next hlt => exact List.pairwise_cons.mpr ⟨List.forall_mem_cons.mpr ⟨hlt, fun x hx => hlt.trans (he x hx)⟩, h⟩
    . next hge =>
      split
      . exact h
      . next hne =>
        refine List.pairwise_cons.mpr ⟨?_, ih hrest⟩
        intro x hx
        rcases mem_orInsert hx with heq | hx
        . rw [heq]
          exact lt_of_le_of_ne (not_lt.mp hge) (Ne.symm hne)
        . exact he x hx

theorem Sorted.erase (h : Sorted m) (key : κ) : Sorted (erase key m) := List.Pairwise.filter _ h

theorem Sorted.modify (h : Sorted m) (key : κ) (f : ν → ν) : Sorted (modify key f m) := by
  unfold Entries.modify
  apply List.pairwise_map.mpr
  apply List.Pairwise.imp _ h
  intro a b hab
  split <;> split <;> exact hab

theorem Sorted.map {μ : Type w} (h : Sorted m) (f : ν → μ) : Sorted (m.map fun e => (e.1, f e.2)) :=
  List.pairwise_map.mpr h

theorem get_eq_some_iff (h : Sorted m) {v : ν} : get key m = some v ↔ (key, v) ∈ m := by
  induction m with
  | nil => simp [get]
  | cons e rest ih =>
    obtain ⟨he, hrest⟩ := List.pairwise_cons.mp h
    rw [get]
    split
    . next heq =>
      rw [Option.some.injEq, List.mem_cons]
      constructor
      . rintro rfl
        exact .inl (by rw [← heq])
      . rintro (rfl | hmem)
        . rfl
        . exact absurd heq (he _ hmem).ne
    . next hne =>
      rw [ih hrest, List.mem_cons]
      constructor
      . exact .inr
      . rintro (rfl | hmem)
        . exact absurd rfl hne
        . exact hmem

end Entries
