import Mathlib.Data.List.AList
import Mathlib.Algebra.BigOperators.Group.List.Basic
import Mathlib.Algebra.Order.BigOperators.Group.List
import Mathlib.Algebra.Ring.Nat
import Mathlib.Algebra.Order.Group.Nat

/-!
This module contains the weight of an association list, the sum of a natural number over its
entries, and how the weight moves when an entry is inserted or erased.
-/

namespace AList

variable {α : Type u} {β : α → Type v}

def weight (f : (a : α) → β a → Nat) (m : AList β) : Nat :=
  (m.entries.map fun e => f e.1 e.2).sum

@[simp]
theorem weight_empty (f : (a : α) → β a → Nat) : weight f (∅ : AList β) = 0 := rfl

theorem weight_mono {f g : (a : α) → β a → Nat} (h : ∀ a b, f a b ≤ g a b) (m : AList β)
    : weight f m ≤ weight g m := by
  unfold weight
  apply List.sum_le_sum
  intro e _
  exact h e.1 e.2

def mapVals (f : (a : α) → β a → β a) (m : AList β) : AList β where
  entries := m.entries.map fun e => ⟨e.1, f e.1 e.2⟩
  nodupKeys := by
    have h := m.nodupKeys
    unfold List.NodupKeys List.keys at h ⊢
    rw [List.map_map]
    exact h

@[simp]
theorem keys_mapVals (f : (a : α) → β a → β a) (m : AList β) : (m.mapVals f).keys = m.keys := by
  unfold keys List.keys mapVals
  rw [List.map_map]
  rfl

variable [DecidableEq α]

theorem mem_of_lookup {a : α} {b : β a} {m : AList β} (h : m.lookup a = some b) : a ∈ m := by
  rw [← lookup_isSome, h]
  rfl

theorem keys_insert_of_notMem {a : α} {b : β a} {m : AList β} (h : a ∉ m)
    : (m.insert a b).keys = a :: m.keys := by
  unfold keys
  rw [entries_insert_of_notMem h]
  rfl

theorem length_entries_insert_le (a : α) (b : β a) (m : AList β)
    : (m.insert a b).entries.length ≤ m.entries.length + 1 := by
  rw [entries_insert, List.length_cons]
  exact Nat.succ_le_succ (List.kerase_sublist a m.entries).length_le

theorem weight_insert_of_notMem (f : (a : α) → β a → Nat) {a : α} {b : β a} {m : AList β}
    (h : a ∉ m)
    : weight f (m.insert a b) = f a b + weight f m := by
  unfold weight
  rw [entries_insert_of_notMem h]
  simp

theorem weight_insert (f : (a : α) → β a → Nat) (a : α) (b : β a) (m : AList β)
    : weight f (m.insert a b) = f a b + weight f (m.erase a) := by
  unfold weight
  rw [entries_insert]
  rfl

theorem weight_erase_le (f : (a : α) → β a → Nat) (a : α) (m : AList β)
    : weight f (m.erase a) ≤ weight f m := by
  unfold weight
  apply List.Sublist.sum_le_sum
  . exact (List.kerase_sublist a m.entries).map _
  . exact fun _ _ => Nat.zero_le _

theorem entries_erase_eq_filter (a : α) (m : AList β)
    : (m.erase a).entries = m.entries.filter (·.1 ≠ a) := by
  suffices hgo : ∀ l : List (Sigma β), l.NodupKeys → l.kerase a = l.filter (·.1 ≠ a) from
    hgo m.entries m.nodupKeys
  intro l
  induction l with
  | nil =>
    intro _
    rfl
  | cons e l ih =>
    intro hl
    rw [List.nodupKeys_cons] at hl
    by_cases he : a = e.1
    . have hall : l.filter (·.1 ≠ a) = l := by
        rw [List.filter_eq_self]
        intro e' he'
        have hkey : e'.1 ∈ l.keys := List.mem_map_of_mem he'
        have hne : e'.1 ≠ a := by
          intro heq
          rw [he] at heq
          rw [heq] at hkey
          exact hl.1 hkey
        simpa using hne
      rw [List.kerase_cons_eq he, List.filter_cons_of_neg (by simp [he]), hall]
    . rw [List.kerase_cons_ne he, List.filter_cons_of_pos (by simpa using fun h => he h.symm)]
      rw [ih hl.2]

theorem entries_perm_of_lookup {a : α} {b : β a} {m : AList β} (h : m.lookup a = some b)
    : m.entries.Perm (⟨a, b⟩ :: (m.erase a).entries) := by
  have hmem : a ∈ m := mem_of_lookup h
  obtain ⟨b', l₁, l₂, hl₁, hl, hk⟩ := List.exists_of_kerase hmem
  have hb : b' = b := by
    have hb' : ⟨a, b'⟩ ∈ m.entries := by simp [hl]
    rw [← mem_lookup_iff, h] at hb'
    simpa using hb'.symm
  show m.entries.Perm (⟨a, b⟩ :: m.entries.kerase a)
  rw [hk, hl, hb]
  apply List.perm_middle

theorem keys_perm_of_lookup {a : α} {b : β a} {m : AList β} (h : m.lookup a = some b)
    : m.keys.Perm (a :: (m.erase a).keys) :=
  (entries_perm_of_lookup h).map Sigma.fst

theorem lookup_of_lookup_erase {a a' : α} {b : β a'} {m : AList β}
    (h : (m.erase a).lookup a' = some b)
    : m.lookup a' = some b := by
  by_cases heq : a' = a
  . subst heq
    rw [lookup_erase] at h
    cases h
  . rw [lookup_erase_ne heq] at h
    exact h

theorem weight_erase_of_lookup (f : (a : α) → β a → Nat) {a : α} {b : β a} {m : AList β}
    (h : m.lookup a = some b)
    : weight f m = f a b + weight f (m.erase a) := by
  unfold weight
  rw [((entries_perm_of_lookup h).map _).sum_eq]
  simp

theorem exists_of_weight_pos {f : (a : α) → β a → Nat} {m : AList β} (h : 0 < weight f m)
    : ∃ a b, m.lookup a = some b ∧ 0 < f a b := by
  by_contra hno
  have hzero : weight f m = 0 := by
    unfold weight
    apply List.sum_eq_zero
    intro n hn
    obtain ⟨e, he, rfl⟩ := List.mem_map.mp hn
    have hlookup : m.lookup e.1 = some e.2 := mem_lookup_iff.mpr he
    by_contra hne
    exact hno ⟨e.1, e.2, hlookup, Nat.pos_of_ne_zero hne⟩
  omega

end AList
