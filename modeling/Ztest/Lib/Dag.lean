import Mathlib.Order.WellFoundedSet
import Mathlib.Data.List.Nodup
import Mathlib.Data.List.Perm.Basic
import Ztest.Lib.Trace

/-!
This module contains acyclic relations with finitely many related elements, where `R a b` reads as `a`
depends on `b`, and what is reached from a list of nodes, given the children of each: row by row, and depth
first.
-/

namespace Dag

variable {α : Type u} {R : α → α → Prop}

def Acyclic (R : α → α → Prop) : Prop := ∀ a, ¬Relation.TransGen R a a

theorem wellFounded_transGen_of_acyclic {nodes : List α} (hnodes : ∀ a b, R a b → b ∈ nodes)
    (h : Acyclic R)
    : WellFounded fun b a => Relation.TransGen R a b := by
  have hirrefl : Std.Irrefl fun b a => Relation.TransGen R a b := ⟨h⟩
  have htrans : IsTrans α fun b a => Relation.TransGen R a b := ⟨fun _ _ _ hba hcb => hcb.trans hba⟩
  have hmem : ∀ a b, Relation.TransGen R a b → b ∈ nodes := by
    intro a b hab
    cases hab with
    | single hstep => exact hnodes _ _ hstep
    | tail _ hstep => exact hnodes _ _ hstep
  have hon : {b | b ∈ nodes}.WellFoundedOn fun b a => Relation.TransGen R a b := by
    have hstrict : IsStrictOrder α fun b a => Relation.TransGen R a b := ⟨⟩
    exact nodes.finite_toSet.wellFoundedOn
  have hacc : ∀ b ∈ nodes, Acc (fun b a => Relation.TransGen R a b) b := by
    intro b hb
    apply hon.induction hb
    intro b _ ih
    exact ⟨_, fun c hbc => ih c (hmem _ _ hbc) hbc⟩
  exact ⟨fun a => ⟨_, fun b hab => hacc b (hmem _ _ hab)⟩⟩

/--
Induction from what is depended on to what depends on it.
-/
theorem Acyclic.induction {nodes : List α} (h : Acyclic R) (hnodes : ∀ a b, R a b → b ∈ nodes)
    {P : α → Prop} (hstep : ∀ a, (∀ b, R a b → P b) → P a) (a : α)
    : P a := by
  apply (wellFounded_transGen_of_acyclic hnodes h).induction a
  intro a ih
  exact hstep a fun b hab => ih b (.single hab)

/--
Among the elements of `P` there is one that depends on no other of them.
-/
theorem Acyclic.exists_first {nodes : List α} (h : Acyclic R) (hnodes : ∀ a b, R a b → b ∈ nodes)
    {P : α → Prop} {a : α} (ha : P a)
    : ∃ b, P b ∧ ∀ c, P c → ¬R b c := by
  by_contra hno
  suffices hnone : ∀ a, ¬P a from hnone a ha
  intro a
  apply h.induction hnodes (P := fun a => ¬P a)
  intro a ih hPa
  exact hno ⟨a, hPa, fun c hc hac => ih c hac hc⟩

theorem Acyclic.flip (h : Acyclic R) : Acyclic fun a b => R b a := by
  intro a hcycle
  exact h a (Relation.transGen_swap.mp hcycle)

/--
What an element of the list depends on comes before it.
-/
def Ordered (R : α → α → Prop) (order : List α) : Prop :=
  Trace.Before (fun pre a => ∀ b, R a b → b ∈ pre) order

theorem Ordered.append {order new : List α} (h : Ordered R order)
    (hnew : ∀ a ∈ new, ∀ b, R a b → b ∈ order)
    : Ordered R (order ++ new) := by
  apply Trace.Before.append h
  intro pre a post heq b hab
  apply List.mem_append_left
  exact hnew a (by simp [heq]) b hab

theorem Ordered.acyclic {order : List α} (h : Ordered R order) (hnodup : order.Nodup)
    (hnodes : ∀ a b, R a b → a ∈ order)
    : Acyclic R := by
  -- The position of an element bounds the position of everything it reaches.
  have hbefore : ∀ a b, Relation.TransGen R a b →
      ∀ pre post, order = pre ++ a :: post → b ∈ pre := by
    intro a b hab
    induction hab using Relation.TransGen.head_induction_on with
    | single hstep =>
      intro pre post horder
      exact h pre _ post horder _ hstep
    | head hstep _ ih =>
      intro pre post horder
      have hmid := h pre _ post horder _ hstep
      obtain ⟨pre₁, pre₂, rfl⟩ := List.append_of_mem hmid
      rw [List.append_assoc, List.cons_append] at horder
      have hb := ih pre₁ _ horder
      exact List.mem_append_left _ hb
  intro a hcycle
  have ha : a ∈ order := by
    obtain ⟨b, hab, _⟩ := Relation.TransGen.head'_iff.mp hcycle
    exact hnodes a b hab
  obtain ⟨pre, post, horder⟩ := List.append_of_mem ha
  have hpre := hbefore a a hcycle pre post horder
  rw [horder] at hnodup
  exact (List.nodup_append.mp hnodup).2.2 a hpre a List.mem_cons_self rfl

end Dag

namespace Forest

variable {α : Type} (kids : α → List α)

def rows : Nat → List α → List (List α)
  | 0, _ => []
  | n + 1, row => row :: rows n (row.flatMap kids)

def below : Nat → α → List α
  | 0, _ => []
  | n + 1, a => a :: (kids a).flatMap (below n)

theorem flatMap_cons_perm (f : α → List α) (row : List α) : (row.flatMap fun a => a :: f a).Perm (row ++ row.flatMap f) := by
  induction row with
  | nil => exact .nil
  | cons a row ih =>
    rw [List.flatMap_cons, List.flatMap_cons, List.cons_append, List.cons_append]
    apply List.Perm.cons
    exact (ih.append_left (f a)).trans (List.perm_append_comm_assoc ..)

/--
The rows hold the nodes that the depth-first walks meet, each as often.
-/
theorem rows_perm_below (n : Nat) (row : List α) : (rows kids n row).flatten.Perm (row.flatMap (below kids n)) := by
  induction n generalizing row with
  | zero => simp [rows, below]
  | succ n ih =>
    rw [rows, List.flatten_cons]
    apply ((ih (row.flatMap kids)).append_left row).trans
    rw [List.flatMap_assoc]
    exact (flatMap_cons_perm (fun a => (kids a).flatMap (below kids n)) row).symm

variable {kids} {P : α → Prop}

end Forest
