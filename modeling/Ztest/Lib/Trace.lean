import Mathlib.Data.List.Chain
import Mathlib.Data.List.Induction
import Mathlib.Data.List.Infix
import Mathlib.Order.Lattice

/-!
This module contains properties of traces, that is of lists that grow at the end: `Always P` says that
`P` holds of every prefix, `Before Q` that every entry is justified by the entries before it. `Since Q` is
where the last entry stands that `Q` marks.

A stopwatch over a list of observations is set by the first observation of a kind, and runs on, whatever comes,
until one that clears it.

The latest rise of a list is the last entry that exceeds the one before it, or the first entry when
nothing rose.
-/

namespace Trace

variable {α : Type u}

def Always (P : List α → Prop) (l : List α) : Prop := ∀ pre, pre <+: l → P pre

def Before (Q : List α → α → Prop) (l : List α) : Prop :=
  ∀ pre a post, l = pre ++ a :: post → Q pre a

variable {P : List α → Prop} {Q : List α → α → Prop}

theorem Always.self {l : List α} (h : Always P l) : P l := h l (List.prefix_refl l)

theorem always_nil : Always P [] ↔ P [] := by
  constructor
  . intro h
    exact h.self
  . intro h pre hpre
    rw [List.prefix_nil.mp hpre]
    exact h

theorem Always.concat {l : List α} {a : α} (h : Always P l) (ha : P (l ++ [a]))
    : Always P (l ++ [a]) := by
  intro pre hpre
  rcases List.prefix_concat_iff.mp hpre with rfl | hpre
  . exact ha
  . apply h
    exact hpre

theorem before_nil : Before Q [] := by
  intro pre a post h
  simp at h

theorem Before.append {l new : List α} (h : Before Q l)
    (hnew : ∀ pre a post, new = pre ++ a :: post → Q (l ++ pre) a)
    : Before Q (l ++ new) := by
  intro pre a post heq
  rcases List.append_eq_append_iff.mp heq with ⟨mid, hpre, hpost⟩ | ⟨mid, hpre, hpost⟩
  . rw [hpre]
    exact hnew mid a post hpost
  . cases mid with
    | nil =>
      rw [List.append_nil] at hpre
      have := hnew [] a post hpost.symm
      rwa [List.append_nil, hpre] at this
    | cons a' mid =>
      rw [List.cons_append, List.cons.injEq] at hpost
      obtain ⟨rfl, _⟩ := hpost
      exact h pre a mid hpre

theorem Before.concat {l : List α} {a : α} (h : Before Q l) (ha : Q l a) : Before Q (l ++ [a]) := by
  apply h.append
  intro pre b post heq
  rcases List.singleton_eq_append_iff.mp heq with ⟨rfl, hb⟩ | ⟨_, hb⟩
  . cases hb
    rw [List.append_nil]
    exact ha
  . cases hb

-- The trace ends in entries that are not marked, and the one before them is.
structure Since (Q : List α → α → Prop) (pre post : List α) : Prop where
  clear : Before (fun mid a => ¬Q (pre ++ mid) a) post
  marked : ∀ init a, pre = init ++ [a] → Q init a

theorem Since.nil : Since Q [] [] where
  clear := before_nil
  marked := by
    intro init a heq
    simp at heq

theorem Since.of_marked {l : List α} {a : α} (h : Q l a) : Since Q (l ++ [a]) [] where
  clear := before_nil
  marked := by
    intro init b heq
    rw [List.append_singleton_inj] at heq
    rwa [← heq.1, ← heq.2]

theorem Since.concat {pre post : List α} {a : α} (h : Since Q pre post) (ha : ¬Q (pre ++ post) a) : Since Q pre (post ++ [a]) where
  clear := h.clear.concat ha
  marked := h.marked

theorem Since.of_mem {pre post before after : List α} {a : α} (h : Since Q pre post) (heq : pre ++ post = before ++ a :: after)
    (ha : Q before a)
    : ∃ rest, pre = before ++ a :: rest := by
  rcases List.append_eq_append_iff.mp heq with ⟨mid, hbefore, hpost⟩ | ⟨mid, hpre, hafter⟩
  . rw [hbefore] at ha
    exact absurd ha (h.clear mid a after hpost)
  . cases mid with
    | nil =>
      rw [List.append_nil] at hpre
      have hclear : ¬Q (pre ++ []) a := h.clear [] a after hafter.symm
      rw [List.append_nil, hpre] at hclear
      exact absurd ha hclear
    | cons b mid =>
      rw [List.cons_append, List.cons.injEq] at hafter
      exact ⟨mid, by rw [hpre, hafter.1]⟩

end Trace

namespace Stopwatch

variable {α : Type} (sets clears : α → Bool)

def tick (running : List α) (x : α) : List α :=
  if clears x then [] else if running.isEmpty && !sets x then [] else running ++ [x]

/--
The observations from the one that set the stopwatch on, none if it does not run.
-/
def since (xs : List α) : List α := xs.foldl (tick sets clears) []

theorem since_concat (xs : List α) (x : α)
    : since sets clears (xs ++ [x]) = tick sets clears (since sets clears xs) x := by
  rw [since, List.foldl_append]
  rfl

theorem since_suffix (xs : List α) : since sets clears xs <:+ xs := by
  induction xs using List.reverseRecOn with
  | nil => exact List.suffix_refl []
  | append_singleton xs x ih =>
    rw [since_concat, tick]
    split
    . exact List.nil_suffix
    . split
      . exact List.nil_suffix
      . rcases ih with ⟨before, h⟩
        exact ⟨before, by rw [← List.append_assoc, h]⟩

variable {sets clears} {xs : List α} {x : α}

theorem since_clear (h : clears x = true) : since sets clears (xs ++ [x]) = [] := by
  rw [since_concat, tick, if_pos h]

-- An observation that does not clear it leaves a running stopwatch alone.
theorem head?_since (h : clears x = false)
    : (since sets clears (xs ++ [x])).head? =
        (since sets clears xs).head?.or (if sets x then some x else none) := by
  rw [since_concat, tick, if_neg (by simp [h])]
  cases since sets clears xs with
  | nil => cases sets x <;> rfl
  | cons first rest => rfl

end Stopwatch

namespace Rises

variable {α β : Type} [LinearOrder β] (f : α → β)

def Falling (l : List α) : Prop := l.IsChain fun a b => f b ≤ f a

def Latest (l : List α) (a : α) : Prop :=
  ∃ pre post, l = pre ++ a :: post ∧ (∀ q ∈ pre.getLast?, f q < f a) ∧ Falling f (a :: post)

variable {f}

theorem exists_rise_of_not_falling {l : List α} (h : ¬Falling f l)
    : ∃ a b, List.Sublist [a, b] l ∧ f a < f b := by
  by_contra hnone
  push Not at hnone
  apply h
  apply List.Pairwise.isChain
  rw [List.pairwise_iff_forall_sublist]
  intro a b hab
  exact hnone a b hab

theorem latest_concat_of_rise {l : List α} {a : α} (h : ∀ q ∈ l.getLast?, f q < f a)
    : Latest f (l ++ [a]) a :=
  ⟨l, [], rfl, h, List.isChain_singleton a⟩

theorem Latest.append {l m : List α} {a : α} (h : Latest f l a)
    (hfall : Falling f m) (hjoin : ∀ q ∈ l.getLast?, ∀ b ∈ m.head?, f b ≤ f q)
    : Latest f (l ++ m) a := by
  rcases h with ⟨pre, post, rfl, hrise, hpost⟩
  refine ⟨pre, post ++ m, by simp, hrise, ?_⟩
  unfold Falling at *
  rw [← List.cons_append, List.isChain_append]
  refine ⟨hpost, hfall, ?_⟩
  intro q hq b hb
  exact hjoin q (by rw [List.getLast?_append_of_ne_nil _ (by simp)]; exact hq) b hb

theorem Latest.concat {l : List α} {a b : α} (h : Latest f l a) (hle : ∀ q ∈ l.getLast?, f b ≤ f q)
    : Latest f (l ++ [b]) a := by
  apply h.append (List.isChain_singleton b)
  intro q hq c hc
  cases hc
  exact hle q hq

theorem exists_latest {l : List α} (h : l ≠ []) : ∃ a, Latest f l a := by
  induction l using List.reverseRecOn with
  | nil => exact absurd rfl h
  | append_singleton l b ih =>
    by_cases hrise : ∀ q ∈ l.getLast?, f q < f b
    . exact ⟨b, latest_concat_of_rise hrise⟩
    . push Not at hrise
      rcases hrise with ⟨q, hq, hle⟩
      have hne : l ≠ [] := by
        rintro rfl
        cases hq
      rcases ih hne with ⟨a, ha⟩
      refine ⟨a, ha.concat ?_⟩
      intro q' hq'
      cases hq.symm.trans hq'
      exact hle

-- Behind the latest rise nothing rises, so two of them cannot stand apart.
theorem Latest.unique {l : List α} {a b : α} (ha : Latest f l a) (hb : Latest f l b) : a = b := by
  rcases ha with ⟨pre, post, rfl, hrise, hfall⟩
  rcases hb with ⟨pre', post', heq, hrise', hfall'⟩
  have key : ∀ {pre mid post : List α} {x y : α}, Falling f (x :: (mid ++ y :: post)) →
      (∀ q ∈ (pre ++ x :: mid).getLast?, f q < f y) → False := by
    intro pre mid post x y hfall hrise
    rw [List.getLast?_append_of_ne_nil _ (by simp)] at hrise
    unfold Falling at hfall
    rw [← List.cons_append, List.isChain_append] at hfall
    rcases Option.isSome_iff_exists.mp (by simp : (x :: mid).getLast?.isSome = true) with ⟨q, hq⟩
    have hle := hfall.2.2 q hq y (by simp)
    exact absurd (hrise q hq) (not_lt.mpr hle)
  rcases List.append_eq_append_iff.mp heq with ⟨mid, hpre, hpost⟩ | ⟨mid, hpre, hpost⟩
  . cases mid with
    | nil =>
      rw [List.nil_append] at hpost
      exact (List.cons.inj hpost).1
    | cons c mid =>
      rw [List.cons_append] at hpost
      rcases List.cons.inj hpost with ⟨rfl, rfl⟩
      rw [hpre] at hrise'
      exact (key hfall hrise').elim
  . cases mid with
    | nil =>
      rw [List.nil_append] at hpost
      exact (List.cons.inj hpost).1.symm
    | cons c mid =>
      rw [List.cons_append] at hpost
      rcases List.cons.inj hpost with ⟨rfl, rfl⟩
      rw [hpre] at hrise
      exact (key hfall' hrise).elim

end Rises
