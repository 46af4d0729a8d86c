import Mathlib.Data.List.Infix
import Ztest.Image.Bundle.Impl

namespace Image
namespace Bundle

open Files (Path)

theorem foldl_last {α : Type} (p g : α → Bool) (xs : List α) (b : Bool)
    : xs.foldl (fun acc x => if p x then g x else acc) b = ((xs.filter p).getLast?.map g).getD b := by
  induction xs generalizing b with
  | nil => rfl
  | cons x xs ih =>
    rw [List.foldl_cons, ih]
    by_cases hx : p x = true
    . rw [if_pos hx, List.filter_cons_of_pos hx, List.getLast?_cons]
      cases (xs.filter p).getLast? <;> rfl
    . rw [if_neg hx, List.filter_cons_of_neg hx]

theorem mem_ancestors {rel a : Path} : a ∈ ancestors rel ↔ a <+: rel ∧ a ≠ [] ∧ a ≠ rel := by
  rw [ancestors, List.mem_reverse, List.mem_map]
  constructor
  . rintro ⟨k, hk, rfl⟩
    rw [List.mem_range'_1] at hk
    refine ⟨List.take_prefix k rel, ?_, ?_⟩
    . intro hnil
      have hlength := congrArg List.length hnil
      rw [List.length_take, List.length_nil] at hlength
      omega
    . intro hself
      have hlength := congrArg List.length hself
      rw [List.length_take] at hlength
      omega
  . rintro ⟨hpre, hne, hproper⟩
    refine ⟨a.length, ?_, (List.prefix_iff_eq_take.mp hpre).symm⟩
    have hpos := List.length_pos_of_ne_nil hne
    have hle := hpre.length_le
    have hlt : a.length ≠ rel.length := fun h => hproper (hpre.eq_of_length h)
    rw [List.mem_range'_1]
    omega

section Covering

variable (rel : Path) (isDir : Bool)

-- Its glob matches a proper ancestor.
def Beneath (p : Pattern) : Prop := ∃ a, a <+: rel ∧ a ≠ [] ∧ a ≠ rel ∧ p.matcher a = true

/--
A pattern covers what is beneath a match, and a match itself unless it is for directories only.
-/
def Covers (p : Pattern) : Prop :=
  Beneath rel p ∨ p.matcher rel = true ∧ (p.dirOnly = false ∨ isDir = true)

-- For directories only, it matches both the path, which is no directory, and an ancestor.
def Shadowed (p : Pattern) : Prop := Beneath rel p ∧ p.matcher rel = true ∧ p.dirOnly = true ∧ isDir = false

theorem beneath_iff (p : Pattern) : Beneath rel p ↔ (ancestors rel).any p.matcher = true := by
  simp only [Beneath, List.any_eq_true, mem_ancestors, and_assoc]

instance : DecidablePred (Beneath rel) := fun p => decidable_of_iff' _ (beneath_iff rel p)

instance : DecidablePred (Covers rel isDir) := fun _ => inferInstanceAs (Decidable (_ ∨ _))

instance : DecidablePred (Shadowed rel isDir) := fun _ => inferInstanceAs (Decidable (_ ∧ _))

theorem matches_iff (p : Pattern) : p.matches rel isDir = true ↔ Covers rel isDir p ∧ ¬Shadowed rel isDir p := by
  unfold Pattern.matches Covers Shadowed
  rw [beneath_iff]
  cases p.matcher rel <;> cases p.dirOnly <;> cases isDir <;> simp

variable (patterns : List Pattern)

-- The last pattern that covers the path is none or one that re-includes.
def Kept : Prop := ∀ p ∈ (patterns.filter (Covers rel isDir ·)).getLast?, p.negated = true

-- So is the last one of those that are not shadowed.
def KeptUnshadowed : Prop :=
  ∀ p ∈ (patterns.filter fun p => Covers rel isDir p ∧ ¬Shadowed rel isDir p).getLast?, p.negated = true

theorem excludes_eq_false_iff (hbuilt : isBuiltInIgnore rel = false) (hnames : rel ≠ [dockerfileName] ∧ rel ≠ [ignoreName])
    : excludes patterns rel isDir = false ↔ KeptUnshadowed rel isDir patterns := by
  have hfilter : patterns.filter (fun p => p.matches rel isDir) =
      patterns.filter fun p => Covers rel isDir p ∧ ¬Shadowed rel isDir p := by
    apply List.filter_congr
    intro p _
    rw [Bool.eq_iff_iff, matches_iff, decide_eq_true_eq]
  unfold excludes KeptUnshadowed
  rw [if_neg (by simp [hnames]), if_neg (by simp [hbuilt]), foldl_last, hfilter]
  cases (patterns.filter fun p => Covers rel isDir p ∧ ¬Shadowed rel isDir p).getLast? with
  | none => simp
  | some p => simp

theorem getLast?_filter_of {α : Type} {q : α → Bool} {xs : List α} (h : ∀ x ∈ xs.getLast?, q x = true)
    : (xs.filter q).getLast? = xs.getLast? := by
  rcases List.eq_nil_or_concat' xs with rfl | ⟨init, x, rfl⟩
  . rfl
  . have hx := h x List.getLast?_concat
    rw [List.filter_append, List.filter_cons_of_pos hx, List.filter_nil, List.getLast?_concat, List.getLast?_concat]

theorem kept_iff_of_unshadowed (h : ∀ p ∈ (patterns.filter (Covers rel isDir ·)).getLast?, ¬Shadowed rel isDir p)
    : Kept rel isDir patterns ↔ KeptUnshadowed rel isDir patterns := by
  have hfilter : (patterns.filter fun p => Covers rel isDir p ∧ ¬Shadowed rel isDir p) =
      (patterns.filter (Covers rel isDir ·)).filter (fun p => ¬Shadowed rel isDir p) := by
    rw [List.filter_filter]
    apply List.filter_congr
    intro p _
    simp [Bool.and_comm]
  have hlast := getLast?_filter_of (q := fun p => ¬Shadowed rel isDir p) fun p hp => decide_eq_true (h p hp)
  unfold Kept KeptUnshadowed
  rw [hfilter, hlast]

/--
Where the last pattern that covers the path is shadowed, the last one that is not says the same.
-/
def Decided : Prop :=
  ∀ p ∈ (patterns.filter (Covers rel isDir ·)).getLast?, Shadowed rel isDir p →
    (p.negated = true ↔ KeptUnshadowed rel isDir patterns)

theorem decided_iff : Decided rel isDir patterns ↔ (Kept rel isDir patterns ↔ KeptUnshadowed rel isDir patterns) := by
  constructor
  . intro h
    by_cases hshadowed : ∃ p ∈ (patterns.filter (Covers rel isDir ·)).getLast?, Shadowed rel isDir p
    . rcases hshadowed with ⟨p, hp, hshadowed⟩
      rw [← h p hp hshadowed]
      simp only [Kept, Option.mem_def.mp hp, Option.mem_some_iff, forall_eq']
    . apply kept_iff_of_unshadowed
      intro p hp hp'
      exact hshadowed ⟨p, hp, hp'⟩
  . intro h p hp _
    rw [← h]
    simp only [Kept, Option.mem_def.mp hp, Option.mem_some_iff, forall_eq']

variable {rel isDir patterns}

/--
Outside the names that are always kept or left out, a path is excluded exactly when the last pattern that
covers it does not re-include it, provided that a shadowed pattern makes no difference.
-/
theorem excludes_iff_decided (hnames : rel ≠ [dockerfileName] ∧ rel ≠ [ignoreName])
    (hbuilt : isBuiltInIgnore rel = false)
    : (excludes patterns rel isDir = true ↔
          ∃ p ∈ (patterns.filter (Covers rel isDir ·)).getLast?, p.negated = false) ↔
        Decided rel isDir patterns := by
  have hkept : (∃ p ∈ (patterns.filter (Covers rel isDir ·)).getLast?, p.negated = false) ↔
      ¬Kept rel isDir patterns := by
    simp [Kept]
  rw [decided_iff, hkept, ← Bool.not_eq_false, excludes_eq_false_iff rel isDir patterns hbuilt hnames]
  exact ⟨fun h => not_iff_not.mp h.symm, fun h => (not_iff_not.mpr h).symm⟩

end Covering

namespace Sample

def named (dirOnly : Bool) : Pattern := ⟨fun path => path.getLast? = some [98], false, dirOnly⟩

theorem named_decided : Decided [[97], [98]] false [named false] := by
  intro p hp hshadowed
  have hmem := List.mem_of_mem_filter (List.mem_of_mem_getLast? hp)
  rw [List.mem_singleton.mp hmem] at hshadowed
  cases hshadowed.2.2.1

end Sample

theorem named_excluded
    : excludes [Sample.named false] [[97], [98]] false = true ↔
        ∃ p ∈ ([Sample.named false].filter (Covers [[97], [98]] false ·)).getLast?, p.negated = false :=
  (excludes_iff_decided (by decide) (by decide)).mpr Sample.named_decided

/--
A file `b` in a directory `b` is not excluded by `**/b/`.
-/
theorem shadowed_not_excluded
    : ¬∀ (patterns : List Pattern) (rel : Path) (isDir : Bool), rel ≠ [dockerfileName] ∧ rel ≠ [ignoreName] →
        isBuiltInIgnore rel = false →
          (excludes patterns rel isDir = true ↔
            ∃ p ∈ (patterns.filter (Covers rel isDir ·)).getLast?, p.negated = false) := by
  intro h
  have hiff := h [Sample.named true] [[98], [98]] false (by decide) (by decide)
  revert hiff
  decide

end Bundle
end Image
