import Ztest.Engine.Retention.Impl
import Mathlib.Algebra.Order.BigOperators.Group.List
import Mathlib.Algebra.Order.Group.Nat

/-!
This module contains the proof of when the garbage collection of recordings keeps the newest runs and lists none
that is still written: its byte budget is filled past a run that does not fit, so that depends on the sizes, and
every open recorder has a log.
-/

namespace Engine
namespace Retention

-- The lengths of the files, without the bound of a `u64`.
def Entry.bytes (e : Entry) : Nat := (e.files.map (·.2.toNat)).sum

def total (runs : List RunEntry) : Nat := (runs.map (·.dir.bytes)).sum

theorem Entry.toNat_size {e : Entry} (h : e.bytes < 2 ^ 64) : e.size.toNat = e.bytes := by
  have hsum : ∀ {files : List (Text × UInt64)}, (files.map (·.2.toNat)).sum < 2 ^ 64 →
      ((files.map Prod.snd).sum).toNat = (files.map (·.2.toNat)).sum := by
    intro files
    induction files with
    | nil => intro _; rfl
    | cons file files ih =>
      intro h
      rw [List.map_cons, List.sum_cons] at h
      rw [List.map_cons, List.sum_cons, List.map_cons, List.sum_cons, UInt64.toNat_add, ih (by omega), Nat.mod_eq_of_lt h]
  exact hsum h

theorem total_cons (run : RunEntry) (runs : List RunEntry) : total (run :: runs) = run.dir.bytes + total runs := rfl

theorem total_append (runs runs' : List RunEntry) : total (runs ++ runs') = total runs + total runs' := by
  simp [total]

section Policy

variable (policy : RetentionPolicy) (now : Int)

def Breaks (runs : List RunEntry) : Prop :=
  (∃ run ∈ runs, tooOld policy now run = true) ∨ (∃ n ∈ policy.maxRuns, n < runs.length) ∨
    ∃ cap ∈ policy.maxBytes, cap.toNat < total runs

-- The runs, newest first, that the age and the count allow behind `rank` others.
def allowed (rank : Nat) (runs : List RunEntry) : List RunEntry :=
  (policy.maxRuns.elim runs fun n => runs.take (n - rank)).filter fun run => !tooOld policy now run

/--
Beside `kept` bytes, no run is small enough for what the newest ones leave, behind one that is not.
-/
def Fits (kept : Nat) (runs : List RunEntry) : Prop :=
  ∀ cap ∈ policy.maxBytes, ∀ newer run older, runs = newer ++ run :: older → kept + total newer ≤ cap.toNat →
    cap.toNat < kept + total newer + run.dir.bytes → ∀ other ∈ older, cap.toNat < kept + total newer + other.dir.bytes

-- The root after the garbage collection, every deletion of which succeeds.
def collected (root : Root) : Root := (gcIn policy now (fun _ => true) root).1

/--
What a garbage collection is to do with the runs of a root.
-/
structure Retains (root : Root) : Prop where
  limits : ¬Breaks policy now (listRunsIn (collected policy now root))
  newest : ∀ run ∈ listRunsIn root, run ∉ listRunsIn (collected policy now root) →
    ∀ kept ∈ listRunsIn (collected policy now root), ¬kept.modified < run.modified
  needed : ∀ newer run older, listRunsIn root = newer ++ run :: older → run ∉ listRunsIn (collected policy now root) →
    Breaks policy now (newer ++ [run])
  again : gcIn policy now (fun _ => true) (collected policy now root) = (collected policy now root, 0)
  finished : ∀ run ∈ listRunsIn root, run.dir.opened = false

end Policy

section Sweep

variable {policy : RetentionPolicy} {now : Int} {rank : Nat} {keptBytes : UInt64} {run : RunEntry} {runs : List RunEntry}

theorem sweep_of_stale (h : stale policy now rank keptBytes run = true)
    : sweep policy now rank keptBytes (run :: runs) =
        ((sweep policy now (rank + 1) keptBytes runs).1, run :: (sweep policy now (rank + 1) keptBytes runs).2) := if_pos h

theorem sweep_of_not_stale (h : ¬stale policy now rank keptBytes run = true)
    : sweep policy now rank keptBytes (run :: runs) =
        (run :: (sweep policy now (rank + 1) (keptBytes.saturatingAdd run.dir.size) runs).1,
          (sweep policy now (rank + 1) (keptBytes.saturatingAdd run.dir.size) runs).2) := if_neg h

theorem sweep_perm (policy : RetentionPolicy) (now : Int) (rank : Nat) (keptBytes : UInt64) (runs : List RunEntry)
    : ((sweep policy now rank keptBytes runs).1 ++ (sweep policy now rank keptBytes runs).2).Perm runs := by
  induction runs generalizing rank keptBytes with
  | nil => exact .nil
  | cons run runs ih =>
    by_cases hstale : stale policy now rank keptBytes run = true
    . rw [sweep_of_stale hstale]
      exact List.perm_middle.trans ((ih _ _).cons run)
    . rw [sweep_of_not_stale hstale]
      exact (ih _ _).cons run

theorem kept_sublist (policy : RetentionPolicy) (now : Int) (rank : Nat) (keptBytes : UInt64) (runs : List RunEntry)
    : (sweep policy now rank keptBytes runs).1.Sublist runs := by
  induction runs generalizing rank keptBytes with
  | nil => exact .slnil
  | cons run runs ih =>
    by_cases hstale : stale policy now rank keptBytes run = true
    . rw [sweep_of_stale hstale]
      exact (ih _ _).cons run
    . rw [sweep_of_not_stale hstale]
      exact (ih _ _).cons_cons run

theorem deleted_sublist (policy : RetentionPolicy) (now : Int) (rank : Nat) (keptBytes : UInt64) (runs : List RunEntry)
    : (sweep policy now rank keptBytes runs).2.Sublist runs := by
  induction runs generalizing rank keptBytes with
  | nil => exact .slnil
  | cons run runs ih =>
    by_cases hstale : stale policy now rank keptBytes run = true
    . rw [sweep_of_stale hstale]
      exact (ih _ _).cons_cons run
    . rw [sweep_of_not_stale hstale]
      exact (ih _ _).cons run

theorem overCount_mono {rank' : Nat} (h : rank' ≤ rank) (hover : overCount policy rank' = true) : overCount policy rank = true := by
  unfold overCount at *
  cases hruns : policy.maxRuns with
  | none => simp [hruns] at hover
  | some n =>
    simp only [hruns, Option.any_some, decide_eq_true_eq] at hover ⊢
    omega

theorem sweep_kept {rank' : Nat} (h : rank' ≤ rank)
    : sweep policy now rank' keptBytes (sweep policy now rank keptBytes runs).1 = ((sweep policy now rank keptBytes runs).1, []) := by
  induction runs generalizing rank rank' keptBytes with
  | nil => rfl
  | cons run runs ih =>
    by_cases hstale : stale policy now rank keptBytes run = true
    . rw [sweep_of_stale hstale]
      exact ih (Nat.le_succ_of_le h)
    . rw [sweep_of_not_stale hstale]
      have hagain : ¬stale policy now rank' keptBytes run = true := by
        intro hstale'
        apply hstale
        unfold stale at hstale' ⊢
        simp only [Bool.or_eq_true] at hstale' ⊢
        rcases hstale' with (hage | hcount) | hbytes
        . exact .inl (.inl hage)
        . exact .inl (.inr (overCount_mono h hcount))
        . exact .inr hbytes
      rw [sweep_of_not_stale hagain, ih (Nat.succ_le_succ h)]

theorem overCount_iff : overCount policy rank = true ↔ ∃ n ∈ policy.maxRuns, n ≤ rank := by
  unfold overCount
  cases policy.maxRuns <;> simp

theorem add_bytes (h : keptBytes.toNat + total (run :: runs) < 2 ^ 64)
    : (keptBytes.saturatingAdd run.dir.size).toNat = keptBytes.toNat + run.dir.bytes ∧
      (keptBytes.saturatingAdd run.dir.size).toNat + total runs < 2 ^ 64 := by
  rw [total_cons] at h
  have hsize := Entry.toNat_size (e := run.dir) (by omega)
  rw [UInt64.toNat_saturatingAdd, hsize]
  omega

theorem overBytes_iff (h : keptBytes.toNat + total (run :: runs) < 2 ^ 64)
    : overBytes policy keptBytes run.dir.size = true ↔ ∃ cap ∈ policy.maxBytes, cap.toNat < keptBytes.toNat + run.dir.bytes := by
  unfold overBytes
  cases policy.maxBytes with
  | none => simp
  | some cap =>
    simp only [Option.any_some, decide_eq_true_eq, UInt64.lt_iff_toNat_lt, (add_bytes h).1]
    simp

theorem stale_iff (h : keptBytes.toNat + total (run :: runs) < 2 ^ 64)
    : stale policy now rank keptBytes run = true ↔
      tooOld policy now run = true ∨ (∃ n ∈ policy.maxRuns, n ≤ rank) ∨
        ∃ cap ∈ policy.maxBytes, cap.toNat < keptBytes.toNat + run.dir.bytes := by
  rw [stale, Bool.or_eq_true, Bool.or_eq_true, or_assoc, overCount_iff, overBytes_iff h]

end Sweep

section Kept

variable {policy : RetentionPolicy} {now : Int} {rank : Nat} {keptBytes : UInt64} {run : RunEntry} {runs : List RunEntry}

theorem kept_young : ∀ run ∈ (sweep policy now rank keptBytes runs).1, tooOld policy now run = false := by
  induction runs generalizing rank keptBytes with
  | nil => simp [sweep]
  | cons head runs ih =>
    by_cases hstale : stale policy now rank keptBytes head = true
    . rw [sweep_of_stale hstale]
      exact ih
    . rw [sweep_of_not_stale hstale]
      intro run hrun
      rcases List.mem_cons.mp hrun with rfl | hrun
      . cases hage : tooOld policy now run with
        | false => rfl
        | true => simp [stale, hage] at hstale
      . exact ih run hrun

theorem kept_count {n : Nat} (hn : n ∈ policy.maxRuns) : (sweep policy now rank keptBytes runs).1.length ≤ n - rank := by
  induction runs generalizing rank keptBytes with
  | nil => exact Nat.zero_le _
  | cons head runs ih =>
    by_cases hstale : stale policy now rank keptBytes head = true
    . rw [sweep_of_stale hstale]
      exact (@ih (rank + 1) keptBytes).trans (by omega)
    . rw [sweep_of_not_stale hstale]
      have hrank : ¬n ≤ rank := by
        intro hle
        have hover : overCount policy rank = true := overCount_iff.mpr ⟨n, hn, hle⟩
        simp [stale, hover] at hstale
      have hrest := @ih (rank + 1) (keptBytes.saturatingAdd head.dir.size)
      simp only [List.length_cons]
      omega

theorem kept_bytes {cap : UInt64} (hcap : cap ∈ policy.maxBytes) (h : keptBytes.toNat + total runs < 2 ^ 64)
    (hkept : keptBytes.toNat ≤ cap.toNat)
    : keptBytes.toNat + total (sweep policy now rank keptBytes runs).1 ≤ cap.toNat := by
  induction runs generalizing rank keptBytes with
  | nil => simpa [sweep, total] using hkept
  | cons head runs ih =>
    by_cases hstale : stale policy now rank keptBytes head = true
    . rw [sweep_of_stale hstale]
      apply ih _ hkept
      rw [total_cons] at h
      omega
    . rw [sweep_of_not_stale hstale]
      rcases add_bytes h with ⟨hadd, hrest⟩
      have hfits : keptBytes.toNat + head.dir.bytes ≤ cap.toNat := by
        by_contra hover
        exact hstale ((stale_iff h).mpr (.inr (.inr ⟨cap, hcap, by omega⟩)))
      have hle := @ih (rank + 1) _ hrest (by omega)
      rw [total_cons]
      omega

theorem deleted_cause {newer older : List RunEntry} (hruns : runs = newer ++ run :: older) (hnodup : runs.Nodup)
    (h : keptBytes.toNat + total runs < 2 ^ 64) (hrun : run ∈ (sweep policy now rank keptBytes runs).2)
    : tooOld policy now run = true ∨ (∃ n ∈ policy.maxRuns, n ≤ rank + newer.length) ∨
        ∃ cap ∈ policy.maxBytes, cap.toNat < keptBytes.toNat + total newer + run.dir.bytes := by
  induction newer generalizing runs rank keptBytes with
  | nil =>
    rw [List.nil_append] at hruns
    subst hruns
    by_cases hstale : stale policy now rank keptBytes run = true
    . exact (stale_iff h).mp hstale
    . rw [sweep_of_not_stale hstale] at hrun
      exact absurd ((deleted_sublist _ _ _ _ _).subset hrun) (List.nodup_cons.mp hnodup).1
  | cons head newer ih =>
    subst hruns
    rw [List.cons_append] at h hrun hnodup
    have hne : run ≠ head := by
      rintro rfl
      exact (List.nodup_cons.mp hnodup).1 (by simp)
    have hlen : rank + (head :: newer).length = rank + 1 + newer.length := by
      rw [List.length_cons]
      omega
    rw [hlen]
    by_cases hstale : stale policy now rank keptBytes head = true
    . rw [sweep_of_stale hstale] at hrun
      rw [total_cons] at h
      rcases ih rfl (List.nodup_cons.mp hnodup).2 (by omega) ((List.mem_cons.mp hrun).resolve_left hne) with
        hage | hcount | ⟨cap, hcap, hover⟩
      . exact .inl hage
      . exact .inr (.inl hcount)
      . refine .inr (.inr ⟨cap, hcap, ?_⟩)
        rw [total_cons]
        omega
    . rw [sweep_of_not_stale hstale] at hrun
      rcases add_bytes h with ⟨hadd, hrest⟩
      rcases ih rfl (List.nodup_cons.mp hnodup).2 hrest hrun with hage | hcount | ⟨cap, hcap, hover⟩
      . exact .inl hage
      . exact .inr (.inl hcount)
      . refine .inr (.inr ⟨cap, hcap, ?_⟩)
        rw [total_cons]
        omega

end Kept

section Allowed

variable {policy : RetentionPolicy} {now : Int} {rank : Nat} {keptBytes : UInt64} {run : RunEntry} {runs : List RunEntry}

abbrev Sorted (runs : List RunEntry) : Prop := SortedOn (fun run => -run.modified) runs

theorem Sorted.lt_head {other : RunEntry} (h : Sorted (run :: runs)) (hother : other ∈ runs) : other.modified < run.modified := by
  have hlt : -run.modified < -other.modified := List.rel_of_pairwise_cons h hother
  omega

theorem tooOld_mono {older : RunEntry} (h : older.modified ≤ run.modified) (hold : tooOld policy now run = true)
    : tooOld policy now older = true := by
  unfold tooOld at *
  cases hage : policy.maxAge with
  | none => simp [hage] at hold
  | some age =>
    simp only [hage, Option.any_some, Bool.and_eq_true, decide_eq_true_eq] at hold ⊢
    omega

theorem allowed_cons (hyoung : tooOld policy now run = false) (hrank : overCount policy rank = false)
    : allowed policy now rank (run :: runs) = run :: allowed policy now (rank + 1) runs := by
  unfold allowed
  cases hmax : policy.maxRuns with
  | none => simp [hyoung]
  | some n =>
    simp only [overCount, hmax, Option.any_some, decide_eq_false_iff_not] at hrank
    have hsucc : n - rank = n - (rank + 1) + 1 := by omega
    simp [hsucc, hyoung]

theorem allowed_cons_eq_nil (hsorted : Sorted (run :: runs)) (h : tooOld policy now run = true ∨ overCount policy rank = true)
    : allowed policy now rank (run :: runs) = [] := by
  rcases h with hage | hcount
  . unfold allowed
    rw [List.filter_eq_nil_iff]
    intro other hother
    have hmem : other ∈ run :: runs := by
      cases hmax : policy.maxRuns with
      | none => simpa [hmax] using hother
      | some n =>
        rw [hmax] at hother
        exact List.mem_of_mem_take hother
    have hle : other.modified ≤ run.modified := by
      rcases List.mem_cons.mp hmem with rfl | hmem
      . exact Int.le_refl _
      . exact Int.le_of_lt (hsorted.lt_head hmem)
    simp [tooOld_mono hle hage]
  . rcases overCount_iff.mp hcount with ⟨n, hn, hle⟩
    unfold allowed
    rw [hn]
    simp [Nat.sub_eq_zero_of_le hle]

theorem allowed_tail_sublist : (allowed policy now (rank + 1) runs).Sublist (allowed policy now rank (run :: runs)) := by
  unfold allowed
  apply List.Sublist.filter
  cases policy.maxRuns with
  | none => exact List.sublist_cons_self run runs
  | some n =>
    dsimp only [Option.elim_some]
    by_cases hrank : rank < n
    . have hsucc : n - rank = n - (rank + 1) + 1 := by omega
      rw [hsucc, List.take_succ_cons]
      exact List.sublist_cons_self run _
    . have hzero : n - (rank + 1) = 0 := by omega
      rw [hzero]
      exact List.nil_sublist _

theorem kept_eq_nil_iff (hsorted : Sorted runs) (h : keptBytes.toNat + total runs < 2 ^ 64)
    : (sweep policy now rank keptBytes runs).1 = [] ↔
      ∀ run ∈ allowed policy now rank runs, ∃ cap ∈ policy.maxBytes, cap.toNat < keptBytes.toNat + run.dir.bytes := by
  induction runs generalizing rank with
  | nil => simp [sweep, allowed, Option.elim]; cases policy.maxRuns <;> simp
  | cons run runs ih =>
    have hrest : keptBytes.toNat + total runs < 2 ^ 64 := by
      rw [total_cons] at h
      omega
    have ih := @ih (rank + 1) hsorted.of_cons hrest
    by_cases hstale : stale policy now rank keptBytes run = true
    . rw [sweep_of_stale hstale, ih]
      by_cases hbarred : tooOld policy now run = true ∨ overCount policy rank = true
      . have hnil := allowed_cons_eq_nil hsorted hbarred
        have htail : allowed policy now (rank + 1) runs = [] := List.sublist_nil.mp (hnil ▸ allowed_tail_sublist)
        simp [hnil, htail]
      . rw [not_or, Bool.not_eq_true, Bool.not_eq_true] at hbarred
        have hbytes : ∃ cap ∈ policy.maxBytes, cap.toNat < keptBytes.toNat + run.dir.bytes := by
          rcases (stale_iff h).mp hstale with hage | hcount | hbytes
          . rw [hbarred.1] at hage
            cases hage
          . rw [← overCount_iff, hbarred.2] at hcount
            cases hcount
          . exact hbytes
        rw [allowed_cons hbarred.1 hbarred.2, List.forall_mem_cons]
        exact (and_iff_right hbytes).symm
    . rw [sweep_of_not_stale hstale]
      have hallowed : tooOld policy now run = false ∧ overCount policy rank = false := by
        simp only [stale, Bool.or_eq_true, not_or, Bool.not_eq_true] at hstale
        exact hstale.1
      rw [allowed_cons hallowed.1 hallowed.2, List.forall_mem_cons]
      constructor
      . intro hnil
        cases hnil
      . rintro ⟨hbytes, _⟩
        exact absurd ((stale_iff h).mpr (.inr (.inr hbytes))) hstale

theorem fits_cons_of_fits (h : ∀ cap ∈ policy.maxBytes, keptBytes.toNat + run.dir.bytes ≤ cap.toNat)
    : Fits policy keptBytes.toNat (run :: runs) ↔ Fits policy (keptBytes.toNat + run.dir.bytes) runs := by
  constructor
  . intro hfits cap hcap newer other older heq hle hlt later hlater
    have hfit := hfits cap hcap (run :: newer) other older (by rw [heq]; rfl)
    rw [total_cons, ← Nat.add_assoc] at hfit
    exact hfit hle hlt later hlater
  . intro hfits cap hcap newer other older heq hle hlt later hlater
    cases newer with
    | nil =>
      rw [List.nil_append, List.cons.injEq] at heq
      have hrun := h cap hcap
      rw [heq.1] at hrun
      simp only [total, List.map_nil, List.sum_nil] at hlt
      omega
    | cons head newer =>
      rw [List.cons_append, List.cons.injEq] at heq
      rw [total_cons, ← Nat.add_assoc, ← heq.1] at hle hlt ⊢
      exact hfits cap hcap newer other older heq.2 hle hlt later hlater

theorem fits_cons_of_over {cap : UInt64} (hcap : cap ∈ policy.maxBytes) (hkept : keptBytes.toNat ≤ cap.toNat)
    (h : cap.toNat < keptBytes.toNat + run.dir.bytes)
    : Fits policy keptBytes.toNat (run :: runs) ↔
      ∀ other ∈ runs, ∃ cap ∈ policy.maxBytes, cap.toNat < keptBytes.toNat + other.dir.bytes := by
  constructor
  . intro hfits other hother
    exact ⟨cap, hcap, hfits cap hcap [] run runs rfl hkept h other hother⟩
  . intro hall cap' hcap' newer other older heq hle hlt later hlater
    have hsame : cap' = cap := Option.some_inj.mp (hcap'.symm.trans hcap)
    subst hsame
    cases newer with
    | nil =>
      rw [List.nil_append, List.cons.injEq] at heq
      rcases hall later (heq.2 ▸ hlater) with ⟨cap, hcap'', hlater⟩
      have hsame : cap = cap' := Option.some_inj.mp (hcap''.symm.trans hcap)
      rw [← hsame]
      exact hlater
    | cons head newer =>
      rw [List.cons_append, List.cons.injEq] at heq
      rw [total_cons, ← heq.1] at hle
      omega

theorem barred_or_allowed (policy : RetentionPolicy) (now : Int) (rank : Nat) (run : RunEntry)
    : (tooOld policy now run = true ∨ overCount policy rank = true) ∨
        tooOld policy now run = false ∧ overCount policy rank = false := by
  cases tooOld policy now run <;> cases overCount policy rank <;> simp

theorem newest_iff (hsorted : Sorted runs) (h : keptBytes.toNat + total runs < 2 ^ 64)
    (hkept : ∀ cap ∈ policy.maxBytes, keptBytes.toNat ≤ cap.toNat)
    : (∀ run ∈ (sweep policy now rank keptBytes runs).2, ∀ kept ∈ (sweep policy now rank keptBytes runs).1,
        ¬kept.modified < run.modified) ↔
      Fits policy keptBytes.toNat (allowed policy now rank runs) := by
  induction runs generalizing rank keptBytes with
  | nil =>
    have hnil : allowed policy now rank [] = [] := by
      unfold allowed
      cases policy.maxRuns <;> simp
    simp [sweep, hnil, Fits]
  | cons run runs ih =>
    by_cases hstale : stale policy now rank keptBytes run = true
    . have hrest : keptBytes.toNat + total runs < 2 ^ 64 := by
        rw [total_cons] at h
        omega
      have hempty : (∀ other ∈ run :: (sweep policy now (rank + 1) keptBytes runs).2,
          ∀ kept ∈ (sweep policy now (rank + 1) keptBytes runs).1, ¬kept.modified < other.modified) ↔
          (sweep policy now (rank + 1) keptBytes runs).1 = [] := by
        constructor
        . intro hnewest
          rw [List.eq_nil_iff_forall_not_mem]
          intro kept hmem
          exact hnewest run List.mem_cons_self kept hmem (hsorted.lt_head ((kept_sublist _ _ _ _ _).subset hmem))
        . intro hnil
          rw [hnil]
          simp
      rw [sweep_of_stale hstale, hempty, kept_eq_nil_iff hsorted.of_cons hrest]
      rcases barred_or_allowed policy now rank run with hbarred | ⟨hyoung, hrank⟩
      . have hnil := allowed_cons_eq_nil hsorted hbarred
        have htail : allowed policy now (rank + 1) runs = [] := List.sublist_nil.mp (hnil ▸ allowed_tail_sublist)
        simp [hnil, htail, Fits]
      . rcases (stale_iff h).mp hstale with hage | hcount | ⟨cap, hcap, hover⟩
        . rw [hyoung] at hage
          cases hage
        . rw [← overCount_iff, hrank] at hcount
          cases hcount
        . rw [allowed_cons hyoung hrank, fits_cons_of_over hcap (hkept cap hcap) hover]
    . have hallowed : tooOld policy now run = false ∧ overCount policy rank = false := by
        simp only [stale, Bool.or_eq_true, not_or, Bool.not_eq_true] at hstale
        exact hstale.1
      have hfits : ∀ cap ∈ policy.maxBytes, keptBytes.toNat + run.dir.bytes ≤ cap.toNat := by
        intro cap hcap
        by_contra hover
        exact hstale ((stale_iff h).mpr (.inr (.inr ⟨cap, hcap, by omega⟩)))
      rcases add_bytes h with ⟨hadd, hrest⟩
      rw [allowed_cons hallowed.1 hallowed.2, fits_cons_of_fits hfits, ← hadd, ← ih hsorted.of_cons hrest (hadd ▸ hfits),
        sweep_of_not_stale hstale]
      constructor
      . exact fun hnewest other hother kept hmem => hnewest other hother kept (List.mem_cons_of_mem _ hmem)
      . intro hnewest other hother kept hmem
        rcases List.mem_cons.mp hmem with rfl | hmem
        . exact Int.not_lt_of_ge (Int.le_of_lt (hsorted.lt_head ((deleted_sublist _ _ _ _ _).subset hother)))
        . exact hnewest other hother kept hmem

end Allowed

section Root

variable {policy : RetentionPolicy} {now : Int} {root : Root}

theorem mem_listRunsIn {run : RunEntry}
    : run ∈ listRunsIn root ↔ ∃ e ∈ root.entries, (e.isDir = true ∧ e.hasLog = true) ∧ RunEntry.ofEntry e = run := by
  simp [listRunsIn, mem_sortOn, and_assoc]

theorem listed_of_opened {e : Entry} (he : e ∈ root.entries) (hopened : e.opened = true) : RunEntry.ofEntry e ∈ listRunsIn root :=
  mem_listRunsIn.mpr ⟨e, he, root.logged e he hopened, rfl⟩

theorem sorted_listRunsIn (hdistinct : ((listRunsIn root).map RunEntry.modified).Nodup) : Sorted (listRunsIn root) := by
  have hle : (listRunsIn root).Pairwise fun a b => -a.modified ≤ -b.modified := sortOn_pairwise _ _
  have hne : (listRunsIn root).Pairwise fun a b => a.modified ≠ b.modified := List.pairwise_map.mp hdistinct
  apply (hle.and hne).imp
  intro a b h
  have hle := h.1
  have hne := h.2
  change -a.modified < -b.modified
  omega

theorem Sorted.nodup {runs : List RunEntry} (h : Sorted runs) : runs.Nodup := by
  apply List.Pairwise.imp _ h
  rintro a b hlt rfl
  exact Int.lt_irrefl _ hlt

theorem mem_kept_iff (hnodup : (listRunsIn root).Nodup) (run : RunEntry)
    : run ∈ (sweep policy now 0 0 (listRunsIn root)).1 ↔
        run ∈ listRunsIn root ∧ run ∉ (sweep policy now 0 0 (listRunsIn root)).2 := by
  have hperm := sweep_perm policy now 0 0 (listRunsIn root)
  have happ := hperm.nodup_iff.mpr hnodup
  rw [← hperm.mem_iff, List.mem_append]
  constructor
  . intro hmem
    exact ⟨.inl hmem, fun hdeleted => (List.nodup_append.mp happ).2.2 run hmem run hdeleted rfl⟩
  . rintro ⟨hmem | hmem, hdeleted⟩
    . exact hmem
    . exact absurd hmem hdeleted

theorem listRunsIn_perm (root : Root)
    : (listRunsIn root).Perm ((root.entries.filter fun e => e.isDir && e.hasLog).map RunEntry.ofEntry) := List.mergeSort_perm _ _

theorem mem_listRunsIn_collected {run : RunEntry}
    : run ∈ listRunsIn (collected policy now root) ↔
        run ∈ listRunsIn root ∧ run ∉ (sweep policy now 0 0 (listRunsIn root)).2 := by
  have hremoved : ∀ e, e ∈ (collected policy now root).entries ↔
      e ∈ root.entries ∧ ∀ deleted ∈ (sweep policy now 0 0 (listRunsIn root)).2, deleted.runId ≠ e.name := by
    intro e
    simp [collected, gcIn, Root.remove]
  rw [mem_listRunsIn, mem_listRunsIn]
  constructor
  . rintro ⟨e, he, hrun, rfl⟩
    rcases (hremoved e).mp he with ⟨hmem, hname⟩
    exact ⟨⟨e, hmem, hrun, rfl⟩, fun hdeleted => hname _ hdeleted rfl⟩
  . rintro ⟨⟨e, he, hrun, rfl⟩, hdeleted⟩
    refine ⟨e, (hremoved e).mpr ⟨he, ?_⟩, hrun, rfl⟩
    intro deleted hmem hname
    rcases mem_listRunsIn.mp ((deleted_sublist _ _ _ _ _).subset hmem) with ⟨e', he', _, rfl⟩
    have heq : e' = e := List.inj_on_of_nodup_map root.distinct he' he hname
    rw [heq] at hmem
    exact hdeleted hmem

theorem listRunsIn_collected (hdistinct : ((listRunsIn root).map RunEntry.modified).Nodup)
    : listRunsIn (collected policy now root) = (sweep policy now 0 0 (listRunsIn root)).1 := by
  have hsorted := sorted_listRunsIn hdistinct
  have hcollected : ((listRunsIn (collected policy now root)).map RunEntry.modified).Nodup := by
    have hunsorted := ((listRunsIn_perm root).map RunEntry.modified).nodup_iff.mp hdistinct
    apply ((listRunsIn_perm _).map RunEntry.modified).nodup_iff.mpr
    exact hunsorted.sublist (((List.filter_sublist.filter _).map _).map _)
  apply SortedOn.eq_of_mem_iff (sorted_listRunsIn hcollected)
  . exact List.Pairwise.sublist (kept_sublist _ _ _ _ _) hsorted
  . intro run
    rw [mem_kept_iff hsorted.nodup, mem_listRunsIn_collected]

theorem collected_collected (hdistinct : ((listRunsIn root).map RunEntry.modified).Nodup)
    : gcIn policy now (fun _ => true) (collected policy now root) = (collected policy now root, 0) := by
  have hswept : (sweep policy now 0 0 (listRunsIn (collected policy now root))).2 = [] := by
    rw [listRunsIn_collected hdistinct, sweep_kept (Nat.le_refl 0)]
  unfold gcIn
  rw [hswept]
  simp [Root.remove]

theorem not_breaks_collected (hdistinct : ((listRunsIn root).map RunEntry.modified).Nodup) (h : total (listRunsIn root) < 2 ^ 64)
    : ¬Breaks policy now (listRunsIn (collected policy now root)) := by
  rw [listRunsIn_collected hdistinct]
  rintro (⟨run, hrun, hage⟩ | ⟨n, hn, hlt⟩ | ⟨cap, hcap, hlt⟩)
  . rw [kept_young run hrun] at hage
    cases hage
  . have hle : (sweep policy now 0 0 (listRunsIn root)).1.length ≤ n - 0 := kept_count hn
    omega
  . have hle : (0 : UInt64).toNat + total (sweep policy now 0 0 (listRunsIn root)).1 ≤ cap.toNat :=
      kept_bytes hcap (by simpa using h) (Nat.zero_le _)
    simp only [UInt64.toNat_zero, Nat.zero_add] at hle
    omega

theorem breaks_of_deleted (hdistinct : ((listRunsIn root).map RunEntry.modified).Nodup) (h : total (listRunsIn root) < 2 ^ 64)
    {newer older : List RunEntry} {run : RunEntry} (hruns : listRunsIn root = newer ++ run :: older)
    (hrun : run ∉ listRunsIn (collected policy now root))
    : Breaks policy now (newer ++ [run]) := by
  have hdeleted : run ∈ (sweep policy now 0 0 (listRunsIn root)).2 := by
    by_contra hkept
    exact hrun (mem_listRunsIn_collected.mpr ⟨by simp [hruns], hkept⟩)
  have hsum : (0 : UInt64).toNat + total (listRunsIn root) < 2 ^ 64 := by simpa using h
  rcases deleted_cause hruns (sorted_listRunsIn hdistinct).nodup hsum hdeleted with
    hage | ⟨n, hn, hle⟩ | ⟨cap, hcap, hlt⟩
  . exact .inl ⟨run, by simp, hage⟩
  . refine .inr (.inl ⟨n, hn, ?_⟩)
    rw [List.length_append, List.length_singleton]
    omega
  . refine .inr (.inr ⟨cap, hcap, ?_⟩)
    rw [UInt64.toNat_zero, Nat.zero_add] at hlt
    rw [total_append]
    exact hlt

/--
When a garbage collection does all that it is to do: the sizes leave no room behind a run that does not fit, and no
recorder is open.
-/
theorem retains_iff (hdistinct : ((listRunsIn root).map RunEntry.modified).Nodup) (h : total (listRunsIn root) < 2 ^ 64)
    : Retains policy now root ↔
        Fits policy 0 (allowed policy now 0 (listRunsIn root)) ∧ ∀ e ∈ root.entries, e.opened = false := by
  have hsorted := sorted_listRunsIn hdistinct
  have hnewest := @newest_iff policy now 0 0 _ hsorted (by simpa using h) (by simp)
  rw [UInt64.toNat_zero] at hnewest
  constructor
  . intro hretains
    refine ⟨hnewest.mp ?_, ?_⟩
    . intro run hrun kept hkept
      have hgone : run ∉ listRunsIn (collected policy now root) := fun hmem => (mem_listRunsIn_collected.mp hmem).2 hrun
      exact hretains.newest run ((deleted_sublist _ _ _ _ _).subset hrun) hgone kept (listRunsIn_collected hdistinct ▸ hkept)
    . intro e he
      cases hopened : e.opened with
      | false => rfl
      | true => exact hopened.symm.trans (hretains.finished _ (listed_of_opened he hopened))
  . rintro ⟨hfits, hclosed⟩
    refine ⟨not_breaks_collected hdistinct h, ?_, ?_, collected_collected hdistinct, ?_⟩
    . intro run hrun hgone kept hkept
      have hdeleted : run ∈ (sweep policy now 0 0 (listRunsIn root)).2 := by
        by_contra hmem
        exact hgone (mem_listRunsIn_collected.mpr ⟨hrun, hmem⟩)
      exact hnewest.mpr hfits run hdeleted kept (listRunsIn_collected hdistinct ▸ hkept)
    . intro newer run older hruns hgone
      exact breaks_of_deleted hdistinct h hruns hgone
    . intro run hrun
      rcases mem_listRunsIn.mp hrun with ⟨e, he, _, rfl⟩
      exact hclosed e he

theorem listRunsIn_eq (h : Sorted ((root.entries.filter fun e => e.isDir && e.hasLog).map RunEntry.ofEntry))
    : listRunsIn root = (root.entries.filter fun e => e.isDir && e.hasLog).map RunEntry.ofEntry := sortOn_of_sortedOn h

def finished (name : Char) (bytes : UInt64) (modified : Int) : Entry :=
  ⟨[name], true, [(logName, bytes)], some modified, false⟩

-- A large run and an older one that is small.
def uneven : Root := ⟨[finished 'b' 10 2, finished 'a' 1 1], by decide, by decide⟩

theorem listRunsIn_uneven : listRunsIn uneven = [.ofEntry (finished 'b' 10 2), .ofEntry (finished 'a' 1 1)] := by
  apply listRunsIn_eq
  unfold Sorted SortedOn
  decide

theorem retains_iff_uneven
    : Retains ⟨none, some 1, none⟩ 0 uneven ↔
        Fits ⟨none, some 1, none⟩ 0 (allowed ⟨none, some 1, none⟩ 0 0 (listRunsIn uneven)) ∧
        ∀ e ∈ uneven.entries, e.opened = false := by
  apply retains_iff <;> rw [listRunsIn_uneven] <;> decide

-- A recording that has just begun beside a finished one.
def begun : Root := Root.create ⟨[finished 'a' 1 1], by decide, by decide⟩ ['b'] 2 (some 2) none

theorem newest_deleted_and_open_latest
    : listRunsIn (collected ⟨none, none, some 5⟩ 0 uneven) = [.ofEntry (finished 'a' 1 1)] ∧
      ¬Retains ⟨none, none, some 5⟩ 0 uneven ∧ (latest begun).map Entry.opened = some true ∧
      ¬Retains ⟨none, none, none⟩ 0 begun := by
  have hkept : listRunsIn (collected ⟨none, none, some 5⟩ 0 uneven) = [.ofEntry (finished 'a' 1 1)] := by
    rw [listRunsIn_collected (by rw [listRunsIn_uneven]; decide), listRunsIn_uneven]
    rfl
  have hbegun : (latest begun).map Entry.opened = some true := by
    have hsorted : Sorted ((begun.entries.filter fun e => e.isDir && e.hasLog).map RunEntry.ofEntry) := by
      unfold Sorted SortedOn
      decide +kernel
    rw [latest, listRunsIn_eq hsorted]
    decide +kernel
  refine ⟨hkept, ?_, hbegun, ?_⟩
  . intro hretains
    have hnewest := hretains.newest (.ofEntry (finished 'b' 10 2)) (by rw [listRunsIn_uneven]; simp) (by rw [hkept]; decide)
      (.ofEntry (finished 'a' 1 1)) (by rw [hkept]; simp)
    exact hnewest (by decide)
  . intro hretains
    cases hruns : listRunsIn begun with
    | nil => simp [latest, hruns] at hbegun
    | cons run rest =>
      have hopened : run.dir.opened = true := by simpa [latest, hruns] using hbegun
      have hclosed := hretains.finished run (by rw [hruns]; exact List.mem_cons_self)
      rw [hopened] at hclosed
      cases hclosed

end Root

end Retention
end Engine
