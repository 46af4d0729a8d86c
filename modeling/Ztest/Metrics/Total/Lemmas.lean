import Ztest.Metrics.Impl
import Mathlib.Tactic.IntervalCases

namespace Metrics
namespace Total

open Counter (Event accrued increases RestartAt Quiet Caught)

section Value

theorem value_foldl_window (points : List (ℚ × ℚ)) (t : Tracked)
    : ((points.zip points.tail).foldl (Tracked.window true) t).value = t.value + increases (points.map Prod.snd) := by
  induction points generalizing t with
  | nil => exact (add_zero _).symm
  | cons p points ih =>
    cases points with
    | nil => exact (add_zero _).symm
    | cons q points =>
      have hwindow : (t.window true (p, q)).value = t.value + Counter.increase p.2 q.2 := by
        unfold Tracked.window Counter.increase
        split
        . rfl
        . rfl
      have hrest := ih (t.window true (p, q))
      rw [hwindow, add_assoc] at hrest
      exact hrest

theorem value_of {points : List (ℚ × ℚ)} {reading : Reading} (hreading : reading.cumulative = true)
    (hlength : 2 ≤ points.length)
    : (of points reading).map Total.value = some (increases (points.map Prod.snd)) := by
  have hne : points ≠ [] := by
    rintro rfl
    simp at hlength
  rw [of, List.head?_eq_some_head hne, List.getLast?_eq_some_getLast hne]
  simp only
  rw [if_neg (not_lt.mpr hlength), hreading, Option.map_some, value_foldl_window]
  exact congrArg some (zero_add _)

end Value

section Folded

theorem Coverage.merge_comm (c d : Coverage) : c.merge d = d.merge c := by
  simp only [Coverage.merge, Nat.add_comm, min_comm, max_comm]

theorem Coverage.merge_right_comm (c d e : Coverage) : (c.merge d).merge e = (c.merge e).merge d := by
  simp only [Coverage.merge, Nat.add_right_comm, min_right_comm, max_right_comm]

instance : RightCommutative Coverage.merge := ⟨Coverage.merge_right_comm⟩

theorem value_folded {parts : List Total} (hparts : parts ≠ [])
    : (folded parts).map Total.value = some (parts.map Total.value).sum := by
  cases parts with
  | nil => exact absurd rfl hparts
  | cons part parts => rfl

theorem folded_cons_cons (part part' : Total) (parts : List Total)
    : folded (part :: part' :: parts) = folded (part' :: part :: parts) := by
  simp only [folded, List.map_cons, List.sum_cons, List.foldl_cons, add_left_comm, Coverage.merge_comm]

theorem folded_cons_perm {parts parts' : List Total} (h : parts.Perm parts') (part : Total)
    : folded (part :: parts) = folded (part :: parts') := by
  rw [folded, folded, (h.map coverage).foldl_eq, ((h.cons part).map Total.value).sum_eq]

theorem folded_perm {parts parts' : List Total} (h : parts.Perm parts') : folded parts = folded parts' := by
  induction h with
  | nil => rfl
  | cons part h _ => exact folded_cons_perm h part
  | swap part part' parts => exact folded_cons_cons part' part parts
  | trans _ _ ih ih' => exact ih.trans ih'

theorem totalOf_perm {series series' : List (List (ℚ × ℚ))} (h : series.Perm series') (reading : Reading)
    : totalOf series reading = totalOf series' reading :=
  folded_perm (h.filterMap _)

end Folded

section Sampling

structure Instant where
  time : ℚ
  -- How many events came before.
  seen : Nat

structure Sampling where
  instants : List Instant
  ordered : (instants.map Instant.seen).Pairwise (· ≤ ·)
  two : 2 ≤ instants.length

namespace Sampling

def seen (s : Sampling) : List Nat := s.instants.map Instant.seen

def first (s : Sampling) : Nat := s.seen.headD 0

def last (s : Sampling) : Nat := s.seen.getLastD 0

def points (s : Sampling) (history : List (Event ℚ)) : List (ℚ × ℚ) :=
  s.instants.map fun i => (i.time, Counter.value history i.seen)

def shown (s : Sampling) (history : List (Event ℚ)) : ℚ := increases (s.seen.map (Counter.value history))

/--
They differ in the instants between two without a restart in between.
-/
def Resampled (history : List (Event ℚ)) (s s' : Sampling) : Prop :=
  ∃ before within within' after, ∃ a b : Instant,
    s.instants = before ++ a :: (within ++ b :: after) ∧ s'.instants = before ++ a :: (within' ++ b :: after) ∧
      Quiet history a.seen b.seen

theorem seen_eq_cons (s : Sampling) : ∃ ks, s.seen = s.first :: ks ∧ s.last = ks.getLastD s.first := by
  unfold first last
  cases hseen : s.seen with
  | nil =>
    have hlength := congrArg List.length hseen
    rw [seen, List.length_map] at hlength
    exact absurd s.two (by rw [hlength]; decide)
  | cons k ks => exact ⟨ks, rfl, List.getLastD_cons⟩

theorem value_of (s : Sampling) (history : List (Event ℚ)) {reading : Reading} (hreading : reading.cumulative = true)
    : (of (s.points history) reading).map Total.value = some (s.shown history) := by
  rw [Total.value_of hreading (by rw [points, List.length_map]; exact s.two)]
  simp only [points, shown, seen, List.map_map, Function.comp_def]

variable {history : List (Event ℚ)} {s s' : Sampling}

theorem shown_le_accrued : s.shown history ≤ accrued history s.first s.last := by
  rcases s.seen_eq_cons with ⟨ks, hseen, hlast⟩
  have hordered : s.seen.Pairwise (· ≤ ·) := s.ordered
  rw [hseen] at hordered
  rw [shown, hseen, hlast]
  exact Counter.increases_le_accrued hordered

theorem shown_of_caught (h : ∀ r, RestartAt history r → s.first ≤ r → r < s.last → Caught history s.seen r)
    : s.shown history = accrued history s.first s.last := by
  rcases s.seen_eq_cons with ⟨ks, hseen, hlast⟩
  have hordered : s.seen.Pairwise (· ≤ ·) := s.ordered
  rw [hseen] at hordered h
  rw [hlast] at h ⊢
  rw [shown, hseen]
  exact Counter.increases_of_caught hordered h

theorem shown_sublist (h : s.instants.Sublist s'.instants) : s.shown history ≤ s'.shown history := by
  apply Counter.increases_sublist ((h.map Instant.seen).map (Counter.value history))
  intro y hy
  rcases List.mem_map.mp hy with ⟨k, _, rfl⟩
  exact Counter.value_nonneg k

theorem increases_stretch (xs ms ys : List ℚ) (x y : ℚ)
    : increases (xs ++ x :: (ms ++ y :: ys)) =
        increases (xs ++ [x]) + increases (x :: (ms ++ [y])) + increases (y :: ys) := by
  rw [Counter.increases_append, add_assoc]
  congr 1
  rw [← List.cons_append, ← List.cons_append]
  exact Counter.increases_append (x :: ms) ys y

theorem shown_stretch {before within after : List Instant} {a b : Instant}
    (hinstants : s.instants = before ++ a :: (within ++ b :: after)) (hquiet : Quiet history a.seen b.seen)
    : s.shown history =
        increases (before.map (fun i => Counter.value history i.seen) ++ [Counter.value history a.seen]) +
          accrued history a.seen b.seen +
            increases (Counter.value history b.seen :: after.map fun i => Counter.value history i.seen) := by
  have hordered := s.ordered
  rw [hinstants] at hordered
  have hstretch : (a.seen :: (within.map Instant.seen ++ [b.seen])).Pairwise (· ≤ ·) := by
    refine List.Pairwise.sublist ?_ hordered
    simp only [List.map_append, List.map_cons]
    apply List.Sublist.trans ?_ (List.sublist_append_right _ _)
    apply List.Sublist.cons_cons
    apply List.Sublist.append_left
    exact List.Sublist.cons_cons _ (List.nil_sublist _)
  have hlast : (within.map Instant.seen ++ [b.seen]).getLastD a.seen = b.seen := by
    rw [List.getLastD_concat]
  have hwithin := Counter.increases_of_quiet (h := history) hstretch (by rw [hlast]; exact hquiet)
  rw [hlast] at hwithin
  rw [shown, seen, hinstants, ← hwithin]
  simp only [List.map_append, List.map_cons, List.map_map, List.map_nil, Function.comp_def]
  exact increases_stretch _ _ _ _ _

theorem shown_resampled (h : Resampled history s s') : s'.shown history = s.shown history := by
  rcases h with ⟨before, within, within', after, a, b, hinstants, hinstants', hquiet⟩
  rw [shown_stretch hinstants hquiet, shown_stretch hinstants' hquiet]

end Sampling

/--
A total is at most what was added. More samples never make it smaller, other samples where nothing restarts
do not change it, and it is exact where the samples show every restart.
-/
theorem total_of_sampling (history : List (Event ℚ)) {reading : Reading} (hreading : reading.cumulative = true)
    : (∃ total : Sampling → ℚ,
        (∀ s, (of (s.points history) reading).map Total.value = some (total s)) ∧
        (∀ s, total s ≤ accrued history s.first s.last) ∧
        (∀ s s', s.instants.Sublist s'.instants → total s ≤ total s') ∧
        (∀ s s', Sampling.Resampled history s s' → total s' = total s) ∧
        ∀ s, (∀ r, RestartAt history r → s.first ≤ r → r < s.last → Caught history s.seen r) →
          total s = accrued history s.first s.last) ∧
      ∀ parts : List Total, parts ≠ [] → ∀ parts', parts.Perm parts' →
        folded parts' = folded parts ∧ (folded parts').map Total.value = some (parts.map Total.value).sum := by
  refine ⟨⟨fun s => s.shown history, ?_, ?_, ?_, ?_, ?_⟩, ?_⟩
  . exact fun s => s.value_of history hreading
  . exact fun s => Sampling.shown_le_accrued
  . exact fun s s' h => Sampling.shown_sublist h
  . exact fun s s' h => Sampling.shown_resampled h
  . exact fun s h => Sampling.shown_of_caught h
  . intro parts hparts parts' hperm
    rw [folded_perm hperm.symm]
    exact ⟨rfl, value_folded hparts⟩

namespace Sample

-- Of 100 no sample tells before the restart.
def history : List (Event ℚ) :=
  [.increment 500 (by decide), .increment 400 (by decide), .increment 100 (by decide), .restart, .increment 200 (by decide)]

def sparse : Sampling := ⟨[⟨0, 1⟩, ⟨30, 2⟩, ⟨60, 5⟩], by decide, by decide⟩

def dense : Sampling := ⟨[⟨0, 1⟩, ⟨30, 2⟩, ⟨45, 3⟩, ⟨60, 5⟩], by decide, by decide⟩

theorem dense_caught (r : Nat) (hr : RestartAt history r) (hfirst : dense.first ≤ r) (hlast : r < dense.last)
    : Caught history dense.seen r := by
  have hthree : r = 3 := by
    have hle : 1 ≤ r := hfirst
    have hlt : r < 5 := hlast
    interval_cases r
    . cases hr
    . cases hr
    . rfl
    . cases hr
  rw [hthree]
  refine ⟨by decide, 5, by decide, by decide, ?_, by decide +kernel⟩
  intro r hle hlt hr
  interval_cases r
  cases hr

end Sample

theorem sampled_restart
    : (of (Sample.sparse.points Sample.history) (.rate ⟨"blocks", none⟩)).map Total.value = some 600 ∧
        (of (Sample.dense.points Sample.history) (.rate ⟨"blocks", none⟩)).map Total.value = some 700 ∧
        accrued Sample.history 1 5 = 700 := by
  have hreading : (Reading.rate ⟨"blocks", none⟩).cumulative = true := rfl
  rcases (total_of_sampling Sample.history hreading).1 with ⟨total, htotal, _, _, _, hexact⟩
  have hdense := htotal Sample.dense
  rw [hexact Sample.dense Sample.dense_caught] at hdense
  have haccrued : accrued Sample.history Sample.dense.first Sample.dense.last = 700 := by decide +kernel
  exact ⟨by decide +kernel, by rw [hdense, haccrued], haccrued⟩

end Sampling

end Total
end Metrics
