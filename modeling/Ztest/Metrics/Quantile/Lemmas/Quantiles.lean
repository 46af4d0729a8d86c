import Ztest.Metrics.Quantile.Lemmas.Folded
import Ztest.Lib.Ladder

namespace Metrics

section Window

-- What was observed between two scrapes, bound by bound.
def added (rungs : List (Rung × Rung)) : List Rung := rungs.map fun p => (p.1.1, p.2.2 - p.1.2)

def observed (before after : List Rung) : ℚ := Ladder.total after - Ladder.total before

def perBucket : ℚ → List Rung → List ℚ
  | _, [] => []
  | under, (_, count) :: rest => (count - under) :: perBucket count rest

def Grew (before after : List Rung) : Prop := List.Forall₂ (· ≤ ·) (perBucket 0 before) (perBucket 0 after)

/--
The quantiles of what was observed lie in the buckets that hold them, and ascend.
-/
structure Answers (before after : List Rung) : Prop where
  within : ∀ phi, phi.value * observed before after ≤ 0 ∧ windowedQuantile before after phi = none ∨
    ∃ lo up, ∃ q : ℚ, Ladder.Holds (phi.value * observed before after) 0 (added (before.zip after)) lo up ∧
      windowedQuantile before after phi = some q ∧ lo * 1000 ≤ q ∧ (∀ u : ℚ, up = u → q ≤ u * 1000) ∧
        (up = ⊤ → q = lo * 1000)
  monotone : ∀ phi phi' q q', phi.value ≤ phi'.value → windowedQuantile before after phi = some q →
    windowedQuantile before after phi' = some q' → q ≤ q'

structure Proper (rungs : List Rung) : Prop where
  ascending : rungs.Pairwise fun x y => x.1 < y.1 ∧ x.2 ≤ y.2
  nonneg : ∀ x ∈ rungs, 0 ≤ x.1
  top : (rungs.map Prod.fst).getLast? = some ⊤

theorem windowedFrom_eq {rank lower under : ℚ} {rungs : List (Rung × Rung)} (hbounds : ∀ p ∈ rungs, p.1.1 = p.2.1)
    (hunder : 0 ≤ under) (h : Ladder.Rising lower under (added rungs))
    : windowedFrom rank (lower, under) rungs =
        (Ladder.quantile rank lower under (added rungs)).map fun q => ((q * 1000 : ℚ) : Bound) := by
  generalize hrows : added rungs = rows at h
  induction h generalizing rungs with
  | @last lower under count hcount =>
    obtain ⟨⟨⟨le, b⟩, leAfter, a⟩, rfl, hp⟩ := List.map_eq_singleton_iff.mp hrows
    have hsame : le = leAfter := hbounds _ (List.mem_singleton_self _)
    obtain ⟨rfl, rfl⟩ := Prod.mk.inj hp
    have hcount' : max (a - b) 0 = a - b := max_eq_left (hunder.trans hcount)
    unfold windowedFrom Ladder.quantile
    rw [if_neg (not_not_intro hsame), hcount']
    dsimp only
    split
    . rfl
    . rfl
  | @step lower under le count rest hle hcount hrest ih =>
    obtain ⟨⟨⟨le', b⟩, leAfter, a⟩, rungs', rfl, hp, hrows'⟩ := List.map_eq_cons_iff.mp hrows
    rw [List.forall_mem_cons] at hbounds
    obtain ⟨rfl, rfl⟩ := Prod.mk.inj hp
    have hcount' : max (a - b) 0 = a - b := max_eq_left (hunder.trans hcount)
    unfold windowedFrom Ladder.quantile
    rw [if_neg (not_not_intro hbounds.1), hcount']
    dsimp only
    split
    . exact ih hbounds.2 (hunder.trans hcount) hrows'
    . rfl

theorem isChain_added {u u' : ℚ} {before after : List Rung}
    (h : List.Forall₂ (· ≤ ·) (perBucket u before) (perBucket u' after))
    : ((u' - u) :: (added (before.zip after)).map Prod.snd).IsChain (· ≤ ·) := by
  induction before generalizing u u' after with
  | nil => exact List.IsChain.singleton _
  | cons x before ih =>
    cases after with
    | nil => exact List.IsChain.singleton _
    | cons y after =>
      rcases List.forall₂_cons.mp h with ⟨hcount, hrest⟩
      have hchain := ih hrest
      refine List.isChain_cons_cons.mpr ⟨?_, hchain⟩
      linarith

section Pair

variable {before after : List Rung} (hbefore : Proper before) (hafter : Proper after)
  (hbounds : before.map Prod.fst = after.map Prod.fst)

theorem Proper.eq_concat {rungs : List Rung} (h : Proper rungs) : ∃ init, rungs = init ++ [(⊤, Ladder.total rungs)] := by
  rcases List.eq_nil_or_concat rungs with rfl | ⟨init, last, rfl⟩
  . cases h.top
  . have htop := h.top
    rw [List.concat_eq_append] at htop ⊢
    rw [List.map_append, List.map_cons, List.map_nil, List.getLast?_concat, Option.some.injEq] at htop
    refine ⟨init, ?_⟩
    rw [Ladder.total, List.map_append, List.map_cons, List.map_nil, List.getLastD_concat, ← htop]

include hbounds

theorem map_fst_added : (added (before.zip after)).map Prod.fst = before.map Prod.fst := by
  have hlength : before.length ≤ after.length := by
    have heq := congrArg List.length hbounds
    rw [List.length_map, List.length_map] at heq
    exact heq.le
  have hzip : (before.zip after).map Prod.fst = before := List.map_fst_zip hlength
  rw [added, List.map_map]
  conv_rhs => rw [← hzip, List.map_map]
  rfl

theorem bounds_of_zip : ∀ p ∈ before.zip after, p.1.1 = p.2.1 := by
  intro p hp
  rcases List.mem_iff_getElem.mp hp with ⟨k, hk, rfl⟩
  rw [List.length_zip, lt_min_iff] at hk
  have heq := congrArg (fun l : List Bound => l[k]?) hbounds
  simp only [List.getElem?_map, List.getElem?_eq_getElem hk.1, List.getElem?_eq_getElem hk.2, Option.map_some,
    Option.some.injEq] at heq
  rw [List.getElem_zip]
  exact heq

include hbefore

theorem rising_added (hgrew : Grew before after) : Ladder.Rising 0 0 (added (before.zip after)) := by
  have hfst := map_fst_added hbounds
  have hchain := isChain_added hgrew
  rw [sub_zero] at hchain
  apply Ladder.Rising.of_pairwise ?_ ?_ ?_ hchain ?_
  . rintro hnil
    rw [hnil] at hfst
    have htop := hbefore.top
    rw [← hfst] at htop
    cases htop
  . rw [hfst, List.pairwise_map]
    exact hbefore.ascending.imp fun h => h.1
  . intro r hr
    have hmem := List.mem_map_of_mem (f := Prod.fst) hr
    rw [hfst] at hmem
    rcases List.mem_map.mp hmem with ⟨x, hx, hxr⟩
    rw [← hxr]
    exact hbefore.nonneg x hx
  . rw [hfst]
    exact hbefore.top

include hafter

theorem total_added : Ladder.total (added (before.zip after)) = observed before after := by
  obtain ⟨init, hinit⟩ := hbefore.eq_concat
  obtain ⟨init', hinit'⟩ := hafter.eq_concat
  have hlength : init.length = init'.length := by
    have heq := congrArg List.length hbounds
    rw [hinit, hinit'] at heq
    simpa using heq
  unfold observed
  generalize Ladder.total before = lo at hinit ⊢
  generalize Ladder.total after = hi at hinit' ⊢
  rw [hinit, hinit', List.zip_append hlength, added, Ladder.total, List.map_append, List.map_append]
  exact List.getLastD_concat

theorem windowedQuantile_eq (hgrew : Grew before after) (phi : Phi)
    : windowedQuantile before after phi =
        if phi.value * observed before after ≤ 0 then none
        else (Ladder.quantile (phi.value * observed before after) 0 0 (added (before.zip after))).map
          fun q => ((q * 1000 : ℚ) : Bound) := by
  have hlength : before.length = after.length := by
    have heq := congrArg List.length hbounds
    rwa [List.length_map, List.length_map] at heq
  obtain ⟨init, hinit⟩ := hbefore.eq_concat
  obtain ⟨init', hinit'⟩ := hafter.eq_concat
  have hlast : before.getLast? = some (⊤, Ladder.total before) := by
    conv_lhs => rw [hinit]
    exact List.getLast?_concat
  have hlast' : after.getLast? = some (⊤, Ladder.total after) := by
    conv_lhs => rw [hinit']
    exact List.getLast?_concat
  have hfrom := @windowedFrom_eq (phi.value * observed before after) 0 0 _ (bounds_of_zip hbounds) (le_refl 0)
    (rising_added hbefore hbounds hgrew)
  rw [← hfrom, windowedQuantile, hlast, hlast']
  simp only
  rw [if_neg (by simp [hlength])]
  rfl

theorem answers (hgrew : Grew before after) : Answers before after := by
  have hrising := rising_added hbefore hbounds hgrew
  have heq := windowedQuantile_eq hbefore hafter hbounds hgrew
  constructor
  . intro phi
    rcases le_or_gt (phi.value * observed before after) 0 with hnone | hpos
    . exact Or.inl ⟨hnone, by rw [heq, if_pos hnone]⟩
    . have hphi : 0 < phi.value ∧ phi.value ≤ 1 := by cases phi <;> decide +kernel
      have hobserved : 0 < observed before after := (mul_pos_iff_of_pos_left hphi.1).mp hpos
      have hrank : phi.value * observed before after ≤ Ladder.total (added (before.zip after)) := by
        rw [total_added hbefore hafter hbounds]
        exact mul_le_of_le_one_left hobserved.le hphi.2
      obtain ⟨lo, up, hholds⟩ := Ladder.exists_holds hrising hrank
      obtain ⟨q, hq, hlo, hup, htop⟩ := Ladder.quantile_of_holds hrising hpos hholds
      refine Or.inr ⟨lo, up, q * 1000, hholds, ?_, ?_, ?_, ?_⟩
      . rw [heq, if_neg (not_le.mpr hpos), hq]
        rfl
      . linarith
      . intro u hu
        have hle := hup u hu
        linarith
      . intro hinf
        rw [htop hinf]
  . intro phi phi' q q' hle hq hq'
    rw [heq] at hq hq'
    split at hq
    . cases hq
    . next hpos =>
      split at hq'
      . cases hq'
      . obtain ⟨x, hx, rfl⟩ := Option.map_eq_some_iff.mp hq
        obtain ⟨x', hx', rfl⟩ := Option.map_eq_some_iff.mp hq'
        have hobserved : 0 ≤ observed before after := by
          have hphi : 0 < phi.value := by cases phi <;> decide +kernel
          exact ((mul_pos_iff_of_pos_left hphi).mp (not_le.mp hpos)).le
        have hrank := mul_le_mul_of_nonneg_right hle hobserved
        have hmono := Ladder.quantile_mono hrising (not_le.mp hpos) hrank hx hx'
        exact WithTop.coe_le_coe.mpr (by linarith)

end Pair

end Window

section Scrapes

-- The label sets that are exposed, by the name of their family.
abbrev Scrape : Type := List (String × List Recorded)

def Scrape.exposition (s : Scrape) : Exposition := ⟨s.map fun e => (e.1, e.2.map Recorded.published)⟩

def Scrape.admitted (s : Scrape) (family : Family) : List Recorded :=
  ((s.lookup family.name).getD []).filter fun r => admits family.select r.labels

theorem lookup_map_snd {κ ν μ : Type} [BEq κ] (f : ν → μ) (entries : List (κ × ν)) (key : κ)
    : (entries.map fun e => (e.1, f e.2)).lookup key = (entries.lookup key).map f := by
  induction entries with
  | nil => rfl
  | cons entry rest ih =>
    rw [List.map_cons, List.lookup_cons, List.lookup_cons, ih]
    split
    . rfl
    . rfl

theorem sums_foldl (sets : List Recorded) (m : List (Bits × ℚ))
    : (sets.map Recorded.published).foldl (fun folded set =>
        set.le.foldl (fun folded (le, count) => Sums.add (toBits le) count folded) folded) m =
          Sums.addAll (sets.flatMap fun r => r.bounds.map fun le => (toBits le, r.atMost le)) m := by
  induction sets generalizing m with
  | nil => rfl
  | cons r sets ih =>
    rw [List.map_cons, List.foldl_cons, ih, List.flatMap_cons, Sums.addAll, Sums.addAll, List.foldl_append]
    congr 1
    rw [Recorded.published, List.foldl_map, List.foldl_map]

theorem buckets_eq (s : Scrape) (family : Family)
    : s.exposition.buckets family = if s.admitted family = [] then none else some (folded (s.admitted family)) := by
  unfold Exposition.buckets Scrape.exposition Scrape.admitted
  dsimp only
  rw [lookup_map_snd]
  cases s.lookup family.name with
  | none => rfl
  | some sets =>
    have hfilter : (sets.map Recorded.published).filter (fun set => admits family.select set.labels) =
        (sets.filter fun r => admits family.select r.labels).map Recorded.published := by
      rw [List.filter_map]
      rfl
    rw [Option.map_some, Option.bind_some, Option.getD_some, hfilter, sums_foldl]
    simp only [List.map_eq_nil_iff]
    rfl

/--
Folded ladders count the observations, and the quantiles of what two of them count in between are quantiles.
-/
structure Live (family : Family) (before after : Scrape) : Prop where
  earlier : ∀ rungs, before.exposition.buckets family = some rungs → Faithful (before.admitted family) rungs
  later : ∀ rungs, after.exposition.buckets family = some rungs → Faithful (after.admitted family) rungs
  answers : ∀ rungs rungs', before.exposition.buckets family = some rungs →
    after.exposition.buckets family = some rungs' → rungs.map Prod.fst = rungs'.map Prod.fst → Grew rungs rungs' →
      Answers rungs rungs'

theorem faithful_buckets_iff {s : Scrape} {family : Family}
    : (∀ rungs, s.exposition.buckets family = some rungs → Faithful (s.admitted family) rungs) ↔
        Undistorted (s.admitted family) := by
  rw [buckets_eq]
  split
  . next hnone =>
    rw [hnone]
    exact iff_of_true nofun ⟨nofun, nofun⟩
  . simp [faithful_iff_undistorted]

theorem proper_of_buckets {s : Scrape} {family : Family} (h : Undistorted (s.admitted family)) {rungs : List Rung}
    (hrungs : s.exposition.buckets family = some rungs)
    : Proper rungs := by
  have hfaithful := faithful_buckets_iff.mpr h rungs hrungs
  refine ⟨hfaithful.ascending, ?_, ?_⟩
  . intro x hx
    rcases (hfaithful.bounds x.1).mp (List.mem_map_of_mem hx) with ⟨r, hr, hle⟩
    exact h.bounds_nonneg hr hle
  . have hne : s.admitted family ≠ [] := by
      intro hnone
      rw [buckets_eq, if_pos hnone] at hrungs
      cases hrungs
    obtain ⟨r, hr⟩ := List.exists_mem_of_ne_nil _ hne
    have htop : ⊤ ∈ rungs.map Prod.fst := (hfaithful.bounds ⊤).mpr ⟨r, hr, r.top_mem⟩
    have hsorted : (rungs.map Prod.fst).Pairwise (· < ·) :=
      List.pairwise_map.mpr (hfaithful.ascending.imp fun h => h.1)
    -- Nothing is above infinity.
    obtain ⟨init, rest, heq⟩ := List.append_of_mem htop
    rw [heq, List.pairwise_append, List.pairwise_cons] at hsorted
    cases rest with
    | nil => rw [heq, List.getLast?_concat]
    | cons le rest => exact absurd (hsorted.2.1.1 le List.mem_cons_self) not_top_lt

/--
Live quantiles are quantiles exactly where no bound is negative and no set observes anything at or below a
bound that only other sets have.
-/
theorem live_iff_undistorted (family : Family) (before after : Scrape)
    : Live family before after ↔ Undistorted (before.admitted family) ∧ Undistorted (after.admitted family) := by
  constructor
  . intro h
    exact ⟨faithful_buckets_iff.mp h.earlier, faithful_buckets_iff.mp h.later⟩
  . rintro ⟨hbefore, hafter⟩
    refine ⟨faithful_buckets_iff.mpr hbefore, faithful_buckets_iff.mpr hafter, ?_⟩
    intro rungs rungs' hrungs hrungs' hbounds hgrew
    exact Metrics.answers (proper_of_buckets hbefore hrungs) (proper_of_buckets hafter hrungs') hbounds hgrew

namespace Sample

def family : Family := ⟨"fetch_seconds", none⟩

def countOf (values : List ℚ) (le : Bound) : ℚ := values.countP fun value => (value : Bound) ≤ le

theorem countOf_mono (values : List ℚ) : Monotone (countOf values) := by
  intro le le' hle
  unfold countOf
  rw [Nat.cast_le]
  apply List.countP_mono_left
  intro value _ hvalue
  rw [decide_eq_true_eq] at hvalue ⊢
  exact hvalue.trans hle

def recorded (pod : String) (bound : ℚ) (values : List ℚ) : Recorded :=
  ⟨[("pod", pod)], [bound], List.pairwise_singleton _ _, countOf values, fun _ => Nat.cast_nonneg _, countOf_mono values⟩

-- Of two pods one has the bound 1 and the other the bound 2.
def uneven : Scrape := [("fetch_seconds", [recorded "a" 1 [1 / 2, 1 / 2], recorded "b" 2 [1 / 2]])]

def unevenRungs : List Rung := [((1 : ℚ), 2), ((2 : ℚ), 1), (⊤, 3)]

def negative : Scrape := [("fetch_seconds", [recorded "a" (-1) [1 / 2]])]

def negativeRungs : List Rung := [(⊤, 1), ((-1 : ℚ), 0)]

end Sample

/--
The ladder of two pods falls from 2 to 1, and infinity comes first where a bound is negative.
-/
theorem uneven_not_live
    : Sample.uneven.exposition.buckets Sample.family = some Sample.unevenRungs ∧
        Sample.negative.exposition.buckets Sample.family = some Sample.negativeRungs ∧
        (¬∀ family before after, Live family before after) := by
  have hbuckets : Sample.uneven.exposition.buckets Sample.family = some Sample.unevenRungs := by
    decide +kernel
  refine ⟨hbuckets, by decide +kernel, ?_⟩
  intro h
  have hfaithful := (h Sample.family Sample.uneven Sample.uneven).earlier _ hbuckets
  have hfalls := (List.pairwise_cons.mp hfaithful.ascending).1 _ List.mem_cons_self
  revert hfalls
  decide +kernel

end Scrapes

end Metrics
