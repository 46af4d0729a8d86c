import Ztest.Lib.Binary64
import Mathlib.Data.List.Basic
import Mathlib.Order.Basic

/-!
This module contains the trailing window over a sampled counter and the rate that it measures (`rate.rs`). Stamps are
in nanoseconds. A span of `f64` seconds is not made a `Duration` here.
-/

namespace Rate

def windowSamples : Nat := 4

def steadyIntervals : Nat := 3

def steadyCov : Binary64 := .ofRat (35 / 100)

-- `eta` in seconds.
structure Pace where
  perSec : Binary64
  eta : Option Binary64

structure Window (α : Type u) where
  span : Nat
  ring : List (Nat × α)

section Steady

def rates (series : List (Nat × Binary64)) : List Binary64 :=
  (series.zip series.tail).filterMap fun pair =>
    let dt := Binary64.ofNanos (pair.2.1 - pair.1.1)
    if Binary64.lt (.finite 0) dt ∧ pair.1.2.le pair.2.2 then some ((pair.2.2.sub pair.1.2).divide dt) else none

def mean (l : List Binary64) : Binary64 := (l.foldl Binary64.add (.finite 0)).divide (.ofRat l.length)

def steady (series : List (Nat × Binary64)) : Bool :=
  let rates := rates series
  if rates.length < steadyIntervals then
    false
  else if (mean rates).le (.finite 0) then
    false
  else
    let variance := mean (rates.map fun r => (r.sub (mean rates)).mul (r.sub (mean rates)))
    (variance.sqrt.divide (mean rates)).le steadyCov

end Steady

namespace Window

variable {α : Type u}

def new (interval : Nat) : Window α := ⟨interval * windowSamples, []⟩

def kept (w : Window α) (stamp : Nat) : List (Nat × α) :=
  let ring := if w.ring.getLast?.any fun last => w.span < stamp - last.1 then [] else w.ring
  ring.dropWhile fun x => w.span < stamp - x.1

def push (w : Window α) (stamp : Nat) (sample : α) : Window α := { w with ring := w.kept stamp ++ [(stamp, sample)] }

def latest (w : Window α) : Option α := w.ring.getLast?.map Prod.snd

def endpoints (w : Window α) : Option (α × α × Nat) :=
  match w.ring.head?, w.ring.getLast? with
  | some first, some last => if last.1 - first.1 = 0 then none else some (first.2, last.2, last.1 - first.1)
  | _, _ => none

def paceBy (w : Window α) (read : α → Option Binary64) (remaining : Option Binary64) : Option Pace :=
  let series := w.ring.filterMap fun x => (read x.2).map fun v => (x.1, v)
  match series.head?, series.getLast? with
  | some first, some last =>
    if last.1 - first.1 = 0 ∨ last.2.lt first.2 then
      none
    else
      let perSec := (last.2.sub first.2).divide (.ofNanos (last.1 - first.1))
      some ⟨perSec, (remaining.filter fun _ => Binary64.lt (.finite 0) perSec && steady series).map (·.divide perSec)⟩
  | _, _ => none

-- `pace` and `per_sec`, of an unsigned counter.
def pace (w : Window UInt64) (remaining : Option Binary64) : Option Pace :=
  w.paceBy (fun c => some (.ofRat c.toNat)) remaining

def perSec (w : Window UInt64) : Option Binary64 := (w.pace none).map (·.perSec)

def pushes (w : Window α) (samples : List (Nat × α)) : Window α := samples.foldl (fun w x => w.push x.1 x.2) w

section Ring

variable {w : Window α} {samples : List (Nat × α)} {last : Nat × α}

theorem pushes_append (w : Window α) (l k : List (Nat × α)) : w.pushes (l ++ k) = (w.pushes l).pushes k :=
  List.foldl_append

theorem span_pushes (w : Window α) (l : List (Nat × α)) : (w.pushes l).span = w.span := by
  induction l generalizing w with
  | nil => rfl
  | cons x l ih => exact ih (w.push x.1 x.2)

/--
What a window holds, whatever the stamps are: the last samples, no two neighbours of which are further apart than the
span, and the first and the last neither.
-/
structure Trails (w : Window α) (samples : List (Nat × α)) : Prop where
  suffix : w.ring <:+ samples
  getLast : w.ring.getLast? = samples.getLast?
  gaps : w.ring.IsChain fun x y => y.1 - x.1 ≤ w.span
  ends : ∀ first ∈ w.ring.head?, ∀ last ∈ w.ring.getLast?, last.1 - first.1 ≤ w.span

theorem trails_new (interval : Nat) : Trails (new interval : Window α) [] := by
  constructor <;> simp [new]

theorem kept_suffix (w : Window α) (stamp : Nat) : w.kept stamp <:+ w.ring := by
  unfold kept
  dsimp only
  split
  . exact List.nil_suffix
  . exact List.dropWhile_suffix _

theorem kept_head (w : Window α) (stamp : Nat) : ∀ first ∈ (w.kept stamp).head?, stamp - first.1 ≤ w.span := by
  intro first hfirst
  have h := List.head?_dropWhile_not (fun x : Nat × α => decide (w.span < stamp - x.1))
    (if w.ring.getLast?.any fun last => w.span < stamp - last.1 then [] else w.ring)
  rw [show List.head? (List.dropWhile _ _) = some first from hfirst] at h
  simpa using h

theorem kept_getLast (w : Window α) (stamp : Nat) : ∀ last ∈ (w.kept stamp).getLast?, stamp - last.1 ≤ w.span := by
  intro last hlast
  by_cases hrestart : (w.ring.getLast?.any fun last => w.span < stamp - last.1) = true
  . simp [kept, hrestart] at hlast
  . have hring : w.ring.getLast? = some last := by
      obtain ⟨older, holder⟩ := w.kept_suffix stamp
      rw [← holder, List.getLast?_append, hlast]
      rfl
    rw [hring] at hrestart
    simpa using hrestart

theorem Trails.push (h : Trails w samples) (x : Nat × α) : Trails (w.push x.1 x.2) (samples ++ [x]) where
  suffix := by
    obtain ⟨older, holder⟩ := (w.kept_suffix x.1).trans h.suffix
    exact ⟨older, by rw [← holder]; exact (List.append_assoc _ _ _).symm⟩
  getLast := by simp [Window.push]
  gaps := by
    refine List.isChain_append.mpr ⟨h.gaps.suffix (w.kept_suffix x.1), List.isChain_singleton _, ?_⟩
    intro last hlast y hy
    obtain rfl : x = y := Option.some.inj hy
    exact w.kept_getLast x.1 last hlast
  ends := by
    intro first hfirst last hlast
    have hlast' : (w.push x.1 x.2).ring.getLast? = some x := by simp [Window.push]
    rw [hlast'] at hlast
    obtain rfl : x = last := Option.some.inj hlast
    change first ∈ (w.kept x.1 ++ [x]).head? at hfirst
    cases hkept : (w.kept x.1).head? with
    | none =>
      rw [List.head?_append, hkept] at hfirst
      obtain rfl : x = first := Option.some.inj hfirst
      omega
    | some y =>
      rw [List.head?_append, hkept] at hfirst
      obtain rfl : y = first := Option.some.inj hfirst
      exact w.kept_head x.1 y hkept

theorem trails (interval : Nat) (samples : List (Nat × α)) : Trails ((new interval).pushes samples) samples := by
  induction samples using List.reverseRecOn with
  | nil => exact trails_new interval
  | append_singleton l x ih =>
    rw [pushes_append]
    exact ih.push x

def Ordered (samples : List (Nat × α)) : Prop := samples.Pairwise fun x y => x.1 ≤ y.1

theorem dropWhile_eq_filter {β : Type v} {p : β → Bool} {l : List β}
    (h : l.Pairwise fun x y => p y = true → p x = true)
    : l.dropWhile p = l.filter fun x => !p x := by
  induction l with
  | nil => rfl
  | cons x l ih =>
    obtain ⟨hx, hl⟩ := List.pairwise_cons.mp h
    cases hp : p x with
    | true => simp [hp, ih hl]
    | false =>
      have hall : l.filter (fun y => !p y) = l := by
        rw [List.filter_eq_self]
        intro y hy
        cases hpy : p y with
        | false => rfl
        | true => simp [hx y hy hpy] at hp
      simp [hp, hall]

theorem Ordered.le_last (h : Ordered samples) (hlast : samples.getLast? = some last) : ∀ x ∈ samples, x.1 ≤ last.1 := by
  obtain ⟨front, rfl⟩ := List.getLast?_eq_some_iff.mp hlast
  intro x hx
  rcases List.mem_append.mp hx with hx | hx
  . exact (List.pairwise_append.mp h).2.2 x hx last (List.mem_singleton_self last)
  . rw [List.mem_singleton.mp hx]

theorem kept_eq_filter (hordered : Ordered w.ring) (stamp : Nat)
    : w.kept stamp = w.ring.filter fun x => stamp - x.1 ≤ w.span := by
  have hdrop : w.ring.dropWhile (fun x => w.span < stamp - x.1) = w.ring.filter fun x => stamp - x.1 ≤ w.span := by
    rw [dropWhile_eq_filter]
    . apply List.filter_congr
      intro x _
      simp [← decide_not]
    . apply hordered.imp
      intro x y hxy
      simp only [decide_eq_true_eq]
      omega
  by_cases hrestart : (w.ring.getLast?.any fun last => w.span < stamp - last.1) = true
  . simp only [kept, hrestart, if_true, List.dropWhile_nil]
    rw [eq_comm, List.filter_eq_nil_iff]
    intro x hx
    cases hlast : w.ring.getLast? with
    | none => simp [hlast] at hrestart
    | some last =>
      have hle := hordered.le_last hlast x hx
      simp only [hlast, Option.any_some, decide_eq_true_eq] at hrestart ⊢
      omega
  . simp only [kept, hrestart]
    exact hdrop

/--
With ordered stamps a window holds the samples that are no older than its span.
-/
theorem ring_eq_filter (interval : Nat) (hordered : Ordered samples) (hlast : samples.getLast? = some last)
    : ((new interval).pushes samples).ring = samples.filter fun x => last.1 - x.1 ≤ interval * windowSamples := by
  induction samples using List.reverseRecOn generalizing last with
  | nil => cases hlast
  | append_singleton l x ih =>
    obtain rfl : x = last := by simpa using hlast
    have hl : Ordered l := (List.pairwise_append.mp hordered).1
    have hkept : ((new interval).pushes l).kept x.1 = l.filter fun y => x.1 - y.1 ≤ interval * windowSamples := by
      have hspan : ((new interval).pushes l).span = interval * windowSamples := span_pushes _ l
      cases hlast : l.getLast? with
      | none =>
        rw [List.getLast?_eq_none_iff.mp hlast]
        rfl
      | some last =>
        rw [kept_eq_filter, ih hl hlast, List.filter_filter, hspan]
        . apply List.filter_congr
          intro y hy
          have hle := hl.le_last hlast y hy
          have hx := @Ordered.le_last _ _ x hordered (by simp) last (List.mem_append_left _ (List.mem_of_getLast? hlast))
          rw [Bool.eq_iff_iff]
          simp only [Bool.and_eq_true, decide_eq_true_eq]
          omega
        . exact List.Pairwise.sublist (trails interval l).suffix.sublist hl
    rw [pushes_append]
    show ((new interval).pushes l).kept x.1 ++ [x] = _
    rw [hkept, List.filter_append]
    simp

theorem Trails.latest (h : Trails w samples) : w.latest = samples.getLast?.map Prod.snd := by
  rw [Window.latest, h.getLast]

theorem Trails.endpoints (h : Trails w samples) {first last : α} {elapsed : Nat}
    (heq : w.endpoints = some (first, last, elapsed))
    : 0 < elapsed ∧ elapsed ≤ w.span := by
  unfold Window.endpoints at heq
  split at heq
  . next x y hx hy =>
    have hends := h.ends x hx y hy
    split at heq
    . cases heq
    . obtain rfl : y.1 - x.1 = elapsed := by simp_all
      omega
  . cases heq

/--
Whatever the stamps are a window holds the last samples, across no gap and no span that is wider than its own. Where
they do not run backwards these are all the samples no older than that.
-/
theorem window_spec (interval : Nat) (samples : List (Nat × α))
    : let w := (new interval).pushes samples
      Trails w samples ∧ w.latest = samples.getLast?.map Prod.snd ∧
        (∀ first last elapsed, w.endpoints = some (first, last, elapsed) →
          0 < elapsed ∧ elapsed ≤ interval * windowSamples) ∧
        ∀ last, samples.getLast? = some last → Ordered samples →
          w.ring = samples.filter fun x => last.1 - x.1 ≤ interval * windowSamples := by
  intro w
  have h := trails interval samples
  have hspan : w.span = interval * windowSamples := span_pushes _ _
  refine ⟨h, h.latest, ?_, fun last hlast hordered => ring_eq_filter interval hordered hlast⟩
  intro first last elapsed heq
  rw [← hspan]
  exact h.endpoints heq

end Ring

section Pace

variable {w : Window UInt64} {samples : List (Nat × UInt64)} {first last : Nat × UInt64} {remaining : Option Binary64}

def reading (c : UInt64) : Binary64 := .ofRat c.toNat

def series (w : Window UInt64) : List (Nat × Binary64) := w.ring.map fun x => (x.1, reading x.2)

def rateOf (first last : Nat × UInt64) : Binary64 :=
  ((reading last.2).sub (reading first.2)).divide (.ofNanos (last.1 - first.1))

theorem pace_eq (hfirst : w.ring.head? = some first) (hlast : w.ring.getLast? = some last)
    : w.pace remaining =
        if last.1 - first.1 = 0 ∨ (reading last.2).lt (reading first.2) then
          none
        else
          some ⟨rateOf first last, (remaining.filter fun _ =>
            Binary64.lt (.finite 0) (rateOf first last) && steady w.series).map (·.divide (rateOf first last))⟩ := by
  have hseries : (w.ring.filterMap fun x => (some (Binary64.ofRat x.2.toNat)).map fun v => (x.1, v)) = w.series := by
    rw [series, ← List.filterMap_eq_map]
    rfl
  unfold pace paceBy
  simp only [hseries]
  simp only [series, List.head?_map, List.getLast?_map, hfirst, hlast, Option.map_some]
  rfl

theorem exists_reading (c : UInt64) : ∃ v, reading c = .finite v ∧ 0 ≤ v ∧ v ≤ 2 ^ 64 := by
  apply Binary64.ofRat_of_le (Nat.cast_nonneg _)
  exact_mod_cast c.toNat_lt.le

theorem not_lt_reading {c d : UInt64} (h : c ≤ d) : (reading d).lt (reading c) = false := by
  obtain ⟨v, hv, hv0, -⟩ := exists_reading d
  obtain ⟨u, hu, -, -⟩ := exists_reading c
  have huv : u ≤ v := by
    rcases Nat.eq_zero_or_pos c.toNat with hzero | hpos
    . have hu0 : reading c = .finite 0 := by
        rw [reading, hzero]
        exact Binary64.ofRat_natCast (by norm_num)
      rw [hu] at hu0
      rw [Binary64.finite.inj hu0]
      exact hv0
    . have hle := Binary64.ofRat_le_ofRat (Nat.cast_pos.mpr hpos) (Nat.cast_le.mpr (UInt64.le_iff_toNat_le.mp h))
      rw [show Binary64.ofRat c.toNat = _ from hu, show Binary64.ofRat d.toNat = _ from hv] at hle
      simpa [Binary64.le] using hle
  rw [hv, hu]
  simpa [Binary64.lt] using huv

theorem zero_le_rateOf (hlt : first.1 < last.1) (hle : (reading last.2).lt (reading first.2) = false)
    : (Binary64.finite 0).le (rateOf first last) = true := by
  obtain ⟨v, hv, hv0, hv64⟩ := exists_reading last.2
  obtain ⟨u, hu, hu0, hu64⟩ := exists_reading first.2
  have huv : u ≤ v := by
    rw [hv, hu] at hle
    simpa [Binary64.lt] using hle
  obtain ⟨d, hd, hd0, -⟩ := Binary64.ofRat_of_le (q := v - u) (by linarith) (by linarith)
  have hsub : (reading last.2).sub (reading first.2) = .finite d := by
    rw [hv, hu, ← hd, sub_eq_add_neg]
    rfl
  rw [rateOf, hsub]
  exact Binary64.zero_le_divide hd0 (Binary64.zero_lt_ofNanos (by omega))

theorem exists_recent (interval : Nat) (hordered : Ordered samples) (hlast : samples.getLast? = some last)
    : ∃ first rest, samples.filter (fun x => last.1 - x.1 ≤ interval * windowSamples) = first :: rest ∧
        ((new interval).pushes samples).ring = first :: rest ∧ first.1 ≤ last.1 ∧
        ((new interval).pushes samples).ring.getLast? = some last := by
  have hring := ring_eq_filter interval hordered hlast
  have hmem : last ∈ samples.filter fun x => last.1 - x.1 ≤ interval * windowSamples := by
    simp [List.mem_of_getLast? hlast]
  obtain ⟨first, rest, hrecent⟩ := List.exists_cons_of_ne_nil (List.ne_nil_of_mem hmem)
  have hfirst : first ∈ samples := by
    have : first ∈ samples.filter fun x => last.1 - x.1 ≤ interval * windowSamples := by
      rw [hrecent]
      exact List.mem_cons_self
    exact List.mem_of_mem_filter this
  exact ⟨first, rest, hrecent, hring.trans hrecent, hordered.le_last hlast first hfirst,
    (trails interval samples).getLast.trans hlast⟩

/--
The pace of a window is that of the samples no older than its span. There is none where they are of one moment or the
counter regressed across them. It is offered with a countdown only where it is positive and three intervals agree.
-/
theorem pace_spec (interval : Nat) (samples : List (Nat × UInt64)) (last : Nat × UInt64)
    (hordered : Ordered samples) (hlast : samples.getLast? = some last) (remaining : Option Binary64)
    : ∃ first rest, samples.filter (fun x => last.1 - x.1 ≤ interval * windowSamples) = first :: rest ∧
        (((new interval).pushes samples).pace remaining = none ↔
          first.1 = last.1 ∨ (reading last.2).lt (reading first.2) = true) ∧
        ∀ p, ((new interval).pushes samples).pace remaining = some p →
          p.perSec = rateOf first last ∧ (Binary64.finite 0).le p.perSec = true ∧
            ∀ eta, p.eta = some eta → (Binary64.finite 0).lt p.perSec = true ∧
              steady ((first :: rest).map fun x => (x.1, reading x.2)) = true ∧
              ∃ left, remaining = some left ∧ eta = left.divide p.perSec := by
  obtain ⟨first, rest, hrecent, hring, hle, hend⟩ := exists_recent interval hordered hlast
  have hpace := @pace_eq _ _ _ remaining (by rw [hring]; rfl) hend
  refine ⟨first, rest, hrecent, ?_, ?_⟩
  . rw [hpace]
    split
    . next h =>
      simp only [true_iff]
      exact h.imp (by omega) id
    . next h =>
      simp only [reduceCtorEq, false_iff]
      exact fun h' => h (h'.imp (by omega) id)
  . intro p hp
    rw [hpace] at hp
    split at hp
    . cases hp
    . next h =>
      obtain ⟨hspan, hregress⟩ := not_or.mp h
      obtain rfl := Option.some.inj hp
      refine ⟨rfl, zero_le_rateOf (by omega) (Bool.eq_false_iff.mpr hregress), ?_⟩
      intro eta heta
      obtain ⟨left, hleft, rfl⟩ := Option.map_eq_some_iff.mp heta
      obtain ⟨hremaining, hsteady⟩ := Option.filter_eq_some_iff.mp hleft
      rw [series, hring, Bool.and_eq_true] at hsteady
      exact ⟨hsteady.1, hsteady.2, left, hremaining, rfl⟩

theorem pace_spec_two
    : ∃ first rest, ([(0, 0), (1000000000, 100)] : List (Nat × UInt64)).filter
        (fun x => 1000000000 - x.1 ≤ 1000000000 * windowSamples) = first :: rest ∧
          (((new 1000000000).pushes [(0, 0), (1000000000, 100)]).pace none = none ↔
            first.1 = 1000000000 ∨ (reading 100).lt (reading first.2) = true) := by
  obtain ⟨first, rest, hrecent, hnone, -⟩ :=
    pace_spec 1000000000 [(0, 0), (1000000000, 100)] (1000000000, 100) (by simp [Ordered]) rfl none
  exact ⟨first, rest, hrecent, hnone⟩

/--
A regression of the counter is forgotten once it is older than the span.
-/
theorem pace_recovers (interval : Nat) (old new : List (Nat × UInt64)) (last x : Nat × UInt64)
    (hordered : Ordered (old ++ new)) (hlast : new.getLast? = some last)
    (hold : ∀ y ∈ old, interval * windowSamples < last.1 - y.1)
    (hnew : new.Pairwise fun x y => x.2 ≤ y.2)
    (hx : x ∈ new) (hrecent : last.1 - x.1 ≤ interval * windowSamples) (hlt : x.1 < last.1)
    (remaining : Option Binary64)
    : (((Window.new interval).pushes (old ++ new)).pace remaining).isSome = true := by
  have hlast' : (old ++ new).getLast? = some last := by simp [hlast]
  obtain ⟨first, rest, hfilter, hring, hle, hend⟩ := exists_recent interval hordered hlast'
  have hdropped : old.filter (fun x => last.1 - x.1 ≤ interval * windowSamples) = [] := by
    rw [List.filter_eq_nil_iff]
    intro y hy
    have := hold y hy
    simp only [decide_eq_true_eq]
    omega
  rw [List.filter_append, hdropped, List.nil_append] at hfilter
  have hsub : List.Sublist (first :: rest) new := hfilter ▸ List.filter_sublist
  have hfirst : first.1 ≤ x.1 := by
    have hmem : x ∈ first :: rest := by
      rw [← hfilter]
      exact List.mem_filter.mpr ⟨hx, decide_eq_true hrecent⟩
    rcases List.mem_cons.mp hmem with rfl | hmem
    . exact le_rfl
    . have hnewOrdered : Ordered new := (List.pairwise_append.mp hordered).2.1
      exact (List.pairwise_cons.mp (hnewOrdered.sublist hsub)).1 x hmem
  have hcounts : first.2 ≤ last.2 := by
    have hmem : last ∈ first :: rest := by
      rw [← hfilter]
      simp [List.mem_of_getLast? hlast]
    rcases List.mem_cons.mp hmem with rfl | hmem
    . exact UInt64.le_refl _
    . exact (List.pairwise_cons.mp (hnew.sublist hsub)).1 last hmem
  rw [pace_eq (by rw [hring]; rfl) hend, if_neg]
  . rfl
  . rintro (hspan | hregress)
    . omega
    . rw [not_lt_reading hcounts] at hregress
      cases hregress

theorem pace_recovers_reset
    : (((Window.new 1000000000).pushes ([(0, 900)] ++ [(5000000000, 5), (6000000000, 7)])).pace none).isSome = true :=
  pace_recovers 1000000000 [(0, 900)] [(5000000000, 5), (6000000000, 7)] (6000000000, 7) (5000000000, 5)
    (by simp [Ordered]) rfl (by simp [windowSamples]) (by decide) (by simp) (by simp [windowSamples]) (by simp) none

end Pace

end Window

end Rate
