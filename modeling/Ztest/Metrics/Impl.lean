import Mathlib.Data.Rat.Defs
import Mathlib.Algebra.Order.Ring.Unbundled.Rat
import Mathlib.Algebra.Order.Ring.Rat
import Mathlib.Algebra.Order.Monoid.WithTop
import Mathlib.Data.Prod.Lex
import Mathlib.Order.WithBot
import Ztest.Lib.Counter
import Ztest.Lib.Sums

/-!
This module contains the readings of a published metric (`metrics/mod.rs`), the whole-run totals of
`metrics/query.rs`, and the histograms that `Exposition::buckets` folds over their label sets, with the
quantiles of what was observed between two scrapes. Numbers are exact, instants and gaps are in seconds.

A bound is a number or infinite. The bits of a float are kept as its sign and its magnitude, which is how
they are ordered.
-/

namespace Metrics

inductive Phi where
  | p50
  | p99
  deriving DecidableEq

def Phi.value : Phi → ℚ
  | .p50 => 1 / 2
  | .p99 => 99 / 100

structure Select where
  label : String
  value : String

structure Family where
  name : String
  select : Option Select

inductive Reading where
  | rate (family : Family)
  | slope (family : Family)
  | level (family : Family)
  | progress (family : Family)
  | mean (family : Family)
  | quantile (family : Family) (phi : Phi)

def Reading.cumulative : Reading → Bool
  | .rate _ | .mean _ | .quantile _ _ => true
  | _ => false

structure Coverage where
  samples : Nat
  first : ℚ
  last : ℚ
  widestGap : ℚ
  resets : Nat

def Coverage.merge (c other : Coverage) : Coverage where
  samples := c.samples + other.samples
  first := min c.first other.first
  last := max c.last other.last
  widestGap := max c.widestGap other.widestGap
  resets := c.resets + other.resets

structure Total where
  value : ℚ
  coverage : Coverage

namespace Total

-- The locals of the loop in `Total::of`.
structure Tracked where
  value : ℚ
  resets : Nat
  widest : ℚ

def Tracked.init : Tracked := ⟨0, 0, 0⟩

def Tracked.window (restarts : Bool) (t : Tracked) (w : (ℚ × ℚ) × (ℚ × ℚ)) : Tracked :=
  let widest := max t.widest (w.2.1 - w.1.1)
  if w.2.2 < w.1.2 then
    ⟨if restarts then t.value + w.2.2 else t.value, t.resets + 1, widest⟩
  else
    ⟨t.value + (w.2.2 - w.1.2), t.resets, widest⟩

-- Of points of an instant and a value.
def of (points : List (ℚ × ℚ)) (reading : Reading) : Option Total :=
  match points.head?, points.getLast? with
  | some first, some last =>
    if points.length < 2 then
      none
    else
      let t := (points.zip points.tail).foldl (Tracked.window reading.cumulative) .init
      some ⟨t.value, ⟨points.length, first.1, last.1, max t.widest 0, t.resets⟩⟩
  | _, _ => none

def folded : List Total → Option Total
  | [] => none
  | part :: parts =>
    some ⟨((part :: parts).map value).sum, (parts.map coverage).foldl .merge part.coverage⟩

def totalOf (series : List (List (ℚ × ℚ))) (reading : Reading) : Option Total :=
  folded (series.filterMap fun points => of points reading)

end Total

abbrev Bound : Type := WithTop ℚ

-- The upper bound of a bucket, and how many observations are at or below it.
abbrev Rung : Type := Bound × ℚ

abbrev Bits : Type := Bool ×ₗ WithTop ℚ

def toBits (le : Bound) : Bits := toLex (decide (le < 0), le.map fun q => |q|)

def fromBits (bits : Bits) : Bound := if (ofLex bits).1 then (ofLex bits).2.map fun q => -q else (ofLex bits).2

abbrev Labels : Type := List (String × String)

structure Buckets where
  labels : Labels
  le : List Rung

structure Exposition where
  byHistogram : List (String × List Buckets)

def admits (select : Option Select) (labels : Labels) : Bool :=
  match select with
  | none => true
  | some s => labels.lookup s.label = some s.value

def Exposition.buckets (e : Exposition) (family : Family) : Option (List Rung) :=
  (e.byHistogram.lookup family.name).bind fun sets =>
    let admitted := sets.filter fun set => admits family.select set.labels
    let folded := admitted.foldl (fun folded set =>
      set.le.foldl (fun folded (le, count) => Sums.add (toBits le) count folded) folded) []
    if admitted = [] then none else some (folded.map fun (le, count) => (fromBits le, count))

-- Behind an infinite bound a float has no value in between.
def within (frac : ℚ) : Bound → Bound → Bound
  | some under, some le => some (under + (le - under) * frac)
  | some under, none => some under
  | none, _ => ⊤

-- The loop of `windowed_quantile`, with the bucket below as its bound and count.
def windowedFrom (rank : ℚ) : Rung → List (Rung × Rung) → Option Bound
  | _, [] => none
  | under, ((le, b), (leAfter, a)) :: rest =>
    if le ≠ leAfter then
      none
    else
      let count := max (a - b) 0
      if count < rank then
        windowedFrom rank (le, count) rest
      else
        let span := count - under.2
        let frac := if 0 < span then (rank - under.2) / span else 0
        some ((within frac under.1 le).map (· * 1000))

-- In milliseconds.
def windowedQuantile (before after : List Rung) (phi : Phi) : Option Bound :=
  match after.getLast?, before.getLast? with
  | some (inf, hi), some (_, lo) =>
    if before.length ≠ after.length ∨ inf ≠ ⊤ then
      none
    else
      let rank := phi.value * (hi - lo)
      if rank ≤ 0 then none else windowedFrom rank (0, 0) (before.zip after)
  | _, _ => none

end Metrics
