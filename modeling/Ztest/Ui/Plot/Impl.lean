import Mathlib.Data.Rat.Floor

/-!
This module contains the rasteriser of stacked plots over exact rationals: bands are fitted to the columns of
the raster, and each column shares out its sub-rows between the channels.
-/

namespace Ui
namespace Plot

abbrev Band := Option (Rat × Rat)

inductive Fill where
  | solid
  | varying
  | unknown
  deriving DecidableEq

structure Sub where
  channel : Nat
  fill : Fill

structure PlotOpts where
  width : Nat
  height : Nat
  baseline : Option Rat
  atLeast : Option Rat

def subCols : Nat := 2

def subRows : Nat := 4

structure Raster where
  subW : Nat
  subH : Nat
  ceiling : Rat
  cells : List (Option Sub)

namespace Raster

def atCell (r : Raster) (x y : Nat) : Option Sub := (r.cells[y * r.subW + x]?).join

def rowOf (r : Raster) (level : Nat) : Nat := r.subH - 1 - level

def set (r : Raster) (x level : Nat) (sub : Sub) : Raster :=
  if x < r.subW ∧ level < r.subH then
    { r with cells := r.cells.set (r.rowOf level * r.subW + x) (some sub) }
  else
    r

end Raster

def clamp (v : Rat) : Rat := max 0 (min v 1)

def roundUsize (x : Rat) : Nat := ⌊x + 1 / 2⌋.toNat

def maxByKey (key : Nat → Nat) (indices : List Nat) : Option Nat :=
  indices.foldl
    (fun best j =>
      match best with
      | none => some j
      | some b => if key b ≤ key j then some j else some b)
    none

section Apportion

variable (values : List Rat) (ceiling : Rat) (subH : Nat)

def exactRows : List Rat := values.map fun v => clamp (v / ceiling) * subH

def totalRows (exact : List Rat) : Nat :=
  if 0 < exact.sum then max 1 (min (roundUsize exact.sum) subH) else 0

def remainder (exact : List Rat) (i : Nat) : Rat := Int.fract (exact.getD i 0)

-- The indices by what flooring takes from them, largest first.
def remainderOrder (exact : List Rat) : List Nat :=
  (List.range exact.length).mergeSort fun a b =>
    decide (remainder exact b < remainder exact a ∨ remainder exact b = remainder exact a ∧ a ≤ b)

def cycleTake (order : List Nat) (n : Nat) : List Nat := (List.replicate n order).flatten.take n

def addRow (rows : List Nat) (i : Nat) : List Nat := rows.modify i (· + 1)

def takeRow (rows : List Nat) (i : Nat) : List Nat := rows.modify i (· - 1)

def largestRemainder (exact : List Rat) : List Nat :=
  let floors := exact.map fun e => ⌊e⌋.toNat
  let deficit := totalRows subH exact - floors.sum
  (cycleTake (remainderOrder exact) deficit).foldl addRow floors

def donor (rows : List Nat) : Option Nat :=
  (maxByKey (rows.getD · 0) (List.range rows.length)).filter fun j => decide (1 < rows.getD j 0)

def lend : List Nat → List Nat → List Nat
  | rows, [] => rows
  | rows, i :: is =>
    if 0 < rows.getD i 0 ∨ values.getD i 0 ≤ 0 then
      lend rows is
    else
      match donor rows with
      | none => rows
      | some d => lend (addRow (takeRow rows d) i) is

def apportion : List Nat :=
  let rows := largestRemainder subH (exactRows values ceiling subH)
  lend values rows (List.range rows.length)

end Apportion

-- How many of the `n` rows of a channel stand below the least it was seen at.
def solidRows (band : Rat × Rat) (n : Nat) : Nat :=
  if 0 < band.2 then min (roundUsize (n * clamp (band.1 / band.2))) n else 0

-- What one channel paints from `level` on.
def segment (channel : Nat) (band : Rat × Rat) (n level : Nat) : List (Nat × Sub) :=
  (List.range n).map fun i =>
    (level + i, ⟨channel, if i < solidRows band n then .solid else .varying⟩)

def stack : Nat → List ((Rat × Rat) × Nat) → Nat → List (Nat × Sub)
  | _, [], _ => []
  | channel, (band, n) :: rest, level => segment channel band n level ++ stack (channel + 1) rest (level + n)

def columnAt (channels : List (List Band)) (x : Nat) : List Band := channels.map fun channel => (channel[x]?).join

-- The channels below the first one that was not observed.
def observed (column : List Band) : List (Rat × Rat) := (column.takeWhile Option.isSome).reduceOption

-- What a column paints, in its order: levels from the bottom and what is put there.
def strokes (ceiling : Rat) (subH : Nat) (column : List Band) : List (Nat × Sub) :=
  if column.all Option.isNone then
    []
  else
    let bands := observed column
    let rows := apportion (bands.map Prod.snd) ceiling subH
    let hatch :=
      if bands.length < column.length then
        (List.range' rows.sum (subH - rows.sum)).map fun level => (level, ⟨bands.length, .unknown⟩)
      else
        []
    stack 0 (bands.zip rows) 0 ++ hatch

def paintColumn (raster : Raster) (x : Nat) (channels : List (List Band)) : Raster :=
  (strokes raster.ceiling raster.subH (columnAt channels x)).foldl (fun r s => r.set x s.1 s.2) raster

def columnTotal (channels : List (List Band)) (x : Nat) : Rat :=
  (channels.filterMap fun channel => (channel[x]?).join.map Prod.snd).sum

def ceilingOf (channels : List (List Band)) (opts : PlotOpts) : Rat :=
  let columns := (channels.map List.length).foldl max 0
  ((List.range columns).map (columnTotal channels) ++ opts.baseline.toList ++ opts.atLeast.toList).foldl max 0

def window (len n i : Nat) : Nat × Nat :=
  let lo := i * len / n
  (lo, min (max ((i + 1) * len / n) (lo + 1)) len)

def union (bands : List (Rat × Rat)) : Band :=
  match bands with
  | [] => none
  | b :: bs => some (bs.foldl (fun a b => (min a.1 b.1, max a.2 b.2)) b)

def resample (bands : List Band) (n : Nat) : List Band :=
  if n = 0 then
    []
  else if bands = [] then
    List.replicate n none
  else
    (List.range n).map fun i =>
      let w := window bands.length n i
      union ((bands.drop w.1).take (w.2 - w.1)).reduceOption

def rasterize (channels : List (List Band)) (opts : PlotOpts) : Raster :=
  let subW := opts.width * subCols
  let subH := opts.height * subRows
  let resampled := channels.map (resample · subW)
  let raster : Raster := ⟨subW, subH, ceilingOf resampled opts, List.replicate (subW * subH) none⟩
  if subW = 0 ∨ subH = 0 ∨ raster.ceiling ≤ 0 then
    raster
  else
    (List.range subW).foldl (fun r x => paintColumn r x resampled) raster

end Plot
end Ui
