import Mathlib.Data.UInt
import Ztest.Lib.Decimal
import Ztest.Lib.Lines

/-!
This module contains the collapsing of a flamebearer into one line per stack, and what the lines account
for. The numbers of a flamebearer are `i64`.
-/

namespace Profiling
namespace Collapse

structure FlameGraph where
  names : List Text
  levels : List (List Int)

def wrapI64 (x : Int) : Int := x.bmod (2 ^ 64)

def asUsize (x : Int) : Nat := if x < 0 then (x + 2 ^ 64).toNat else x.toNat

structure Node where
  delta : Int
  total : Int
  selfValue : Int
  name : Int

def nodesOf : List Int → List Node
  | delta :: total :: selfValue :: name :: rest => ⟨delta, total, selfValue, name⟩ :: nodesOf rest
  | _ => []

-- A node of the row above.
structure Span where
  start : Int
  stop : Int
  stack : List Nat

def stackOver (parents : List Span) (x : Int) : List Nat :=
  match parents.find? fun s => s.start ≤ x && x < s.stop with
  | some s => s.stack
  | none => []

def framesOf (names : List Text) (stack : List Nat) : List Text :=
  stack.map fun i => (names[i]?).getD "[unknown]".toList

def lineOf (frames : List Text) (selfValue : Nat) : Text :=
  Lines.join ';' frames ++ ' ' :: Nat.toDigits 10 selfValue ++ ['\n']

-- What one row adds to the output, and its spans.
def collapseRow (names : List Text) (parents : List Span) : Int → List Node → Text × List Span
  | _, [] => ([], [])
  | x, node :: nodes =>
    let x := wrapI64 (x + node.delta)
    let stack := stackOver parents x ++ [asUsize node.name]
    let line := if 0 < node.selfValue then lineOf (framesOf names stack) node.selfValue.toNat else []
    let rest := collapseRow names parents (wrapI64 (x + node.total)) nodes
    (line ++ rest.1, ⟨x, wrapI64 (x + node.total), stack⟩ :: rest.2)

def collapseLevels (names : List Text) : List Span → List (List Int) → Text
  | _, [] => []
  | parents, level :: levels =>
    let row := collapseRow names parents 0 (nodesOf level)
    row.1 ++ collapseLevels names row.2 levels

def collapse (fg : FlameGraph) : Text := collapseLevels fg.names [] fg.levels

def stripReturn (line : Text) : Text := if line.getLast? = some '\r' then line.dropLast else line

def linesOf (text : Text) : List Text :=
  if '\n' ∈ text then
    stripReturn (text.takeWhile (· ≠ '\n')) :: linesOf (text.dropWhile (· ≠ '\n')).tail
  else if text = [] then
    []
  else
    [text]
termination_by text.length
decreasing_by
  have hle := (List.dropWhile_sublist (l := text) fun c => decide (c ≠ '\n')).length_le
  have hpos : 0 < text.length := List.length_pos_of_mem ‹_›
  rw [List.length_tail]
  omega

-- What stands after the last space, as `rsplit_once(' ')` has it.
def afterSpace (line : Text) : Option Text :=
  if ' ' ∈ line then some (line.rtakeWhile (· ≠ ' ')) else none

def collapsedNanos (profile : ByteArray) : Option UInt64 :=
  (String.fromUTF8? profile).map fun text =>
    ((linesOf text.toList).filterMap fun line => (afterSpace line).bind Decimal.parse).sum

end Collapse
end Profiling
