import Mathlib.Data.List.DropRight
import Ztest.Lib.Ansi

/-!
This module contains the rows that `console/bridge.rs` makes of the cells of an emulated terminal, and the
footer that `console/viewport.rs` composes of them. The emulator is a parameter.
-/

namespace Ui
namespace Console
namespace Bridge

open Ansi (Color Pen sgr)

def nowrapCols : Nat := 512

-- The tail of a wide character has the width 0. The emulator executes control characters, it prints none.
structure Cell where
  char : Char
  width : Nat
  pen : Pen
  narrow : width ≤ 2
  printed : char ≠ '\r' ∧ char ≠ '\n' ∧ char ≠ Ansi.esc

-- `Vt::new(cols, rows)`, then `feed_str`: the lines that are in view.
abbrev Vt := (cols rows : Nat) → (input : Text) → List (List Cell)

def decimal (n : UInt8) : Text := Nat.toDigits 10 n.toNat

def colorParams (c : Color) (base : UInt8) : Text :=
  match c with
  | .indexed i =>
    if i ≤ 7 then decimal (base + i)
    else if i ≤ 15 then decimal (base + 60 + (i - 8))
    else decimal (base + 8) ++ [';', '5', ';'] ++ decimal i
  | .rgb r g b => decimal (base + 8) ++ [';', '2', ';'] ++ decimal r ++ [';'] ++ decimal g ++ [';'] ++ decimal b

-- Empty for the default of the terminal.
def sgrParams (pen : Pen) : Text :=
  [';'].intercalate (
    (if pen.isBold then [['1']] else [])
    ++ (if pen.isFaint then [['2']] else [])
    ++ (if pen.isItalic then [['3']] else [])
    ++ (if pen.isUnderline then [['4']] else [])
    ++ (if pen.isBlink then [['5']] else [])
    ++ (if pen.isInverse then [['7']] else [])
    ++ (if pen.isStrikethrough then [['9']] else [])
    ++ (pen.foreground.map (colorParams · 30)).toList
    ++ (pen.background.map (colorParams · 40)).toList)

def rendersBlank (cell : Cell) : Bool :=
  cell.char = ' '
    && cell.width = 1
    && cell.pen.background.isNone
    && !cell.pen.isInverse
    && !cell.pen.isUnderline
    && !cell.pen.isStrikethrough

def reset : Text := sgr ['0']

-- The rows that are done, and the one that is open with the parameters in effect.
structure Rows where
  rows : List (Text × Nat)
  out : Text
  cur : Text
  used : Nat

namespace Rows

def init : Rows := ⟨[], [], [], 0⟩

def close (s : Rows) : Rows :=
  { rows := s.rows ++ [(s.out ++ (if s.cur = [] then [] else reset), s.used)], out := [], cur := [], used := 0 }

def restyle (s : Rows) (pen : Pen) : Rows :=
  let params := sgrParams pen
  if params = s.cur then s
  else { s with out := s.out ++ (if params = [] then reset else sgr ('0' :: ';' :: params)), cur := params }

def push (width : Nat) (s : Rows) (cell : Cell) : Rows :=
  if cell.width = 0 then s
  else
    let s := if width < s.used + cell.width then s.close else s
    let s := s.restyle cell.pen
    { s with out := s.out ++ [cell.char], used := s.used + cell.width }

end Rows

def avtLineAnsiRows (cells : List Cell) (width : Nat) : List (Text × Nat) :=
  ((cells.rdropWhile rendersBlank).foldl (Rows.push (max width 1)) Rows.init).close.rows

theorem avtLineAnsiRows_ne_nil (cells : List Cell) (width : Nat) : avtLineAnsiRows cells width ≠ [] :=
  List.append_ne_nil_of_right_ne_nil _ (List.cons_ne_nil _ _)

def avtLineAnsiClipped (cells : List Cell) (maxCols : Nat) : Text × Nat :=
  (avtLineAnsiRows cells maxCols).head (avtLineAnsiRows_ne_nil cells maxCols)

-- `trim_end_matches('\n')`
def trimEnd (text : Text) : Text := text.rdropWhile (· = '\n')

-- A line feed alone would keep the column.
def carried (text : Text) : Text := text.flatMap fun c => if c = '\n' then Ansi.newline else [c]

def replay (vt : Vt) (text : Text) : List (List Cell) :=
  let text := trimEnd text
  vt nowrapCols (max (Lines.rows '\n' '\r' text).length 1) (carried text)

def ansiRows (vt : Vt) (text : Text) (width : Nat) : List (Text × Nat) :=
  (replay vt text).map (avtLineAnsiClipped · width)

def twoColMin : UInt16 := 90

def leftColTarget : UInt16 := 80

def rightColMin : UInt16 := 30

def threeColMin : UInt16 := leftColTarget + rightColMin * 2

def midColWidth : UInt16 := 34

-- A difference that is negative ends the program.
def checkedSub (a b : UInt16) : Option UInt16 := if b ≤ a then some (a - b) else none

def twoColSplit (width : UInt16) : Option (UInt16 × UInt16) := do
  let most ← checkedSub width rightColMin
  let left := min leftColTarget most
  let right ← checkedSub width left
  return (left, right)

-- The rows of one line of the panel, each with the width of its column. The last one is not padded.
def joined : List ((Text × Nat) × UInt16) → Text
  | [] => []
  | [(row, _)] => row.1
  | (row, w) :: next :: rest => row.1 ++ List.replicate (w.toNat - row.2) ' ' ++ joined (next :: rest)

def sideBySide (vt : Vt) (columns : List (Text × UInt16)) : List Text :=
  let rows := columns.map fun column => (ansiRows vt column.1 column.2.toNat, column.2)
  let n := ((rows.map fun column => column.1.length).max?).getD 0
  (List.range n).map fun i => joined (rows.map fun column => ((column.1[i]?).getD ([], 0), column.2))

def composePanel (vt : Vt) (left : Text) (mid : Option Text) (right : Text) (cols : UInt16) : Option (List Text) := do
  let right := trimEnd right
  let mid := (mid.map trimEnd).filter (· ≠ [])
  match mid with
  | some mid =>
    if threeColMin ≤ cols then
      let rest ← checkedSub cols leftColTarget
      let rightW ← checkedSub rest midColWidth
      return sideBySide vt [(left, leftColTarget), (mid, midColWidth), (right, rightW)]
    else if twoColMin ≤ cols then
      let split ← twoColSplit cols
      return sideBySide vt [(left, split.1), (mid, split.2)]
    else return (ansiRows vt left cols.toNat).map Prod.fst
  | none =>
    if twoColMin ≤ cols ∧ right ≠ [] then
      let split ← twoColSplit cols
      return sideBySide vt [(left, split.1), (right, split.2)]
    else return (ansiRows vt left cols.toNat).map Prod.fst

def composeFooter (vt : Vt) (live : List Text) (left : Text) (mid : Option Text) (right : Text) (cols : UInt16)
    : Option (List Text) := do
  let panel ← composePanel vt left mid right cols
  return (live.flatMap fun line => (ansiRows vt line cols.toNat).map Prod.fst) ++ panel

end Bridge
end Console
end Ui
