import Ztest.Lib.Ansi

/-!
This module contains the renderer of the sticky footer (`console/footer.rs`), the terminal that its tests run
it on, and the frames that `Surface` of `console/viewport.rs` makes of it.
-/

namespace Ui
namespace Console
namespace Footer

open Ansi (csi newline)

def cursorUp (n : Nat) : Text := csi (Nat.toDigits 10 n) 'A'

def eraseLine : Text := csi [] 'K'

def eraseBelow : Text := csi [] 'J'

-- A line that is committed ends, the last one of a footer does not.
def commit (line : Text) : Text := line ++ eraseLine ++ newline

def block : List Text → Text
  | [] => []
  | [line] => line ++ eraseLine
  | line :: next :: rest => line ++ eraseLine ++ newline ++ block (next :: rest)

def render (committed footer : List Text) (prevRows : Nat) : Text × Nat :=
  ((if 1 < prevRows then cursorUp (prevRows - 1) else []) ++ (if 0 < prevRows then ['\r'] else [])
    ++ committed.flatMap commit ++ block footer
    ++ (if committed.length + footer.length < prevRows then eraseBelow else []) ++ ['\r'], footer.length)

-- The bytes that a frame is wrapped in have no geometry.
def syncBegin : Text := ['\x1b', '[', '?', '2', '0', '2', '6', 'h']

def syncEnd : Text := ['\x1b', '[', '?', '2', '0', '2', '6', 'l']

def cursorShow : Text := ['\x1b', '[', '?', '2', '5', 'h']

structure Surface where
  cols : Nat
  rows : Nat
  prevFooterRows : Nat

namespace Surface

-- The oldest rows of a footer that is too tall are shed.
def shed (rows : Nat) (footerLines : List Text) : List Text := footerLines.drop (footerLines.length - rows)

def present (s : Surface) (committed footerLines : List Text) : Surface × Text :=
  let rendered := render committed (shed s.rows footerLines) s.prevFooterRows
  ({ s with prevFooterRows := rendered.2 }, syncBegin ++ rendered.1 ++ syncEnd)

def finish (s : Surface) (finalLive : List Text) : Surface × Text :=
  ({ s with prevFooterRows := 0 }, (render finalLive [] s.prevFooterRows).1 ++ cursorShow)

end Surface

def trimEnd (row : Text) : Text := row.rdropWhile Decimal.isWhitespace

structure Term where
  cols : Nat
  rows : Nat
  grid : List Text
  scrollback : List Text
  cx : Nat
  cy : Nat

namespace Term

def blank (cols : Nat) : Text := List.replicate cols ' '

def new (cols rows : Nat) : Term := ⟨cols, rows, List.replicate rows (blank cols), [], 0, 0⟩

def scrollUp (t : Term) : Term :=
  { t with grid := t.grid.tail ++ [blank t.cols], scrollback := t.scrollback ++ [trimEnd (t.grid.headD [])] }

def lineFeed (t : Term) : Term := if t.cy + 1 = t.rows then t.scrollUp else { t with cy := t.cy + 1 }

def put (t : Term) (c : Char) : Term :=
  if t.cx < t.cols then { t with grid := t.grid.modify t.cy (·.set t.cx c), cx := t.cx + 1 } else t

def eraseLine (t : Term) : Term :=
  { t with grid := t.grid.modify t.cy fun row => row.take t.cx ++ List.replicate (t.cols - t.cx) ' ' }

def eraseBelow (t : Term) : Term :=
  let t := t.eraseLine
  { t with grid := t.grid.take (t.cy + 1) ++ List.replicate (t.rows - (t.cy + 1)) (blank t.cols) }

def op (t : Term) : Ansi.Token → Term
  | .cr => { t with cx := 0 }
  | .lf => t.lineFeed
  | .csi isPrivate params final =>
    if isPrivate then t
    else
      match final with
      | 'A' => { t with cy := t.cy - max ((Decimal.parseDigits ((params.splitOn ';').headD [])).getD 1) 1 }
      | 'K' => t.eraseLine
      | 'J' => t.eraseBelow
      | _ => t
  | .glyph c => t.put c

def apply (t : Term) (text : Text) : Term := (Ansi.tokens text).foldl op t

end Term
end Footer
end Console
end Ui
