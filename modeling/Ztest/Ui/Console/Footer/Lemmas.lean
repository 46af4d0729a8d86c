import Ztest.Ui.Console.Footer.Impl

namespace Ui
namespace Console
namespace Footer

open Ansi (Token Reads)

-- A token that moves nothing but the column.
def Flat : Token → Prop
  | .glyph _ => True
  | .csi isPrivate _ final => isPrivate = true ∨ final ∉ ['A', 'K', 'J']
  | _ => False

def cellsOf (toks : List Token) : Text := toks.filterMap Token.cell

/--
A line of at most so many cells.
-/
structure Line (cols : Nat) where
  text : Text
  toks : List Token
  reads : Reads text toks
  flat : ∀ tok ∈ toks, Flat tok
  fits : (cellsOf toks).length ≤ cols

def Line.cells {cols : Nat} (line : Line cols) : Text := cellsOf line.toks

structure Frame (cols rows : Nat) where
  committed : List (Line cols)
  footer : List (Line cols)
  fits : footer.length ≤ rows

-- The terminal and the `prev_rows` that the next frame is given.
def draw {cols rows : Nat} (s : Term × Nat) (frame : Frame cols rows) : Term × Nat :=
  let rendered := render (frame.committed.map Line.text) (frame.footer.map Line.text) s.2
  (s.1.apply rendered.1, rendered.2)

def pad (cols : Nat) (cells : Text) : Text := cells ++ List.replicate (cols - cells.length) ' '

/--
What a terminal shows when these lines were committed and this is the footer.
-/
def Pinned (cols rows : Nat) (done footer : List Text) (t : Term) : Prop :=
  ∃ scrolled onScreen below, done = scrolled ++ onScreen ∧ onScreen.length + footer.length + below = rows ∧
    (footer = [] → 0 < below) ∧
    t = ⟨cols, rows, (onScreen ++ footer).map (pad cols) ++ List.replicate below (Term.blank cols), scrolled.map trimEnd, 0,
      onScreen.length + (footer.length - 1)⟩

-- The cursor is on `row`.
def screen (cols : Nat) (above : List Text) (row : Text) (below : List Text) (scrollback : List Text) (cx : Nat) : Term :=
  ⟨cols, above.length + 1 + below.length, above ++ row :: below, scrollback, cx, above.length⟩

section Screen

variable {cols cx : Nat} {above below scrollback : List Text} {row text rest : Text} {toks : List Token} {t : Term}

theorem apply_reads (h : Reads text toks) (t : Term) (rest : Text) : t.apply (text ++ rest) = (toks.foldl Term.op t).apply rest := by
  rw [Term.apply, h, List.foldl_append, Term.apply]

theorem modify_append (f : Text → Text) (above : List Text) (row : Text) (below : List Text)
    : (above ++ row :: below).modify above.length f = above ++ f row :: below := by
  induction above with
  | nil => rfl
  | cons top above ih =>
    rw [List.cons_append, List.length_cons, List.modify_succ_cons, ih]
    rfl

theorem put_screen {left right : Text} {old c : Char} (h : left.length < cols)
    : (screen cols above (left ++ old :: right) below scrollback left.length).put c =
        screen cols above (left ++ [c] ++ right) below scrollback (left ++ [c]).length := by
  have hset : (left ++ old :: right).set left.length c = left ++ [c] ++ right := by simp
  have hlen : (left ++ [c]).length = left.length + 1 := by simp
  rw [hlen]
  simp only [Term.put, screen, if_pos h, modify_append, hset]

theorem eraseLine_screen
    : (screen cols above row below scrollback cx).eraseLine =
        screen cols above (row.take cx ++ List.replicate (cols - cx) ' ') below scrollback cx := by
  simp only [Term.eraseLine, screen, modify_append]

theorem eraseBelow_screen
    : (screen cols above row below scrollback cx).eraseBelow =
        screen cols above (row.take cx ++ List.replicate (cols - cx) ' ') (List.replicate below.length (Term.blank cols))
          scrollback cx := by
  unfold Term.eraseBelow
  rw [eraseLine_screen]
  have htake : above.take (above.length + 1) = above := List.take_of_length_le (Nat.le_succ _)
  simp [screen, List.take_append, htake]

theorem op_flat {tok : Token} (h : Flat tok) : t.op tok = tok.cell.elim t t.put := by
  cases tok with
  | cr => cases h
  | lf => cases h
  | glyph c => rfl
  | csi isPrivate params final =>
    simp only [Term.op, Token.cell, Option.elim_none]
    rcases h with rfl | hfinal
    . rfl
    . split
      . rfl
      . simp only [List.mem_cons, List.not_mem_nil, or_false, not_or] at hfinal
        split <;> simp_all

theorem write_screen (hflat : ∀ tok ∈ toks, Flat tok) {left right : Text} (hrow : (left ++ right).length = cols)
    (hfits : (cellsOf toks).length ≤ right.length)
    : toks.foldl Term.op (screen cols above (left ++ right) below scrollback left.length) =
        screen cols above (left ++ cellsOf toks ++ right.drop (cellsOf toks).length) below scrollback
          (left ++ cellsOf toks).length := by
  induction toks generalizing left right with
  | nil => simp [cellsOf]
  | cons tok toks ih =>
    rw [List.foldl_cons, op_flat (hflat tok List.mem_cons_self)]
    have hrest : ∀ tok ∈ toks, Flat tok := fun other hother => hflat other (List.mem_cons_of_mem _ hother)
    cases hcell : tok.cell with
    | none =>
      have hcells : cellsOf (tok :: toks) = cellsOf toks := by simp [cellsOf, hcell]
      rw [hcells] at hfits ⊢
      exact ih hrest hrow hfits
    | some c =>
      have hcells : cellsOf (tok :: toks) = c :: cellsOf toks := by simp [cellsOf, hcell]
      rw [hcells, List.length_cons] at hfits
      cases right with
      | nil => simp at hfits
      | cons old right =>
        rw [List.length_append, List.length_cons] at hrow
        rw [List.length_cons] at hfits
        rw [hcells, Option.elim_some, put_screen (by omega), ih hrest (by simp; omega) (by omega)]
        simp

theorem trimEnd_pad (cols : Nat) (cells : Text) : trimEnd (pad cols cells) = trimEnd cells := by
  unfold trimEnd pad
  induction cols - cells.length with
  | zero => simp
  | succ n ih =>
    rw [List.replicate_succ', ← List.append_assoc, List.rdropWhile_concat_pos _ _ _ (by decide), ih]

theorem pad_length {cells : Text} (h : cells.length ≤ cols) : (pad cols cells).length = cols := by
  rw [pad, List.length_append, List.length_replicate]
  omega

theorem line_screen (line : Line cols) (hrow : row.length = cols)
    : (screen cols above row below scrollback 0).apply (line.text ++ eraseLine ++ rest) =
        (screen cols above (pad cols line.cells) below scrollback line.cells.length).apply rest := by
  have herase : Reads eraseLine [.csi false [] 'K'] := Ansi.reads_csi (by simp) (by decide) (by decide)
  have hwrite := @write_screen _ above below scrollback _ line.flat [] row (by simpa using hrow)
    (by rw [hrow]; exact line.fits)
  rw [List.append_assoc, apply_reads line.reads, apply_reads herase]
  simp only [List.nil_append, List.length_nil] at hwrite
  rw [hwrite]
  change (Term.eraseLine _).apply rest = _
  rw [eraseLine_screen, List.take_left' rfl]
  rfl

theorem lineFeed_screen_cons {next : Text}
    : (screen cols above row (next :: below) scrollback cx).lineFeed = screen cols (above ++ [row]) next below scrollback cx := by
  have hlast : ¬above.length + 1 = above.length + 1 + (next :: below).length := by
    rw [List.length_cons]
    omega
  unfold Term.lineFeed screen
  dsimp only
  rw [if_neg hlast]
  simp
  omega

theorem lineFeed_screen_nil {top : Text} {others : List Text} (h : above ++ [row] = top :: others)
    : (screen cols above row [] scrollback cx).lineFeed =
        screen cols others (Term.blank cols) [] (scrollback ++ [trimEnd top]) cx := by
  have hlen := congrArg List.length h
  rw [List.length_append, List.length_singleton, List.length_cons] at hlen
  unfold Term.lineFeed Term.scrollUp screen
  dsimp only [List.length_nil]
  rw [if_pos rfl, h]
  simp
  omega

end Screen

/--
A frame is being drawn: the lines so far and the rows of the footer so far stand above the cursor, and below it
`stale` rows of the frame before.
-/
def Drawn (cols rows : Nat) (done printed : List Text) (stale : Nat) (t : Term) : Prop :=
  ∃ scrolled onScreen row below, done = scrolled ++ onScreen ∧
    onScreen.length + printed.length + 1 + below.length = rows ∧ (∀ r ∈ row :: below, r.length = cols) ∧
    (∀ r ∈ (row :: below).drop stale, r = Term.blank cols) ∧
    t = screen cols ((onScreen ++ printed).map (pad cols)) row below (scrolled.map trimEnd) 0

section Drawn

variable {cols rows stale : Nat} {done printed footer : List Text} {rest : Text} {t : Term}

theorem blank_length (cols : Nat) : (Term.blank cols).length = cols := List.length_replicate

theorem drop_tail {rows : List Text} {row : Text} {stale : Nat} (h : ∀ r ∈ (row :: rows).drop stale, r = Term.blank cols)
    : ∀ r ∈ rows.drop (stale - 1), r = Term.blank cols := by
  cases stale with
  | zero => exact fun r hr => h r (List.mem_cons_of_mem _ hr)
  | succ stale => exact h

theorem line_newline (line : Line cols) {above below scrollback : List Text} {row : Text} (hrow : row.length = cols)
    : (screen cols above row below scrollback 0).apply (line.text ++ eraseLine ++ Ansi.newline ++ rest) =
        (screen cols above (pad cols line.cells) below scrollback 0).lineFeed.apply rest := by
  rw [List.append_assoc, line_screen line hrow, apply_reads Ansi.reads_newline]
  rfl

theorem drawn_commit (h : Drawn cols rows done [] stale t) (line : Line cols)
    : ∃ t', (∀ rest, t.apply (commit line.text ++ rest) = t'.apply rest) ∧
        Drawn cols rows (done ++ [line.cells]) [] (stale - 1) t' := by
  rcases h with ⟨scrolled, onScreen, row, below, rfl, hrows, hlen, hblank, rfl⟩
  refine ⟨_, fun rest => line_newline line (hlen row List.mem_cons_self), ?_⟩
  rw [List.append_nil]
  cases below with
  | cons next below =>
    rw [lineFeed_screen_cons]
    refine ⟨scrolled, onScreen ++ [line.cells], next, below, by simp, ?_, ?_, drop_tail hblank, by simp⟩
    . simp only [List.length_append, List.length_cons, List.length_nil] at hrows ⊢
      omega
    . exact fun r hr => hlen r (List.mem_cons_of_mem _ hr)
  | nil =>
    cases hall : onScreen ++ [line.cells] with
    | nil => simp at hall
    | cons top others =>
      have hshown : onScreen.map (pad cols) ++ [pad cols line.cells] = pad cols top :: others.map (pad cols) := by
        have hmap := congrArg (List.map (pad cols)) hall
        simpa using hmap
      have hlength := congrArg List.length hall
      rw [lineFeed_screen_nil hshown, trimEnd_pad]
      refine ⟨scrolled ++ [top], others, Term.blank cols, [], by simp [hall], ?_, ?_, ?_, by simp⟩
      . simp only [List.length_append, List.length_cons, List.length_nil] at hrows hlength ⊢
        omega
      . simpa using blank_length cols
      . intro r hr
        exact List.mem_singleton.mp (List.mem_of_mem_drop hr)

theorem drawn_commits (h : Drawn cols rows done [] stale t) (lines : List (Line cols))
    : ∃ t', (∀ rest, t.apply ((lines.map Line.text).flatMap commit ++ rest) = t'.apply rest) ∧
        Drawn cols rows (done ++ lines.map Line.cells) [] (stale - lines.length) t' := by
  induction lines generalizing done stale t with
  | nil => exact ⟨t, fun _ => rfl, by simpa using h⟩
  | cons line lines ih =>
    rcases drawn_commit h line with ⟨mid, hmid, hdrawn⟩
    rcases ih hdrawn with ⟨t', ht', hdrawn'⟩
    refine ⟨t', ?_, ?_⟩
    . intro rest
      rw [List.map_cons, List.flatMap_cons, List.append_assoc, hmid, ht']
    . have hlen : stale - (line :: lines).length = stale - 1 - lines.length := by
        rw [List.length_cons]
        omega
      rw [hlen]
      simpa using hdrawn'

theorem drawn_print (h : Drawn cols rows done printed stale t) (line : Line cols) (hroom : printed.length + 2 ≤ rows)
    : ∃ t', (∀ rest, t.apply (line.text ++ eraseLine ++ Ansi.newline ++ rest) = t'.apply rest) ∧
        Drawn cols rows done (printed ++ [line.cells]) (stale - 1) t' := by
  rcases h with ⟨scrolled, onScreen, row, below, rfl, hrows, hlen, hblank, rfl⟩
  refine ⟨_, fun rest => line_newline line (hlen row List.mem_cons_self), ?_⟩
  cases below with
  | cons next below =>
    rw [lineFeed_screen_cons]
    refine ⟨scrolled, onScreen, next, below, rfl, ?_, ?_, drop_tail hblank, by simp⟩
    . simp only [List.length_append, List.length_cons, List.length_nil] at hrows ⊢
      omega
    . exact fun r hr => hlen r (List.mem_cons_of_mem _ hr)
  | nil =>
    cases onScreen with
    | nil =>
      simp only [List.length_nil] at hrows
      omega
    | cons top onScreen =>
      have hshown : ((top :: onScreen) ++ printed).map (pad cols) ++ [pad cols line.cells] =
          pad cols top :: (onScreen ++ (printed ++ [line.cells])).map (pad cols) := by simp
      rw [lineFeed_screen_nil hshown, trimEnd_pad]
      refine ⟨scrolled ++ [top], onScreen, Term.blank cols, [], by simp, ?_, ?_, ?_, by simp⟩
      . simp only [List.length_append, List.length_cons, List.length_nil] at hrows ⊢
        omega
      . simpa using blank_length cols
      . intro r hr
        exact List.mem_singleton.mp (List.mem_of_mem_drop hr)

theorem drawn_block (h : Drawn cols rows done printed stale t) (line : Line cols) (lines : List (Line cols))
    (hroom : printed.length + (lines.length + 1) ≤ rows)
    : ∃ scrolled onScreen above row below cx, done = scrolled ++ onScreen ∧
        (onScreen ++ (printed ++ (line :: lines).map Line.cells)).map (pad cols) = above ++ [row] ∧
        row.take cx ++ List.replicate (cols - cx) ' ' = row ∧ above.length + 1 + below.length = rows ∧
        (∀ r ∈ below.drop (stale - (lines.length + 1)), r = Term.blank cols) ∧
        ∀ rest, t.apply (block ((line :: lines).map Line.text) ++ rest) =
          (screen cols above row below (scrolled.map trimEnd) cx).apply rest := by
  induction lines generalizing line printed stale t with
  | nil =>
    rcases h with ⟨scrolled, onScreen, row, below, rfl, hrows, hlen, hblank, rfl⟩
    refine ⟨scrolled, onScreen, (onScreen ++ printed).map (pad cols), pad cols line.cells, below, line.cells.length, rfl,
      by simp, ?_, ?_, drop_tail hblank, fun rest => line_screen line (hlen row List.mem_cons_self)⟩
    . rw [pad, List.take_left' rfl]
    . simpa using hrows
  | cons next lines ih =>
    rw [List.length_cons] at hroom
    rcases drawn_print h line (by omega) with ⟨mid, hmid, hdrawn⟩
    rcases ih hdrawn next (by rw [List.length_append, List.length_singleton]; omega) with
      ⟨scrolled, onScreen, above, row, below, cx, hdone, hshown, hrow, hrows, hblank, hdraw⟩
    refine ⟨scrolled, onScreen, above, row, below, cx, hdone, by simpa using hshown, hrow, hrows, ?_, ?_⟩
    . have hstale : stale - ((next :: lines).length + 1) = stale - 1 - (lines.length + 1) := by
        rw [List.length_cons]
        omega
      rw [hstale]
      exact hblank
    . intro rest
      rw [List.map_cons, List.map_cons, block, List.append_assoc, hmid, ← List.map_cons, hdraw]

theorem end_screen {above scrollback below : List Text} {row : Text} {cx : Nat} {erases : Prop} [Decidable erases]
    : (screen cols above row below scrollback cx).apply ((if erases then eraseBelow else []) ++ ['\r'] ++ rest) =
        (screen cols above (if erases then row.take cx ++ List.replicate (cols - cx) ' ' else row)
          (if erases then List.replicate below.length (Term.blank cols) else below) scrollback 0).apply rest := by
  split
  . have herase : Reads eraseBelow [.csi false [] 'J'] := Ansi.reads_csi (by simp) (by decide) (by decide)
    rw [List.append_assoc, apply_reads herase, apply_reads Ansi.reads_cr]
    change (Term.op (Term.eraseBelow _) .cr).apply rest = _
    rw [eraseBelow_screen]
    simp [Term.op, screen]
  . rw [List.nil_append, apply_reads Ansi.reads_cr]
    rfl

end Drawn

section Pinned

variable {cols rows : Nat} {done footer : List Text} {rest : Text} {t : Term}

theorem cursorUp_apply (n : Nat) (t : Term) (rest : Text)
    : t.apply (cursorUp n ++ rest) = Term.apply { t with cy := t.cy - max n 1 } rest := by
  have hdigits : ∀ c ∈ Nat.toDigits 10 n, c.isDigit = true := fun c hc => Decimal.isDigit_of_mem_toDigits hc
  have hsplit : (Nat.toDigits 10 n).splitOn ';' = [Nat.toDigits 10 n] := by
    apply List.splitOn_eq_singleton
    intro hmem
    exact absurd (hdigits ';' hmem) (by decide)
  have hparse : Decimal.parseDigits (Nat.toDigits 10 n) = some n := by
    rw [Decimal.parseDigits_eq hdigits Nat.toDigits_ne_nil, Nat.ofDigitChars_ten_toDigits]
  have hreads : Reads (cursorUp n) [.csi false (Nat.toDigits 10 n) 'A'] :=
    Ansi.reads_csi (fun c hc => Ansi.isParam_of_isDigit (hdigits c hc)) (by decide) (by decide)
  rw [apply_reads hreads, List.foldl_cons, List.foldl_nil, Term.op]
  simp [hsplit, hparse]

theorem drawn_of_pinned (h : Pinned cols rows done footer t) (hdone : ∀ cells ∈ footer, cells.length ≤ cols)
    : ∃ t', (∀ rest, t.apply ((if 1 < footer.length then cursorUp (footer.length - 1) else []) ++
          (if 0 < footer.length then ['\r'] else []) ++ rest) = t'.apply rest) ∧
        Drawn cols rows done [] footer.length t' := by
  rcases h with ⟨scrolled, onScreen, below, rfl, hrows, hempty, rfl⟩
  refine ⟨⟨cols, rows, (onScreen ++ footer).map (pad cols) ++ List.replicate below (Term.blank cols), scrolled.map trimEnd, 0,
    onScreen.length⟩, ?_, ?_⟩
  . intro rest
    cases footer with
    | nil => rfl
    | cons first footer =>
      cases footer with
      | nil =>
        rw [if_neg (by simp), if_pos (by simp), List.nil_append, apply_reads Ansi.reads_cr]
        rfl
      | cons second footer =>
        rw [if_pos (by simp), if_pos (by simp), List.append_assoc, cursorUp_apply, apply_reads Ansi.reads_cr]
        have hcy : onScreen.length + ((first :: second :: footer).length - 1) - max ((first :: second :: footer).length - 1) 1 =
            onScreen.length := by
          simp only [List.length_cons]
          omega
        simp only [List.foldl_cons, List.foldl_nil, Term.op, hcy]
  . cases hlower : footer.map (pad cols) ++ List.replicate below (Term.blank cols) with
    | nil =>
      rw [List.append_eq_nil_iff, List.map_eq_nil_iff, List.replicate_eq_nil_iff] at hlower
      have hbelow := hempty hlower.1
      omega
    | cons row lower =>
      have hlen := congrArg List.length hlower
      simp only [List.length_append, List.length_map, List.length_replicate, List.length_cons] at hlen
      refine ⟨scrolled, onScreen, row, lower, rfl, ?_, ?_, ?_, ?_⟩
      . simp only [List.length_nil]
        omega
      . intro r hr
        rw [← hlower, List.mem_append] at hr
        rcases hr with hr | hr
        . rcases List.mem_map.mp hr with ⟨cells, hcells, rfl⟩
          exact pad_length (hdone cells hcells)
        . rw [List.eq_of_mem_replicate hr]
          exact blank_length cols
      . intro r hr
        rw [← hlower, List.drop_left' (by simp)] at hr
        exact List.eq_of_mem_replicate hr
      . simp only [screen, List.append_nil, List.length_map, List.map_append, List.append_assoc, hlower, Term.mk.injEq,
          true_and, and_true]
        omega

theorem eq_replicate_of_drop {below : List Text} {stale : Nat} (hstale : stale = 0)
    (h : ∀ r ∈ below.drop stale, r = Term.blank cols)
    : below = List.replicate below.length (Term.blank cols) := by
  rw [hstale, List.drop_zero] at h
  exact List.eq_replicate_iff.mpr ⟨rfl, h⟩

theorem pinned_frame (h : Pinned cols rows done footer t) (hfooter : ∀ cells ∈ footer, cells.length ≤ cols) (frame : Frame cols rows)
    : ∃ t', (∀ rest, t.apply ((render (frame.committed.map Line.text) (frame.footer.map Line.text) footer.length).1 ++ rest) =
          t'.apply rest) ∧
        Pinned cols rows (done ++ frame.committed.map Line.cells) (frame.footer.map Line.cells) t' := by
  rcases drawn_of_pinned h hfooter with ⟨top, htop, hdrawn⟩
  rcases drawn_commits hdrawn frame.committed with ⟨mid, hmid, hdrawn⟩
  cases hlines : frame.footer with
  | nil =>
    rcases hdrawn with ⟨scrolled, onScreen, row, below, hdone, hrows, hlen, hblank, rfl⟩
    refine ⟨_, ?_, ⟨scrolled, onScreen, below.length + 1, hdone, ?_, fun _ => Nat.succ_pos _, rfl⟩⟩
    . intro rest
      simp only [render, List.map_nil, block, List.append_nil, List.length_nil, List.length_map, Nat.add_zero]
      rw [List.append_assoc, List.append_assoc, List.append_assoc, htop, hmid, ← List.append_assoc, end_screen]
      have hrow : (if frame.committed.length < footer.length then row.take 0 ++ List.replicate (cols - 0) ' ' else row) =
          Term.blank cols := by
        split
        . rfl
        next hshort =>
          rw [Nat.sub_eq_zero_of_le (Nat.le_of_not_lt hshort)] at hblank
          exact hblank row List.mem_cons_self
      have hbelow : (if frame.committed.length < footer.length then List.replicate below.length (Term.blank cols) else below) =
          List.replicate below.length (Term.blank cols) := by
        split
        . rfl
        next hshort =>
          have hzero := Nat.sub_eq_zero_of_le (Nat.le_of_not_lt hshort)
          rw [hzero] at hblank
          exact eq_replicate_of_drop rfl fun r hr => hblank r (List.mem_cons_of_mem _ hr)
      simp only [List.length_nil] at hrows
      rw [hrow, hbelow, screen, List.length_map, List.append_nil, List.length_replicate, ← hrows]
      simp [List.replicate_succ]
    . simp only [List.length_nil, List.map_nil] at hrows ⊢
      omega
  | cons line lines =>
    have hroom : ([] : List Text).length + (lines.length + 1) ≤ rows := by
      have hfits := frame.fits
      rw [hlines, List.length_cons] at hfits
      simpa using hfits
    rcases drawn_block hdrawn line lines hroom with
      ⟨scrolled, onScreen, above, row, below, cx, hdone, hshown, hrow, hrows, hblank, hdraw⟩
    have hlen := congrArg List.length hshown
    simp only [List.nil_append, List.length_map, List.length_append, List.length_cons, List.length_nil] at hlen
    refine ⟨_, ?_, ⟨scrolled, onScreen, below.length, hdone, ?_, fun hnil => by simp at hnil, rfl⟩⟩
    . intro rest
      simp only [render, List.length_map]
      rw [List.append_assoc, List.append_assoc, List.append_assoc, List.append_assoc, htop, hmid, hdraw, ← List.append_assoc,
        end_screen]
      have hbelow : (if frame.committed.length + (line :: lines).length < footer.length then
          List.replicate below.length (Term.blank cols) else below) = List.replicate below.length (Term.blank cols) := by
        split
        . rfl
        next hshort =>
          rw [List.length_cons] at hshort
          exact eq_replicate_of_drop (by omega) hblank
      have hgrid : (onScreen ++ (line :: lines).map Line.cells).map (pad cols) = above ++ [row] := hshown
      rw [hrow, ite_self, hbelow, hgrid, screen, List.length_replicate]
      congr 1
      simp only [List.append_assoc, List.singleton_append, List.length_cons, Term.mk.injEq, true_and]
      omega
    . simp only [List.length_map, List.length_cons]
      omega

theorem pinned_new (cols : Nat) (hrows : 0 < rows) : Pinned cols rows [] [] (Term.new cols rows) :=
  ⟨[], [], rows, rfl, by simp, fun _ => hrows, by simp [Term.new]⟩

theorem apply_nil (t : Term) : t.apply [] = t := by
  rw [Term.apply, Ansi.tokens]
  rfl

theorem cells_fit {footer : List (Line cols)} : ∀ cells ∈ footer.map Line.cells, cells.length ≤ cols := by
  intro cells hcells
  rcases List.mem_map.mp hcells with ⟨line, _, rfl⟩
  exact line.fits

-- After every frame, and so after any of them, what is committed stands above the footer.
theorem pinned (cols : Nat) (hrows : 0 < rows) (frames : List (Frame cols rows))
    : Pinned cols rows (frames.flatMap fun frame => frame.committed.map Line.cells)
        (frames.getLast?.elim [] fun frame => frame.footer.map Line.cells) (frames.foldl draw (Term.new cols rows, 0)).1 := by
  have hall : Pinned cols rows (frames.flatMap fun frame => frame.committed.map Line.cells)
      (frames.getLast?.elim [] fun frame => frame.footer.map Line.cells) (frames.foldl draw (Term.new cols rows, 0)).1 ∧
      (frames.foldl draw (Term.new cols rows, 0)).2 = (frames.getLast?.elim [] fun frame => frame.footer.map Line.cells).length ∧
      ∀ cells ∈ frames.getLast?.elim [] fun frame => frame.footer.map Line.cells, cells.length ≤ cols := by
    induction frames using List.reverseRecOn with
    | nil => exact ⟨pinned_new cols hrows, rfl, by simp⟩
    | append_singleton frames frame ih =>
      rcases ih with ⟨hpinned, hprev, hfits⟩
      rcases pinned_frame hpinned hfits frame with ⟨t', ht', hnext⟩
      have hdraw := ht' []
      rw [List.append_nil, apply_nil, ← hprev] at hdraw
      simp only [List.foldl_append, List.foldl_cons, List.foldl_nil, List.getLast?_concat, Option.elim_some, List.flatMap_append,
        List.flatMap_singleton]
      refine ⟨?_, ?_, cells_fit⟩
      . rw [draw, hdraw]
        exact hnext
      . simp [draw, render]
  exact hall.1

def letter (c : Char) (h : c ≠ '\r' ∧ c ≠ '\n' ∧ c ≠ Ansi.esc) : Line 3 where
  text := [c]
  toks := [.glyph c]
  reads := Ansi.reads_glyph h
  flat := by simp [Flat]
  fits := by simp [cellsOf, Token.cell]

theorem printed_a : 'a' ≠ '\r' ∧ 'a' ≠ '\n' ∧ 'a' ≠ Ansi.esc := by decide

theorem printed_p : 'p' ≠ '\r' ∧ 'p' ≠ '\n' ∧ 'p' ≠ Ansi.esc := by decide

def oneRow : Frame 3 1 := ⟨[letter 'a' printed_a], [letter 'p' printed_p], by simp⟩

theorem pinned_oneRow : Pinned 3 1 [['a'], ['a']] [['p']] ([oneRow, oneRow].foldl draw (Term.new 3 1, 0)).1 :=
  pinned 3 (by decide) [oneRow, oneRow]

section Surface

variable {s : Surface}

theorem present_pinned (h : Pinned cols s.rows done footer t) (hfooter : ∀ cells ∈ footer, cells.length ≤ cols)
    (hprev : s.prevFooterRows = footer.length) (committed footerLines : List (Line cols))
    : Pinned cols s.rows (done ++ committed.map Line.cells) ((footerLines.drop (footerLines.length - s.rows)).map Line.cells)
        (t.apply (s.present (committed.map Line.text) (footerLines.map Line.text)).2) := by
  have hbegin : Reads syncBegin [.csi true ['2', '0', '2', '6'] 'h'] :=
    @Ansi.reads_private ['2', '0', '2', '6'] 'h' (by simp [Ansi.isParam]) (by decide)
  have hend : Reads syncEnd [.csi true ['2', '0', '2', '6'] 'l'] :=
    @Ansi.reads_private ['2', '0', '2', '6'] 'l' (by simp [Ansi.isParam]) (by decide)
  have hfits : (footerLines.drop (footerLines.length - s.rows)).length ≤ s.rows := by
    rw [List.length_drop]
    omega
  rcases pinned_frame h hfooter ⟨committed, _, hfits⟩ with ⟨t', ht', hnext⟩
  have hshed : Surface.shed s.rows (footerLines.map Line.text) =
      (footerLines.drop (footerLines.length - s.rows)).map Line.text := by
    rw [Surface.shed, List.length_map, List.map_drop]
  have hwritten : t.apply (s.present (committed.map Line.text) (footerLines.map Line.text)).2 = t' := by
    rw [Surface.present, hshed, hprev, List.append_assoc, apply_reads hbegin]
    change t.apply _ = t'
    rw [ht', ← List.append_nil syncEnd, apply_reads hend, apply_nil]
    rfl
  rw [hwritten]
  exact hnext

theorem finish_pinned (h : Pinned cols s.rows done footer t) (hfooter : ∀ cells ∈ footer, cells.length ≤ cols)
    (hprev : s.prevFooterRows = footer.length) (finalLive : List (Line cols))
    : Pinned cols s.rows (done ++ finalLive.map Line.cells) [] (t.apply (s.finish (finalLive.map Line.text)).2) := by
  have hshow : Reads cursorShow [.csi true ['2', '5'] 'h'] :=
    @Ansi.reads_private ['2', '5'] 'h' (by simp [Ansi.isParam]) (by decide)
  rcases pinned_frame h hfooter ⟨finalLive, [], Nat.zero_le _⟩ with ⟨t', ht', hnext⟩
  have hwritten : t.apply (s.finish (finalLive.map Line.text)).2 = t' := by
    rw [List.map_nil] at ht'
    rw [Surface.finish, hprev, ht', ← List.append_nil cursorShow, apply_reads hshow, apply_nil]
    rfl
  rw [hwritten]
  exact hnext

end Surface

end Pinned

end Footer
end Console
end Ui
