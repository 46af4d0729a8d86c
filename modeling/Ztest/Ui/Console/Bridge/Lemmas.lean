import Ztest.Lib.Greedy
import Ztest.Ui.Console.Bridge.Impl
import Ztest.Ui.Console.Footer.Lemmas

namespace Ui
namespace Console
namespace Bridge

open Ansi (Color Pen Paints sgr)

section Sgr

def colorCodes (c : Color) (base : UInt8) : List Nat :=
  match c with
  | .indexed i =>
    if i ≤ 7 then [(base + i).toNat]
    else if i ≤ 15 then [(base + 60 + (i - 8)).toNat]
    else [(base + 8).toNat, 5, i.toNat]
  | .rgb r g b => [(base + 8).toNat, 2, r.toNat, g.toNat, b.toNat]

def flagCodes (pen : Pen) : List (List Nat) :=
  (if pen.isBold then [[1]] else [])
  ++ (if pen.isFaint then [[2]] else [])
  ++ (if pen.isItalic then [[3]] else [])
  ++ (if pen.isUnderline then [[4]] else [])
  ++ (if pen.isBlink then [[5]] else [])
  ++ (if pen.isInverse then [[7]] else [])
  ++ (if pen.isStrikethrough then [[9]] else [])

def sgrCodes (pen : Pen) : List (List Nat) :=
  flagCodes pen
  ++ (pen.foreground.map (colorCodes · 30)).toList
  ++ (pen.background.map (colorCodes · 40)).toList

theorem colorParams_eq (c : Color) (base : UInt8) : colorParams c base = Ansi.params (colorCodes c base) := by
  have htwo : Nat.toDigits 10 2 = ['2'] := by decide
  have hfive : Nat.toDigits 10 5 = ['5'] := by decide
  cases c with
  | indexed i =>
    rw [colorParams, colorCodes]
    split
    . simp [Ansi.params, Lines.join, decimal]
    split
    . simp [Ansi.params, Lines.join, decimal]
    . simp [Ansi.params, Lines.join, decimal, hfive]
  | rgb r g b => simp [colorParams, colorCodes, Ansi.params, Lines.join, decimal, htwo]

theorem colorCodes_ne_nil (c : Color) (base : UInt8) : colorCodes c base ≠ [] := by
  cases c with
  | indexed i =>
    rw [colorCodes]
    split
    . exact List.cons_ne_nil _ _
    split <;> exact List.cons_ne_nil _ _
  | rgb r g b => exact List.cons_ne_nil _ _

theorem sgrParams_groups (pen : Pen) : sgrParams pen = [';'].intercalate ((sgrCodes pen).map Ansi.params) := by
  have hflag : ∀ (b : Bool) (n : Nat) (c : Char), Nat.toDigits 10 n = [c] →
      (if b then [[c]] else []) = (if b then [[n]] else []).map Ansi.params := by
    intro b n c hdigit
    cases b
    . rfl
    . simp [Ansi.params, Lines.join, hdigit]
  have hcolor : ∀ (color : Option Color) (base : UInt8),
      (color.map (colorParams · base)).toList = ((color.map (colorCodes · base)).toList).map Ansi.params := by
    intro color base
    cases color with
    | none => rfl
    | some c => simp [colorParams_eq]
  rw [sgrParams, sgrCodes, flagCodes]
  simp only [List.map_append]
  rw [← hflag _ 1 '1' (by decide), ← hflag _ 2 '2' (by decide), ← hflag _ 3 '3' (by decide), ← hflag _ 4 '4' (by decide),
    ← hflag _ 5 '5' (by decide), ← hflag _ 7 '7' (by decide), ← hflag _ 9 '9' (by decide), ← hcolor, ← hcolor]

theorem sgrCodes_ne_nil (pen : Pen) : ∀ codes ∈ sgrCodes pen, codes ≠ [] := by
  have hflag : ∀ (b : Bool) (n : Nat), ∀ codes ∈ (if b then [[n]] else []), codes ≠ [] := by
    intro b n codes h
    cases b <;> simp_all
  have hcolor : ∀ (color : Option Color) (base : UInt8), ∀ codes ∈ (color.map (colorCodes · base)).toList, codes ≠ [] := by
    intro color base codes h
    rcases Option.map_eq_some_iff.mp (Option.mem_toList.mp h) with ⟨c, _, rfl⟩
    exact colorCodes_ne_nil c base
  simp only [sgrCodes, flagCodes, List.forall_mem_append]
  exact ⟨⟨⟨⟨⟨⟨⟨⟨hflag _ _, hflag _ _⟩, hflag _ _⟩, hflag _ _⟩, hflag _ _⟩, hflag _ _⟩, hflag _ _⟩, hcolor _ _⟩, hcolor _ _⟩

theorem sgrParams_eq (pen : Pen) : sgrParams pen = Ansi.params (sgrCodes pen).flatten := by
  have hne : ∀ lines ∈ (sgrCodes pen).map (·.map (Nat.toDigits 10)), lines ≠ [] := by
    intro lines hlines
    rcases List.mem_map.mp hlines with ⟨codes, hcodes, rfl⟩
    simpa using sgrCodes_ne_nil pen codes hcodes
  have hjoin := @Lines.join_flatten _ ';' _ hne
  rw [sgrParams_groups, Ansi.params, List.map_flatten, ← hjoin, List.map_map]
  rfl

theorem selected_flag {pen pen' : Pen} {b : Bool} {n : Nat} (hn : n ≠ 38 ∧ n ≠ 48) (hset : b = true → pen.attributed n = pen')
    (hunset : b = false → pen = pen') : pen.selected (if b then [[n]] else []).flatten = (pen', []) := by
  cases b with
  | false =>
    rw [hunset rfl]
    rfl
  | true =>
    rw [← hset rfl]
    exact Ansi.selected_singleton hn

theorem selected_flags (pen : Pen)
    : ({} : Pen).selected (flagCodes pen).flatten = ({ pen with foreground := none, background := none }, []) := by
  rcases pen with ⟨bold, faint, italic, underline, blink, inverse, strikethrough, fg, bg⟩
  -- The pen behind each of the flags is the one before it with that flag set.
  have hbold := @selected_flag ⟨false, false, false, false, false, false, false, none, none⟩
    ⟨bold, false, false, false, false, false, false, none, none⟩ bold 1 (by decide) (by rintro rfl; rfl) (by rintro rfl; rfl)
  have hfaint := @selected_flag ⟨bold, false, false, false, false, false, false, none, none⟩
    ⟨bold, faint, false, false, false, false, false, none, none⟩ faint 2 (by decide) (by rintro rfl; rfl) (by rintro rfl; rfl)
  have hitalic := @selected_flag ⟨bold, faint, false, false, false, false, false, none, none⟩
    ⟨bold, faint, italic, false, false, false, false, none, none⟩ italic 3 (by decide) (by rintro rfl; rfl) (by rintro rfl; rfl)
  have hunderline := @selected_flag ⟨bold, faint, italic, false, false, false, false, none, none⟩
    ⟨bold, faint, italic, underline, false, false, false, none, none⟩ underline 4 (by decide)
    (by rintro rfl; rfl) (by rintro rfl; rfl)
  have hblink := @selected_flag ⟨bold, faint, italic, underline, false, false, false, none, none⟩
    ⟨bold, faint, italic, underline, blink, false, false, none, none⟩ blink 5 (by decide) (by rintro rfl; rfl) (by rintro rfl; rfl)
  have hinverse := @selected_flag ⟨bold, faint, italic, underline, blink, false, false, none, none⟩
    ⟨bold, faint, italic, underline, blink, inverse, false, none, none⟩ inverse 7 (by decide)
    (by rintro rfl; rfl) (by rintro rfl; rfl)
  have hstrikethrough := @selected_flag ⟨bold, faint, italic, underline, blink, inverse, false, none, none⟩
    ⟨bold, faint, italic, underline, blink, inverse, strikethrough, none, none⟩ strikethrough 9 (by decide)
    (by rintro rfl; rfl) (by rintro rfl; rfl)
  simp only [flagCodes, List.flatten_append, List.append_assoc]
  rw [Ansi.selected_append hbold, Ansi.selected_append hfaint, Ansi.selected_append hitalic, Ansi.selected_append hunderline,
    Ansi.selected_append hblink, Ansi.selected_append hinverse, hstrikethrough]

theorem selected_color (pen : Pen) (c : Color)
    : pen.selected (colorCodes c 30) = ({ pen with foreground := some c }, []) ∧
        pen.selected (colorCodes c 40) = ({ pen with background := some c }, []) := by
  cases c with
  | rgb r g b => simp [colorCodes, Pen.selected, Pen.select, Pen.colored]
  | indexed i =>
    have hself : i.toNat.toUInt8 = i := UInt8.ofNat_toNat
    rw [colorCodes, colorCodes]
    split
    next hlow =>
      have hlow : i.toNat ≤ 7 := UInt8.le_iff_toNat_le.mp hlow
      have hcode : ∀ base : UInt8, base.toNat ≤ 40 → (base + i).toNat = base.toNat + i.toNat := by
        intro base hbase
        rw [UInt8.toNat_add, Nat.mod_eq_of_lt (by omega)]
      rw [hcode 30 (by decide), hcode 40 (by decide)]
      change pen.selected [30 + i.toNat] = _ ∧ pen.selected [40 + i.toNat] = _
      rw [Ansi.selected_singleton (by omega), Ansi.selected_singleton (by omega), Ansi.attributed_foreground hlow,
        Ansi.attributed_background hlow, hself]
      exact ⟨rfl, rfl⟩
    split
    next hlow hhigh =>
      have hlow : 8 ≤ i.toNat := Nat.lt_of_not_le fun hle => hlow (UInt8.le_iff_toNat_le.mpr hle)
      have hhigh : i.toNat ≤ 15 := UInt8.le_iff_toNat_le.mp hhigh
      have hcode : ∀ base : UInt8, base.toNat ≤ 100 → (base + (i - 8)).toNat = base.toNat + (i.toNat - 8) := by
        intro base hbase
        have hsub : (i - 8).toNat = i.toNat - 8 := UInt8.toNat_sub_of_le _ _ (UInt8.le_iff_toNat_le.mpr hlow)
        rw [UInt8.toNat_add, hsub, Nat.mod_eq_of_lt (by omega)]
      have hfg : (30 + 60 + (i - 8)).toNat = 82 + i.toNat := by
        rw [hcode (30 + 60) (by decide)]
        change 90 + (i.toNat - 8) = _
        omega
      have hbg : (40 + 60 + (i - 8)).toNat = 92 + i.toNat := by
        rw [hcode (40 + 60) (by decide)]
        change 100 + (i.toNat - 8) = _
        omega
      rw [hfg, hbg, Ansi.selected_singleton (by omega), Ansi.selected_singleton (by omega),
        Ansi.attributed_bright_foreground hlow hhigh, Ansi.attributed_bright_background hlow hhigh, hself]
      exact ⟨rfl, rfl⟩
    . simp [Pen.selected, Pen.select, Pen.colored]

def restore (params : Text) : Pen := if params = [] then {} else ({} : Pen).sgr params

theorem selected_codes (pen : Pen) : ({} : Pen).selected (sgrCodes pen).flatten = (pen, []) := by
  rw [sgrCodes, List.flatten_append, List.flatten_append, List.append_assoc, Ansi.selected_append (selected_flags pen)]
  rcases pen with ⟨bold, faint, italic, underline, blink, inverse, strikethrough, fg, bg⟩
  cases fg with
  | none =>
    cases bg with
    | none => rfl
    | some c =>
      have hcolor := (selected_color ⟨bold, faint, italic, underline, blink, inverse, strikethrough, none, none⟩ c).2
      simpa using hcolor
  | some c =>
    have hcolor := (selected_color ⟨bold, faint, italic, underline, blink, inverse, strikethrough, none, none⟩ c).1
    cases bg with
    | none => simpa using hcolor
    | some c' =>
      have hcolor' := (selected_color ⟨bold, faint, italic, underline, blink, inverse, strikethrough, some c, none⟩ c').2
      simp only [Option.map_some, Option.toList_some, List.flatten_singleton]
      rw [Ansi.selected_append hcolor, hcolor']

theorem sgrParams_eq_nil_iff {pen : Pen} : sgrParams pen = [] ↔ (sgrCodes pen).flatten = [] := by
  rw [sgrParams_eq]
  cases (sgrCodes pen).flatten with
  | nil => simp [Ansi.params, Lines.join]
  | cons n codes => simp [Ansi.params_ne_nil (List.cons_ne_nil n codes)]

theorem restore_sgrParams (pen : Pen) : restore (sgrParams pen) = pen := by
  have hselected := selected_codes pen
  unfold restore
  split
  next hnil =>
    rw [sgrParams_eq_nil_iff.mp hnil] at hselected
    exact congrArg Prod.fst hselected
  next hne =>
    rw [sgrParams_eq, Ansi.sgr_params _ (fun hnil => hne (sgrParams_eq_nil_iff.mpr hnil)), hselected]

theorem sgrParams_inj {pen pen' : Pen} (h : sgrParams pen = sgrParams pen') : pen = pen' := by
  rw [← restore_sgrParams pen, h, restore_sgrParams]

theorem paints_reset (pen : Pen) : Paints pen reset [] {} := @Ansi.paints_sgr [0] pen (List.cons_ne_nil 0 [])

theorem paints_restyle (pen : Pen) {pen' : Pen} (h : sgrParams pen' ≠ [])
    : Paints pen (sgr ('0' :: ';' :: sgrParams pen')) [] pen' := by
  have hne : (sgrCodes pen').flatten ≠ [] := fun hnil => h (sgrParams_eq_nil_iff.mpr hnil)
  have hparams : '0' :: ';' :: sgrParams pen' = Ansi.params ([0] ++ (sgrCodes pen').flatten) := by
    rw [Ansi.params_append (List.cons_ne_nil 0 []) hne, ← sgrParams_eq]
    rfl
  have hzero : pen.selected [0] = ({}, []) := rfl
  have hselected : pen.selected ([0] ++ (sgrCodes pen').flatten) = (pen', []) := by
    rw [Ansi.selected_append hzero, selected_codes]
  have hpaints := @Ansi.paints_sgr ([0] ++ (sgrCodes pen').flatten) pen (List.cons_ne_nil _ _)
  rwa [hselected, ← hparams] at hpaints

end Sgr

section Rows

variable {cells : List Cell} {width : Nat}

def Cell.glyph (cell : Cell) : Char × Pen := (cell.char, cell.pen)

-- What a line shows: up to the last cell that does not render blank, without the tails of wide characters.
def shown (cells : List Cell) : List Cell := (cells.rdropWhile rendersBlank).filter fun cell => cell.width ≠ 0

def widthOf (group : List Cell) : Nat := Greedy.total Cell.width group

structure Shows (row : Text × Nat) (group : List Cell) : Prop where
  used : row.2 = widthOf group
  paints : Paints {} row.1 (group.map Cell.glyph) {}

-- The loop is the filling of rows with cells.
structure Follows (s : Rows) (p : List (List Cell) × List Cell) : Prop where
  rows : List.Forall₂ Shows s.rows p.1
  used : s.used = widthOf p.2
  out : ∃ pen, Paints {} s.out (p.2.map Cell.glyph) pen ∧ s.cur = sgrParams pen

theorem follows_init : Follows Rows.init ([], []) where
  rows := .nil
  used := rfl
  out := ⟨{}, Ansi.paints_nil {}, rfl⟩

variable {s : Rows} {p : List (List Cell) × List Cell}

theorem Follows.close (h : Follows s p) : Follows s.close (Greedy.groups p, []) where
  rows := by
    rcases h.out with ⟨pen, hout, hcur⟩
    refine List.rel_append h.rows (.cons ⟨h.used, ?_⟩ .nil)
    dsimp only
    split
    next hnil =>
      have hpen : pen = {} := sgrParams_inj (hcur.symm.trans hnil)
      rw [hpen] at hout
      rwa [List.append_nil]
    next =>
      have hreset := hout.append (paints_reset pen)
      rwa [List.append_nil] at hreset
  used := rfl
  out := ⟨{}, Ansi.paints_nil {}, rfl⟩

theorem Follows.restyle (h : Follows s p) (pen : Pen)
    : (s.restyle pen).rows = s.rows ∧ (s.restyle pen).used = s.used ∧
        Paints {} (s.restyle pen).out (p.2.map Cell.glyph) pen ∧ (s.restyle pen).cur = sgrParams pen := by
  rcases h.out with ⟨pen', hout, hcur⟩
  unfold Rows.restyle
  dsimp only
  split
  next heq =>
    have hpen : pen = pen' := sgrParams_inj (heq.trans hcur)
    exact ⟨rfl, rfl, hpen ▸ hout, heq.symm⟩
  next hne =>
    refine ⟨rfl, rfl, ?_, rfl⟩
    dsimp only
    split
    next hnil =>
      have hpen : pen = {} := sgrParams_inj hnil
      have hreset := hout.append (paints_reset pen')
      rw [hpen]
      rwa [List.append_nil] at hreset
    next hstyled =>
      have hrestyle := hout.append (paints_restyle pen' hstyled)
      rwa [List.append_nil] at hrestyle

theorem Follows.append (h : Follows s p) (cell : Cell)
    : Follows ⟨(s.restyle cell.pen).rows, (s.restyle cell.pen).out ++ [cell.char], (s.restyle cell.pen).cur,
        (s.restyle cell.pen).used + cell.width⟩ (p.1, p.2 ++ [cell]) := by
  rcases h.restyle cell.pen with ⟨hrows, hused, hout, hcur⟩
  refine ⟨hrows ▸ h.rows, ?_, cell.pen, ?_, hcur⟩
  . change (s.restyle cell.pen).used + cell.width = Greedy.total Cell.width (p.2 ++ [cell])
    rw [Greedy.total_append, Greedy.total_singleton, hused, h.used]
    rfl
  . rw [List.map_append]
    exact hout.append (Ansi.paints_glyph cell.pen cell.printed)

theorem Follows.push (h : Follows s p) {cell : Cell} (hwidth : cell.width ≠ 0)
    : Follows (s.push width cell) (Greedy.put Cell.width width p cell) := by
  rw [Rows.push, if_neg hwidth, Greedy.put]
  dsimp only
  by_cases hfits : width < s.used + cell.width
  . rw [if_pos hfits, if_pos (by rwa [h.used] at hfits)]
    exact h.close.append cell
  . rw [if_neg hfits, if_neg (by rwa [h.used] at hfits)]
    exact h.append cell

theorem follows_run (cells : List Cell) (h : Follows s p)
    : Follows (cells.foldl (Rows.push width) s)
        ((cells.filter fun cell => cell.width ≠ 0).foldl (Greedy.put Cell.width width) p) := by
  induction cells generalizing s p with
  | nil => exact h
  | cons cell cells ih =>
    by_cases hwidth : cell.width = 0
    . have hskip : s.push width cell = s := if_pos hwidth
      rw [List.foldl_cons, hskip, List.filter_cons_of_neg (by simp [hwidth])]
      exact ih h
    . rw [List.foldl_cons, List.filter_cons_of_pos (by simp [hwidth]), List.foldl_cons]
      exact ih (h.push hwidth)

theorem rows_shows (cells : List Cell) (width : Nat)
    : List.Forall₂ Shows (avtLineAnsiRows cells width) (Greedy.fill Cell.width (max width 1) (shown cells)) :=
  (follows_run _ follows_init).close.rows

/--
The rows show the groups, the groups are the cells that the line shows, and a row ends where the next cell does not fit.
-/
structure Wraps (width : Nat) (cells : List Cell) (rows : List (Text × Nat)) (groups : List (List Cell)) : Prop where
  used : List.Forall₂ (fun row group => row.2 = widthOf group) rows groups
  fits : ∀ row ∈ rows, row.2 ≤ width
  kept : groups.flatten = shown cells
  full : groups.IsChain fun group next => ∃ cell ∈ next.head?, width < widthOf group + cell.width
  painted : List.Forall₂ (fun row group => Ansi.painted row.1 = (group.map Cell.glyph, {})) rows groups

theorem fill_fits (hwidth : 2 ≤ width) : ∀ group ∈ Greedy.fill Cell.width width (shown cells), widthOf group ≤ width := by
  apply Greedy.fill_fits
  intro cell _
  exact Nat.le_trans cell.narrow hwidth

theorem rows_shows' (cells : List Cell) (hwidth : 2 ≤ width)
    : List.Forall₂ Shows (avtLineAnsiRows cells width) (Greedy.fill Cell.width width (shown cells)) := by
  have hmax : max width 1 = width := by omega
  have hshows := rows_shows cells width
  rwa [hmax] at hshows

theorem wraps (cells : List Cell) (hwidth : 2 ≤ width)
    : Wraps width cells (avtLineAnsiRows cells width) (Greedy.fill Cell.width width (shown cells)) where
  used := (rows_shows' cells hwidth).imp fun _ _ h => h.used
  fits := by
    intro row hrow
    rcases List.forall₂_iff_get.mp (rows_shows' cells hwidth) with ⟨hlen, hget⟩
    rcases List.get_of_mem hrow with ⟨i, rfl⟩
    have hi : i.1 < (Greedy.fill Cell.width width (shown cells)).length := hlen ▸ i.2
    rw [(hget i.1 i.2 hi).used]
    exact fill_fits hwidth _ (List.get_mem _ _)
  kept := Greedy.fill_flatten _
  full := Greedy.fill_full _
  painted := (rows_shows' cells hwidth).imp fun _ _ h => h.paints.painted_eq

def clipped (width : Nat) (cells : List Cell) : List Cell :=
  (Greedy.fill Cell.width width (shown cells)).head (Greedy.fill_ne_nil _)

theorem clipped_shows (cells : List Cell) (hwidth : 2 ≤ width)
    : Shows (avtLineAnsiClipped cells width) (clipped width cells) := by
  have hhead : ∀ {rows : List (Text × Nat)} {groups : List (List Cell)}, List.Forall₂ Shows rows groups →
      ∀ (hrows : rows ≠ []) (hgroups : groups ≠ []), Shows (rows.head hrows) (groups.head hgroups) := by
    intro rows groups h hrows hgroups
    cases h with
    | nil => exact absurd rfl hrows
    | cons h _ => exact h
  exact hhead (rows_shows' cells hwidth) _ _

theorem clipped_fits (cells : List Cell) (hwidth : 2 ≤ width) : widthOf (clipped width cells) ≤ width :=
  fill_fits hwidth _ (List.head_mem _)

theorem clipped_front (width : Nat) (cells : List Cell) : clipped width cells <+: shown cells := by
  have hhead : ∀ {groups : List (List Cell)} (h : groups ≠ []), groups.head h <+: groups.flatten := by
    intro groups h
    cases groups with
    | nil => exact absurd rfl h
    | cons group groups => exact List.prefix_append group groups.flatten
  have hprefix := hhead (@Greedy.fill_ne_nil _ Cell.width width (shown cells))
  rwa [Greedy.fill_flatten] at hprefix

end Rows

section Panel

variable {vt : Vt}

-- What line `i` of a column shows.
def seat (vt : Vt) (column : Text × UInt16) (i : Nat) : List Cell :=
  (((replay vt column.1)[i]?).map (clipped column.2.toNat)).getD []

def blank : Cell := ⟨' ', 1, {}, by decide, by decide⟩

-- The last one is not padded.
def seats : List (List Cell × UInt16) → List (List Cell)
  | [] => []
  | [(group, _)] => [group]
  | (group, w) :: next :: rest => (group ++ List.replicate (w.toNat - widthOf group) blank) :: seats (next :: rest)

theorem paints_blanks (n : Nat) : Paints {} (List.replicate n ' ') ((List.replicate n blank).map Cell.glyph) {} := by
  induction n with
  | zero => exact Ansi.paints_nil {}
  | succ n ih => exact (Ansi.paints_glyph {} blank.printed).append ih

theorem joined_paints {rows : List ((Text × Nat) × UInt16)} {groups : List (List Cell × UInt16)}
    (h : List.Forall₂ (fun row group => Shows row.1 group.1 ∧ row.2 = group.2) rows groups)
    : Paints {} (joined rows) ((seats groups).flatten.map Cell.glyph) {} := by
  induction h with
  | nil => exact Ansi.paints_nil {}
  | @cons row group rows groups hhead htail ih =>
    rcases row with ⟨row, w⟩
    rcases group with ⟨group, _⟩
    rcases hhead with ⟨hshows, rfl⟩
    cases htail with
    | nil => simpa [joined, seats] using hshows.paints
    | cons hnext hrest =>
      rw [joined, seats, List.flatten_cons, List.map_append, List.map_append, hshows.used]
      exact (hshows.paints.append (paints_blanks _)).append ih

theorem widthOf_append (group group' : List Cell) : widthOf (group ++ group') = widthOf group + widthOf group' :=
  Greedy.total_append group group'

theorem widthOf_blanks (n : Nat) : widthOf (List.replicate n blank) = n := by
  rw [widthOf, Greedy.total, List.map_replicate, List.sum_replicate_nat]
  exact Nat.mul_one n

theorem seats_width {groups : List (List Cell × UInt16)} (h : ∀ group ∈ groups, widthOf group.1 ≤ group.2.toNat)
    : widthOf (seats groups).flatten ≤ (groups.map fun group => group.2.toNat).sum ∧
        ∀ j < groups.length, widthOf ((seats groups).take j).flatten = ((groups.take j).map fun group => group.2.toNat).sum := by
  induction groups with
  | nil => simp [seats, widthOf, Greedy.total]
  | cons head groups ih =>
    rcases head with ⟨group, w⟩
    have hgroup := h (group, w) List.mem_cons_self
    have ih := ih fun other hother => h other (List.mem_cons_of_mem _ hother)
    cases groups with
    | nil =>
      refine ⟨by simpa [seats] using hgroup, ?_⟩
      intro j hj
      have hzero : j = 0 := by simpa using hj
      subst hzero
      rfl
    | cons next rest =>
      have hpadded : widthOf (group ++ List.replicate (w.toNat - widthOf group) blank) = w.toNat := by
        rw [widthOf_append, widthOf_blanks]
        exact Nat.add_sub_of_le hgroup
      constructor
      . rw [seats, List.flatten_cons, widthOf_append, hpadded, List.map_cons, List.sum_cons]
        exact Nat.add_le_add_left ih.1 w.toNat
      . intro j hj
        cases j with
        | zero => rfl
        | succ j =>
          rw [seats, List.take_succ_cons, List.flatten_cons, widthOf_append, hpadded, List.take_succ_cons, List.map_cons,
            List.sum_cons, ih.2 j (Nat.lt_of_succ_lt_succ hj)]

theorem seats_shape (groups : List (List Cell × UInt16))
    : List.Forall₂ (fun part group => ∃ n, part = group.1 ++ List.replicate n blank) (seats groups) groups := by
  induction groups with
  | nil => exact .nil
  | cons head groups ih =>
    rcases head with ⟨group, w⟩
    cases groups with
    | nil => exact .cons ⟨0, (List.append_nil group).symm⟩ .nil
    | cons next rest => exact .cons ⟨_, rfl⟩ ih

/--
What line `i` of a panel shows: the cells of each column, and blanks up to the next one.
-/
structure Seated (vt : Vt) (columns : List (Text × UInt16)) (i : Nat) (line : Text) (parts : List (List Cell)) : Prop where
  painted : Ansi.painted line = (parts.flatten.map Cell.glyph, {})
  shows : List.Forall₂ (fun part column => ∃ n, part = seat vt column i ++ List.replicate n blank) parts columns
  offset : ∀ j < columns.length, widthOf (parts.take j).flatten = ((columns.take j).map fun column => column.2.toNat).sum

theorem seat_fits {column : Text × UInt16} (h : 2 ≤ column.2.toNat) (i : Nat)
    : widthOf (seat vt column i) ≤ column.2.toNat := by
  rw [seat]
  cases (replay vt column.1)[i]? with
  | none => exact Nat.zero_le _
  | some cells => exact clipped_fits cells h

theorem seat_shows {column : Text × UInt16} (h : 2 ≤ column.2.toNat) (i : Nat)
    : Shows (((ansiRows vt column.1 column.2.toNat)[i]?).getD ([], 0)) (seat vt column i) := by
  rw [ansiRows, seat, List.getElem?_map]
  cases (replay vt column.1)[i]? with
  | none => exact ⟨rfl, Ansi.paints_nil {}⟩
  | some cells => exact clipped_shows cells h

theorem sideBySide_length {columns : List (Text × UInt16)} {column : Text × UInt16} (h : column ∈ columns)
    : (replay vt column.1).length ≤ (sideBySide vt columns).length := by
  rw [sideBySide, List.length_map, List.length_range, List.map_map]
  apply List.le_max?_getD_of_mem
  refine List.mem_map.mpr ⟨column, h, ?_⟩
  rw [Function.comp_apply, ansiRows, List.length_map]

theorem mem_sideBySide {columns : List (Text × UInt16)} {i : Nat} {line : Text} (h : (sideBySide vt columns)[i]? = some line)
    : line = joined (columns.map fun column => (((ansiRows vt column.1 column.2.toNat)[i]?).getD ([], 0), column.2)) := by
  rw [sideBySide, List.getElem?_map, Option.map_eq_some_iff] at h
  rcases h with ⟨k, hk, rfl⟩
  rcases List.getElem?_eq_some_iff.mp hk with ⟨_, rfl⟩
  rw [List.getElem_range, List.map_map]
  rfl

-- The cells of line `i`, column by column.
def partsOf (vt : Vt) (columns : List (Text × UInt16)) (i : Nat) : List (List Cell) :=
  seats (columns.map fun column => (seat vt column i, column.2))

theorem sideBySide_paints {columns : List (Text × UInt16)} (h : ∀ column ∈ columns, 2 ≤ column.2.toNat) {i : Nat} {line : Text}
    (hline : (sideBySide vt columns)[i]? = some line)
    : Paints {} line ((partsOf vt columns i).flatten.map Cell.glyph) {} := by
  rw [mem_sideBySide hline]
  apply joined_paints
  rw [List.forall₂_map_left_iff, List.forall₂_map_right_iff, List.forall₂_same]
  exact fun column hcolumn => ⟨seat_shows (h column hcolumn) i, rfl⟩

theorem parts_width {columns : List (Text × UInt16)} (h : ∀ column ∈ columns, 2 ≤ column.2.toNat) (i : Nat)
    : widthOf (partsOf vt columns i).flatten ≤ (columns.map fun column => column.2.toNat).sum ∧
        ∀ j < columns.length,
          widthOf ((partsOf vt columns i).take j).flatten = ((columns.take j).map fun column => column.2.toNat).sum := by
  have hgroups : ∀ group ∈ columns.map fun column => (seat vt column i, column.2), widthOf group.1 ≤ group.2.toNat := by
    intro group hgroup
    rcases List.mem_map.mp hgroup with ⟨column, hcolumn, rfl⟩
    exact seat_fits (h column hcolumn) i
  have hwidth := seats_width hgroups
  rw [List.map_map, List.length_map] at hwidth
  refine ⟨hwidth.1, ?_⟩
  intro j hj
  have hoffset := hwidth.2 j hj
  rwa [← List.map_take, List.map_map] at hoffset

theorem sideBySide_seated {columns : List (Text × UInt16)} (h : ∀ column ∈ columns, 2 ≤ column.2.toNat) {i : Nat} {line : Text}
    (hline : (sideBySide vt columns)[i]? = some line)
    : Seated vt columns i line (partsOf vt columns i) where
  painted := (sideBySide_paints h hline).painted_eq
  shows := by
    have hshape := seats_shape (columns.map fun column => (seat vt column i, column.2))
    rwa [List.forall₂_map_right_iff] at hshape
  offset := (parts_width h i).2

-- The columns of a panel and their widths.
def layout (left : Text) (mid : Option Text) (right : Text) (cols : UInt16) : List (Text × UInt16) :=
  match (mid.map trimEnd).filter (· ≠ []) with
  | some mid =>
    if threeColMin ≤ cols then
      [(left, leftColTarget), (mid, midColWidth), (trimEnd right, cols - leftColTarget - midColWidth)]
    else if twoColMin ≤ cols then
      let leftW := min leftColTarget (cols - rightColMin)
      [(left, leftW), (mid, cols - leftW)]
    else [(left, cols)]
  | none =>
    if twoColMin ≤ cols ∧ trimEnd right ≠ [] then
      let leftW := min leftColTarget (cols - rightColMin)
      [(left, leftW), (trimEnd right, cols - leftW)]
    else [(left, cols)]

section Widths

variable {a b width cols : UInt16}

theorem checkedSub_eq (h : b.toNat ≤ a.toNat) : checkedSub a b = some (a - b) := if_pos (UInt16.le_iff_toNat_le.mpr h)

theorem toNat_sub (h : b.toNat ≤ a.toNat) : (a - b).toNat = a.toNat - b.toNat :=
  UInt16.toNat_sub_of_le _ _ (UInt16.le_iff_toNat_le.mpr h)

theorem toNat_min (a b : UInt16) : (min a b).toNat = min a.toNat b.toNat := by
  have hmin : min a b = if a ≤ b then a else b := rfl
  rw [hmin]
  split
  next hle => rw [Nat.min_eq_left (UInt16.le_iff_toNat_le.mp hle)]
  next hlt => rw [Nat.min_eq_right (Nat.le_of_not_le fun hle => hlt (UInt16.le_iff_toNat_le.mpr hle))]

theorem left_width (h : twoColMin ≤ width)
    : 60 ≤ (min leftColTarget (width - rightColMin)).toNat ∧
        (min leftColTarget (width - rightColMin)).toNat + 30 ≤ width.toNat := by
  have hmin : 90 ≤ width.toNat := UInt16.le_iff_toNat_le.mp h
  have hmost : (width - rightColMin).toNat = width.toNat - 30 := toNat_sub (Nat.le_trans (by decide) hmin)
  have htarget : leftColTarget.toNat = 80 := rfl
  rw [toNat_min, hmost, htarget]
  omega

theorem twoColSplit_eq (h : twoColMin ≤ width)
    : twoColSplit width =
        some (min leftColTarget (width - rightColMin), width - min leftColTarget (width - rightColMin)) := by
  have hmin : 90 ≤ width.toNat := UInt16.le_iff_toNat_le.mp h
  have hmost : checkedSub width rightColMin = some (width - rightColMin) := checkedSub_eq (Nat.le_trans (by decide) hmin)
  have hleft := left_width h
  have hright := @checkedSub_eq width (min leftColTarget (width - rightColMin)) (by omega)
  rw [twoColSplit, hmost, Option.bind_eq_bind, Option.bind_some]
  dsimp only
  rw [hright]
  rfl

end Widths

theorem sideBySide_singleton (text : Text) (cols : UInt16)
    : sideBySide vt [(text, cols)] = (ansiRows vt text cols.toNat).map Prod.fst := by
  apply List.ext_getElem?
  intro i
  simp only [sideBySide, List.map_cons, List.map_nil, List.max?_singleton, Option.getD_some, List.getElem?_map]
  by_cases hi : i < (ansiRows vt text cols.toNat).length
  . rw [List.getElem?_range hi, Option.map_some, List.getElem?_eq_getElem hi]
    rfl
  . rw [List.getElem?_eq_none (by simpa using hi), List.getElem?_eq_none (by simpa using hi)]
    rfl

theorem composePanel_eq (vt : Vt) (left : Text) (mid : Option Text) (right : Text) (cols : UInt16)
    : composePanel vt left mid right cols = some (sideBySide vt (layout left mid right cols)) := by
  rw [composePanel, layout]
  cases (mid.map trimEnd).filter (· ≠ []) with
  | some mid =>
    dsimp only
    split
    next hthree =>
      have hmin : 140 ≤ cols.toNat := UInt16.le_iff_toNat_le.mp hthree
      have hrest : (cols - leftColTarget).toNat = cols.toNat - 80 := toNat_sub (Nat.le_trans (by decide) hmin)
      have hmid : midColWidth.toNat = 34 := rfl
      have hleft : checkedSub cols leftColTarget = some (cols - leftColTarget) :=
        checkedSub_eq (Nat.le_trans (by decide) hmin)
      rw [hleft, Option.bind_eq_bind, Option.bind_some, checkedSub_eq (by omega)]
      rfl
    split
    next htwo =>
      rw [twoColSplit_eq htwo]
      rfl
    . rw [sideBySide_singleton]
      rfl
  | none =>
    dsimp only
    split
    next htwo =>
      rw [twoColSplit_eq htwo.1]
      rfl
    . rw [sideBySide_singleton]
      rfl

theorem layout_width {cols : UInt16} (h : 2 ≤ cols) (left : Text) (mid : Option Text) (right : Text)
    : ((layout left mid right cols).map fun column => column.2.toNat).sum = cols.toNat ∧
        ∀ column ∈ layout left mid right cols, 2 ≤ column.2.toNat := by
  have hcols : 2 ≤ cols.toNat := UInt16.le_iff_toNat_le.mp h
  have hsplit : ∀ other : Text, twoColMin ≤ cols →
      ([(left, min leftColTarget (cols - rightColMin)), (other, cols - min leftColTarget (cols - rightColMin))].map
          fun column => column.2.toNat).sum = cols.toNat ∧
        ∀ column ∈ [(left, min leftColTarget (cols - rightColMin)), (other, cols - min leftColTarget (cols - rightColMin))],
          2 ≤ column.2.toNat := by
    intro other htwo
    have hleft := left_width htwo
    have hright := @toNat_sub cols (min leftColTarget (cols - rightColMin)) (by omega)
    simp only [List.map_cons, List.map_nil, List.sum_cons, List.sum_nil, List.forall_mem_cons, List.not_mem_nil,
      IsEmpty.forall_iff, implies_true, and_true, hright]
    omega
  have hone : ([(left, cols)].map fun column => column.2.toNat).sum = cols.toNat ∧
      ∀ column ∈ [(left, cols)], 2 ≤ column.2.toNat := by
    simpa using hcols
  rw [layout]
  cases (mid.map trimEnd).filter (· ≠ []) with
  | some mid =>
    dsimp only
    split
    next hthree =>
      have hmin : 140 ≤ cols.toNat := UInt16.le_iff_toNat_le.mp hthree
      have hrest : (cols - leftColTarget).toNat = cols.toNat - 80 := toNat_sub (Nat.le_trans (by decide) hmin)
      have hmid : midColWidth.toNat = 34 := rfl
      have hleft : leftColTarget.toNat = 80 := rfl
      have hright := @toNat_sub (cols - leftColTarget) midColWidth (by omega)
      simp only [List.map_cons, List.map_nil, List.sum_cons, List.sum_nil, List.forall_mem_cons, List.not_mem_nil,
        IsEmpty.forall_iff, implies_true, and_true, hright]
      omega
    split
    next htwo => exact hsplit mid htwo
    . exact hone
  | none =>
    dsimp only
    split
    next htwo => exact hsplit (trimEnd right) htwo.1
    . exact hone

end Panel

/--
The rows of a line fit and lose nothing, and so do the lines of a panel.
-/
theorem fitted (vt : Vt) (cells : List Cell) {width : Nat} (hwidth : 2 ≤ width) (left : Text) (mid : Option Text) (right : Text)
    {cols : UInt16} (hcols : 2 ≤ cols)
    : (∃ groups, Wraps width cells (avtLineAnsiRows cells width) groups) ∧
        ∃ lines, composePanel vt left mid right cols = some lines ∧
          (∀ column ∈ layout left mid right cols, (replay vt column.1).length ≤ lines.length) ∧
          ∀ i line, lines[i]? = some line → ∃ parts, Seated vt (layout left mid right cols) i line parts ∧
            widthOf parts.flatten ≤ cols.toNat := by
  refine ⟨⟨_, wraps cells hwidth⟩, _, composePanel_eq vt left mid right cols, fun column h => sideBySide_length h, ?_⟩
  intro i line hline
  have hlayout := layout_width hcols left mid right
  exact ⟨_, sideBySide_seated hlayout.2 hline, hlayout.1 ▸ (parts_width hlayout.2 i).1⟩

-- Two narrow characters, and a wide one with its tail.
def wideLine : List Cell :=
  [⟨'a', 1, {}, by decide, by decide⟩, ⟨'b', 1, {}, by decide, by decide⟩,
    ⟨'中', 2, { isBold := true }, by decide, by decide⟩, ⟨' ', 0, { isBold := true }, by decide, by decide⟩]

def narrow (c : Char) : Option Cell :=
  if h : c ≠ '\r' ∧ c ≠ '\n' ∧ c ≠ Ansi.esc then some ⟨c, 1, {}, by decide, h⟩ else none

-- The emulator on narrow text that fits its screen.
def narrowVt : Vt := fun cols rows input =>
  (List.range rows).map fun i =>
    let line := (((Lines.rows '\n' '\r' input)[i]?).getD []).filterMap narrow
    line ++ List.replicate (cols - line.length) blank

theorem fitted_wide
    : (∃ groups, Wraps 3 wideLine (avtLineAnsiRows wideLine 3) groups) ∧
        ∃ lines, composePanel narrowVt ['a', '\n', 'b'] (some ['c']) ['d'] 180 = some lines ∧ 2 ≤ lines.length ∧
          ∀ i line, lines[i]? = some line →
            ∃ parts, Seated narrowVt (layout ['a', '\n', 'b'] (some ['c']) ['d'] 180) i line parts ∧
              widthOf parts.flatten ≤ 180 := by
  obtain ⟨hwraps, lines, hpanel, hrows, hseated⟩ :=
    fitted narrowVt wideLine (show 2 ≤ 3 by decide) ['a', '\n', 'b'] (some ['c']) ['d'] (show 2 ≤ (180 : UInt16) by decide)
  have hleft : (replay narrowVt ['a', '\n', 'b']).length = 2 := by
    rw [replay, narrowVt, List.length_map, List.length_range]
    decide
  exact ⟨hwraps, lines, hpanel, hleft ▸ hrows (['a', '\n', 'b'], leftColTarget) (by decide), hseated⟩

-- The wide character opens the next row.
example
    : avtLineAnsiRows wideLine 3 =
        [(['a', 'b'], 2), (['\x1b', '[', '0', ';', '1', 'm', '中', '\x1b', '[', '0', 'm'], 2)] := by decide

section Footer

variable {vt : Vt} {cols : Nat} {line : Text}

-- A line that shows cells which fit.
def Fits (cols : Nat) (line : Text) : Prop :=
  ∃ group : List Cell, Paints {} line (group.map Cell.glyph) {} ∧ widthOf group ≤ cols ∧ ∀ cell ∈ group, cell.width ≠ 0

theorem length_le_widthOf {group : List Cell} (h : ∀ cell ∈ group, cell.width ≠ 0) : group.length ≤ widthOf group := by
  induction group with
  | nil => exact Nat.le_refl 0
  | cons cell group ih =>
    have hcell := h cell List.mem_cons_self
    have ih := ih fun other hother => h other (List.mem_cons_of_mem cell hother)
    rw [← List.singleton_append, widthOf_append, List.length_append, List.length_singleton, widthOf, Greedy.total_singleton]
    omega

theorem flat_of_isPlain {tok : Ansi.Token} (h : tok.isPlain = true) : Footer.Flat tok := by
  cases tok with
  | glyph c => trivial
  | csi isPrivate params final =>
    simp only [Ansi.Token.isPlain, Bool.and_eq_true, decide_eq_true_eq] at h
    exact .inr (by simp [h.2])
  | cr => cases h
  | lf => cases h

theorem Fits.exists_line (h : Fits cols line) : ∃ l : Footer.Line cols, l.text = line := by
  rcases h with ⟨group, ⟨toks, hreads, hpaint, hplain⟩, hfits, hwidth⟩
  refine ⟨⟨line, toks, hreads, fun tok htok => flat_of_isPlain (hplain tok htok), ?_⟩, rfl⟩
  rw [Footer.cellsOf, Ansi.cells_paint {} toks, hpaint, List.length_map, List.length_map]
  exact Nat.le_trans (length_le_widthOf hwidth) hfits

theorem lines_of_fits {lines : List Text} (h : ∀ line ∈ lines, Fits cols line)
    : ∃ ls : List (Footer.Line cols), ls.map Footer.Line.text = lines := by
  induction lines with
  | nil => exact ⟨[], rfl⟩
  | cons line lines ih =>
    rcases Fits.exists_line (h line List.mem_cons_self) with ⟨l, rfl⟩
    rcases ih fun other hother => h other (List.mem_cons_of_mem _ hother) with ⟨ls, rfl⟩
    exact ⟨l :: ls, rfl⟩

theorem clipped_shown {width : Nat} {cells : List Cell} : ∀ cell ∈ clipped width cells, cell.width ≠ 0 := by
  intro cell hcell
  have hshown := List.mem_filter.mp ((clipped_front width cells).subset hcell)
  simpa using hshown.2

theorem ansiRows_fits {width : Nat} (h : 2 ≤ width) (text : Text) : ∀ row ∈ ansiRows vt text width, Fits width row.1 := by
  intro row hrow
  rcases List.mem_map.mp hrow with ⟨cells, _, rfl⟩
  exact ⟨clipped width cells, (clipped_shows cells h).paints, clipped_fits cells h, clipped_shown⟩

theorem seat_shown {column : Text × UInt16} {i : Nat} : ∀ cell ∈ seat vt column i, cell.width ≠ 0 := by
  rw [seat]
  cases (replay vt column.1)[i]? with
  | none => simp
  | some cells => exact clipped_shown

theorem sideBySide_fits {columns : List (Text × UInt16)} (h : ∀ column ∈ columns, 2 ≤ column.2.toNat)
    : ∀ line ∈ sideBySide vt columns, Fits (columns.map fun column => column.2.toNat).sum line := by
  intro line hline
  rcases List.getElem?_of_mem hline with ⟨i, hi⟩
  refine ⟨_, sideBySide_paints h hi, (parts_width h i).1, ?_⟩
  intro cell hcell
  rcases List.mem_flatten.mp hcell with ⟨part, hpart, hmem⟩
  rcases List.forall₂_iff_get.mp (sideBySide_seated h hi).shows with ⟨hlen, hget⟩
  rcases List.get_of_mem hpart with ⟨j, rfl⟩
  rcases hget j.1 j.2 (hlen ▸ j.2) with ⟨n, heq⟩
  rw [heq] at hmem
  rcases List.mem_append.mp hmem with hseat | hblank
  . exact seat_shown cell hseat
  . rw [List.eq_of_mem_replicate hblank]
    decide

theorem composeFooter_fits (vt : Vt) (live : List Text) (left : Text) (mid : Option Text) (right : Text) {cols : UInt16}
    (h : 2 ≤ cols)
    : ∃ lines, composeFooter vt live left mid right cols = some lines ∧ ∀ line ∈ lines, Fits cols.toNat line := by
  have hlayout := layout_width h left mid right
  have hpanel : ∀ line ∈ sideBySide vt (layout left mid right cols), Fits cols.toNat line := by
    have hfits := @sideBySide_fits vt _ hlayout.2
    rwa [hlayout.1] at hfits
  refine ⟨_, by rw [composeFooter, composePanel_eq]; rfl, List.forall_mem_append.mpr ⟨?_, hpanel⟩⟩
  intro line hline
  rcases List.mem_flatMap.mp hline with ⟨text, _, htext⟩
  rcases List.mem_map.mp htext with ⟨row, hrow, rfl⟩
  exact ansiRows_fits (UInt16.le_iff_toNat_le.mp h) text row hrow

theorem present_composed {s : Footer.Surface} {cols : UInt16} (hcols : 2 ≤ cols) {done footer : List Text} {t : Footer.Term}
    (h : Footer.Pinned cols.toNat s.rows done footer t) (hfooter : ∀ cells ∈ footer, cells.length ≤ cols.toNat)
    (hprev : s.prevFooterRows = footer.length) (committed : List (Footer.Line cols.toNat)) (live : List Text) (left : Text)
    (mid : Option Text) (right : Text)
    : ∃ lines footer', composeFooter vt live left mid right cols = some lines ∧
        Footer.Pinned cols.toNat s.rows (done ++ committed.map Footer.Line.cells) footer'
          (t.apply (s.present (committed.map Footer.Line.text) lines).2) := by
  rcases composeFooter_fits vt live left mid right hcols with ⟨lines, hlines, hfits⟩
  rcases lines_of_fits hfits with ⟨ls, rfl⟩
  exact ⟨_, _, hlines, Footer.present_pinned h hfooter hprev committed ls⟩

end Footer

end Bridge
end Console
end Ui
