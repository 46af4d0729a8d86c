import Ztest.Lib.Decimal
import Ztest.Lib.Lines

/-!
This module contains what a terminal reads: carriage returns, line feeds, control sequences and glyphs.
`Reads` says of a text that it ends no control sequence of what comes after it. `Paints` says which glyphs a
text shows, each with the pen that the parameters of the sequences before it select.
-/

namespace Ansi

def esc : Char := '\x1b'

-- A control sequence has parameters and a final byte, and may be a private one.
inductive Token where
  | cr
  | lf
  | csi (isPrivate : Bool) (params : Text) (final : Char)
  | glyph (c : Char)
  deriving DecidableEq

def isParam (c : Char) : Bool := c.isDigit || c = ';'

def sequence (rest : Text) : Token × Text :=
  let isPrivate := rest.head? = some '?'
  let body := if isPrivate then rest.tail else rest
  (.csi isPrivate (body.takeWhile isParam) ((body.dropWhile isParam).head?.getD '\x00'), (body.dropWhile isParam).tail)

def next (c : Char) (rest : Text) : Token × Text :=
  if c = '\r' then (.cr, rest)
  else if c = '\n' then (.lf, rest)
  else if c = esc ∧ rest.head? = some '[' then sequence rest.tail
  else (.glyph c, rest)

theorem sequence_length_le (rest : Text) : (sequence rest).2.length ≤ rest.length := by
  unfold sequence
  dsimp only
  have hdrop : ∀ body : Text, (body.dropWhile isParam).tail.length ≤ body.length := by
    intro body
    rw [List.length_tail]
    exact Nat.le_trans (Nat.sub_le _ _) (List.length_dropWhile_le isParam body)
  split
  . refine Nat.le_trans (hdrop _) ?_
    rw [List.length_tail]
    exact Nat.sub_le _ _
  . exact hdrop _

theorem next_length_le (c : Char) (rest : Text) : (next c rest).2.length ≤ rest.length := by
  unfold next
  split
  . exact Nat.le_refl _
  split
  . exact Nat.le_refl _
  split
  . refine Nat.le_trans (sequence_length_le _) ?_
    rw [List.length_tail]
    exact Nat.sub_le _ _
  . exact Nat.le_refl _

def tokens : Text → List Token
  | [] => []
  | c :: rest => (next c rest).1 :: tokens (next c rest).2
termination_by text => text.length
decreasing_by exact Nat.lt_succ_of_le (next_length_le c rest)

def csi (params : Text) (final : Char) : Text := esc :: '[' :: (params ++ [final])

def sgr (params : Text) : Text := csi params 'm'

def newline : Text := ['\r', '\n']

def Token.cell : Token → Option Char
  | .glyph c => some c
  | _ => none

/--
The text reads as these tokens, whatever comes after it.
-/
def Reads (text : Text) (toks : List Token) : Prop := ∀ rest, tokens (text ++ rest) = toks ++ tokens rest

section Reads

variable {text text' : Text} {toks toks' : List Token}

theorem Reads.tokens_eq (h : Reads text toks) : tokens text = toks := by
  have hnil := h []
  rwa [List.append_nil, tokens, List.append_nil] at hnil

theorem reads_nil : Reads [] [] := fun _ => rfl

theorem Reads.append (h : Reads text toks) (h' : Reads text' toks') : Reads (text ++ text') (toks ++ toks') := by
  intro rest
  rw [List.append_assoc, h, h', List.append_assoc]

theorem reads_glyph {c : Char} (h : c ≠ '\r' ∧ c ≠ '\n' ∧ c ≠ esc) : Reads [c] [.glyph c] := by
  intro rest
  rw [List.singleton_append, tokens, next, if_neg h.1, if_neg h.2.1, if_neg fun hesc => h.2.2 hesc.1]
  rfl

theorem reads_newline : Reads newline [.cr, .lf] := by
  intro rest
  rw [newline, List.cons_append, tokens, next, if_pos rfl, List.singleton_append, tokens, next, if_neg (by decide), if_pos rfl]
  rfl

theorem reads_cr : Reads ['\r'] [.cr] := by
  intro rest
  rw [List.singleton_append, tokens, next, if_pos rfl]
  rfl

theorem sequence_eq {params : Text} {final : Char} (hparams : ∀ c ∈ params, isParam c = true) (hfinal : isParam final = false)
    (hpublic : final ≠ '?') (rest : Text)
    : sequence (params ++ final :: rest) = (.csi false params final, rest) := by
  have hhead : (params ++ final :: rest).head? ≠ some '?' := by
    cases params with
    | nil => simpa using hpublic
    | cons c params =>
      intro heq
      cases heq
      exact absurd (hparams '?' List.mem_cons_self) (by decide)
  have htake : (params ++ final :: rest).takeWhile isParam = params := by
    rw [List.takeWhile_append_of_pos hparams, List.takeWhile_cons_of_neg (by simp [hfinal]), List.append_nil]
  have hdrop : (params ++ final :: rest).dropWhile isParam = final :: rest := by
    rw [List.dropWhile_append_of_pos hparams, List.dropWhile_cons_of_neg (by simp [hfinal])]
  simp only [sequence, hhead, decide_false, if_false, htake, hdrop]
  rfl

theorem reads_csi {params : Text} {final : Char} (hparams : ∀ c ∈ params, isParam c = true) (hfinal : isParam final = false)
    (hpublic : final ≠ '?')
    : Reads (csi params final) [.csi false params final] := by
  intro rest
  have happ : csi params final ++ rest = esc :: '[' :: (params ++ final :: rest) := by simp [csi]
  rw [happ, tokens, next, if_neg (by decide), if_neg (by decide), if_pos ⟨rfl, rfl⟩, List.tail_cons,
    sequence_eq hparams hfinal hpublic]
  rfl

theorem reads_sgr {params : Text} (hparams : ∀ c ∈ params, isParam c = true) : Reads (sgr params) [.csi false params 'm'] :=
  reads_csi hparams (by decide) (by decide)

theorem reads_private {params : Text} {final : Char} (hparams : ∀ c ∈ params, isParam c = true) (hfinal : isParam final = false)
    : Reads (csi ('?' :: params) final) [.csi true params final] := by
  intro rest
  have happ : csi ('?' :: params) final ++ rest = esc :: '[' :: '?' :: (params ++ final :: rest) := by simp [csi]
  have htake : (params ++ final :: rest).takeWhile isParam = params := by
    rw [List.takeWhile_append_of_pos hparams, List.takeWhile_cons_of_neg (by simp [hfinal]), List.append_nil]
  have hdrop : (params ++ final :: rest).dropWhile isParam = final :: rest := by
    rw [List.dropWhile_append_of_pos hparams, List.dropWhile_cons_of_neg (by simp [hfinal])]
  have hsequence : sequence ('?' :: (params ++ final :: rest)) = (.csi true params final, rest) := by
    simp only [sequence, List.head?_cons, decide_true, if_true, List.tail_cons, htake, hdrop]
    rfl
  rw [happ, tokens, next, if_neg (by decide), if_neg (by decide), if_pos ⟨rfl, rfl⟩, List.tail_cons, hsequence]
  rfl

theorem isParam_of_isDigit {c : Char} (h : c.isDigit = true) : isParam c = true := by simp [isParam, h]

end Reads

inductive Color where
  | indexed (i : UInt8)
  | rgb (r g b : UInt8)
  deriving DecidableEq

structure Pen where
  isBold : Bool := false
  isFaint : Bool := false
  isItalic : Bool := false
  isUnderline : Bool := false
  isBlink : Bool := false
  isInverse : Bool := false
  isStrikethrough : Bool := false
  foreground : Option Color := none
  background : Option Color := none
  deriving DecidableEq

namespace Pen

-- 38 begins a foreground, 48 a background.
def colored (pen : Pen) (base : Nat) (color : Color) : Pen :=
  if base = 38 then { pen with foreground := some color } else { pen with background := some color }

-- A parameter that stands alone.
def attributed (pen : Pen) (n : Nat) : Pen :=
  if n = 0 then {}
  else if n = 1 then { pen with isBold := true }
  else if n = 2 then { pen with isFaint := true }
  else if n = 3 then { pen with isItalic := true }
  else if n = 4 then { pen with isUnderline := true }
  else if n = 5 then { pen with isBlink := true }
  else if n = 7 then { pen with isInverse := true }
  else if n = 9 then { pen with isStrikethrough := true }
  else if 30 ≤ n ∧ n ≤ 37 then { pen with foreground := some (.indexed (n - 30).toUInt8) }
  else if 40 ≤ n ∧ n ≤ 47 then { pen with background := some (.indexed (n - 40).toUInt8) }
  else if 90 ≤ n ∧ n ≤ 97 then { pen with foreground := some (.indexed (n - 82).toUInt8) }
  else if 100 ≤ n ∧ n ≤ 107 then { pen with background := some (.indexed (n - 92).toUInt8) }
  else pen

-- Beside the pen stands what is known of a color that is not yet complete.
def select (s : Pen × List Nat) (n : Nat) : Pen × List Nat :=
  match s.2 with
  | [] => if n = 38 ∨ n = 48 then (s.1, [n]) else (s.1.attributed n, [])
  | [base] => if n = 2 ∨ n = 5 then (s.1, [base, n]) else (s.1, [])
  | [base, kind] => if kind = 5 then (s.1.colored base (.indexed n.toUInt8), []) else (s.1, [base, kind, n])
  | [base, kind, r] => (s.1, [base, kind, r, n])
  | base :: _ :: r :: g :: _ => (s.1.colored base (.rgb r.toUInt8 g.toUInt8 n.toUInt8), [])

def selected (pen : Pen) (codes : List Nat) : Pen × List Nat := codes.foldl select (pen, [])

-- A parameter that is left out is 0.
def sgr (pen : Pen) (params : Text) : Pen :=
  (pen.selected ((params.splitOn ';').map fun digits => (Decimal.parseDigits digits).getD 0)).1

def read (pen : Pen) : Token → Pen
  | .csi isPrivate params final => if isPrivate = false ∧ final = 'm' then pen.sgr params else pen
  | _ => pen

end Pen

-- The glyphs with their pens, and the pen in the end.
def paint (pen : Pen) : List Token → List (Char × Pen) × Pen
  | [] => ([], pen)
  | tok :: toks =>
    let pen := pen.read tok
    let painted := paint pen toks
    ((tok.cell.map (·, pen)).toList ++ painted.1, painted.2)

def painted (text : Text) : List (Char × Pen) × Pen := paint {} (tokens text)

def params (codes : List Nat) : Text := Lines.join ';' (codes.map (Nat.toDigits 10))

def Token.isPlain : Token → Bool
  | .glyph _ => true
  | .csi isPrivate _ final => !isPrivate && final = 'm'
  | _ => false

/--
Under the one pen, the text shows these glyphs and leaves the other pen, and it does nothing else.
-/
def Paints (pen : Pen) (text : Text) (glyphs : List (Char × Pen)) (pen' : Pen) : Prop :=
  ∃ toks, Reads text toks ∧ paint pen toks = (glyphs, pen') ∧ ∀ tok ∈ toks, tok.isPlain = true

section Paints

variable {pen pen' pen'' : Pen} {text text' : Text} {glyphs glyphs' : List (Char × Pen)} {codes : List Nat}

theorem paint_append (pen : Pen) (toks toks' : List Token)
    : paint pen (toks ++ toks') =
        ((paint pen toks).1 ++ (paint (paint pen toks).2 toks').1, (paint (paint pen toks).2 toks').2) := by
  induction toks generalizing pen with
  | nil => rfl
  | cons tok toks ih => simp only [List.cons_append, paint, ih, List.append_assoc]

theorem Paints.painted_eq (h : Paints {} text glyphs pen) : painted text = (glyphs, pen) := by
  rcases h with ⟨toks, hreads, hpaint, _⟩
  rw [painted, hreads.tokens_eq, hpaint]

theorem Paints.append (h : Paints pen text glyphs pen') (h' : Paints pen' text' glyphs' pen'')
    : Paints pen (text ++ text') (glyphs ++ glyphs') pen'' := by
  rcases h with ⟨toks, hreads, hpaint, hplain⟩
  rcases h' with ⟨toks', hreads', hpaint', hplain'⟩
  refine ⟨toks ++ toks', hreads.append hreads', ?_, List.forall_mem_append.mpr ⟨hplain, hplain'⟩⟩
  rw [paint_append, hpaint, hpaint']

theorem paints_nil (pen : Pen) : Paints pen [] [] pen := ⟨[], reads_nil, rfl, by simp⟩

theorem paints_glyph (pen : Pen) {c : Char} (h : c ≠ '\r' ∧ c ≠ '\n' ∧ c ≠ esc) : Paints pen [c] [(c, pen)] pen :=
  ⟨[.glyph c], reads_glyph h, rfl, List.forall_mem_singleton.mpr rfl⟩

theorem cells_paint (pen : Pen) (toks : List Token) : toks.filterMap Token.cell = (paint pen toks).1.map Prod.fst := by
  induction toks generalizing pen with
  | nil => rfl
  | cons tok toks ih =>
    rw [paint, List.filterMap_cons, ih (pen.read tok), List.map_append]
    cases tok.cell <;> rfl

theorem separator_not_mem_digits {n : Nat} : ';' ∉ Nat.toDigits 10 n := by
  intro hmem
  exact absurd (Decimal.isDigit_of_mem_toDigits hmem) (by decide)

theorem isParam_params {c : Char} (h : c ∈ params codes) : isParam c = true := by
  rcases Lines.mem_join h with rfl | ⟨digits, hdigits, hc⟩
  . decide
  . rcases List.mem_map.mp hdigits with ⟨n, _, rfl⟩
    exact isParam_of_isDigit (Decimal.isDigit_of_mem_toDigits hc)

theorem parseDigits_toDigits (n : Nat) : Decimal.parseDigits (Nat.toDigits 10 n) = some n := by
  rw [Decimal.parseDigits_eq (fun c hc => Decimal.isDigit_of_mem_toDigits hc) Nat.toDigits_ne_nil, Nat.ofDigitChars_ten_toDigits]

theorem sgr_params (pen : Pen) (h : codes ≠ []) : pen.sgr (params codes) = (pen.selected codes).1 := by
  have hsplit : (params codes).splitOn ';' = codes.map (Nat.toDigits 10) := by
    refine Lines.splitOn_join ?_ (by simpa using h)
    intro digits hdigits
    rcases List.mem_map.mp hdigits with ⟨n, _, rfl⟩
    exact separator_not_mem_digits
  rw [Pen.sgr, hsplit, List.map_map]
  congr 2
  conv => rhs; rw [← List.map_id codes]
  apply List.map_congr_left
  intro n _
  rw [Function.comp_apply, parseDigits_toDigits, Option.getD_some, id]

theorem params_append {codes codes' : List Nat} (h : codes ≠ []) (h' : codes' ≠ [])
    : params (codes ++ codes') = params codes ++ [';'] ++ params codes' := by
  rw [params, List.map_append, Lines.join_append (by simpa using h) (by simpa using h')]
  rfl

theorem params_ne_nil (h : codes ≠ []) : params codes ≠ [] := by
  cases codes with
  | nil => exact absurd rfl h
  | cons n codes =>
    have hdigits : Nat.toDigits 10 n ≠ [] := Nat.toDigits_ne_nil
    cases codes <;> simp [params, Lines.join, hdigits]

theorem selected_append {pen pen' : Pen} (h : pen.selected codes = (pen', [])) (codes' : List Nat)
    : pen.selected (codes ++ codes') = pen'.selected codes' := by
  rw [Pen.selected, List.foldl_append]
  change codes'.foldl Pen.select (pen.selected codes) = _
  rw [h]
  rfl

theorem selected_singleton {n : Nat} (h : n ≠ 38 ∧ n ≠ 48) : pen.selected [n] = (pen.attributed n, []) :=
  if_neg fun hcolor => hcolor.elim h.1 h.2

-- The short codes of a color: one range for the eight dark ones, another for the bright.
theorem attributed_foreground {i : Nat} (h : i ≤ 7)
    : pen.attributed (30 + i) = { pen with foreground := some (.indexed i.toUInt8) } := by
  unfold Pen.attributed
  repeat rw [if_neg (by omega)]
  rw [if_pos (by omega), Nat.add_sub_cancel_left]

theorem attributed_background {i : Nat} (h : i ≤ 7)
    : pen.attributed (40 + i) = { pen with background := some (.indexed i.toUInt8) } := by
  unfold Pen.attributed
  repeat rw [if_neg (by omega)]
  rw [if_pos (by omega), Nat.add_sub_cancel_left]

theorem attributed_bright_foreground {i : Nat} (h : 8 ≤ i) (h' : i ≤ 15)
    : pen.attributed (82 + i) = { pen with foreground := some (.indexed i.toUInt8) } := by
  unfold Pen.attributed
  repeat rw [if_neg (by omega)]
  rw [if_pos (by omega), Nat.add_sub_cancel_left]

theorem attributed_bright_background {i : Nat} (h : 8 ≤ i) (h' : i ≤ 15)
    : pen.attributed (92 + i) = { pen with background := some (.indexed i.toUInt8) } := by
  unfold Pen.attributed
  repeat rw [if_neg (by omega)]
  rw [if_pos (by omega), Nat.add_sub_cancel_left]

theorem paints_sgr (pen : Pen) (h : codes ≠ []) : Paints pen (sgr (params codes)) [] (pen.selected codes).1 := by
  refine ⟨[.csi false (params codes) 'm'], reads_sgr fun c hc => isParam_params hc, ?_, List.forall_mem_singleton.mpr rfl⟩
  simp only [paint, Pen.read, and_self, if_true, sgr_params pen h, Token.cell, Option.map_none, Option.toList_none, List.nil_append]

end Paints

end Ansi
