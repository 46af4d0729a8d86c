import Ztest.Ui.Template.Impl
import Ztest.Ui.Template.Lemmas.Ends

/-!
This module contains the printer of a row of literals, plain placeholders and groups, and the rows that no
source says: whatever the parser accepts, no literal of a group holds a closing bracket, no group opens
with a literal that starts with a bracket, and no key starts with a brace.
-/

namespace Ui
namespace Template

def escape (s : Text) : Text := s.flatMap fun c => if isDelim c then [c, c] else [c]

mutual

def Cell.print : Cell → Text
  | .lit s => escape s
  | .text key _ _ _ => '{' :: key ++ ['}']
  | .group cells => '[' :: print cells ++ [']']
  | _ => []

def print : List Cell → Text
  | [] => []
  | cell :: cells => cell.print ++ print cells

end

-- A key that `build` takes whole: without a spec, options or a glyph.
structure PlainKey (key : Text) : Prop where
  noClose : '}' ∉ key
  noOpts : '|' ∉ key
  noSpec : ':' ∉ key
  noGlyph : key.head? ≠ some '@'
  noKind : ∀ c, key.getLast? = some c → ¬(c = '%' ∨ c = '#' ∨ c = '~')

mutual

def Cell.Printable : Cell → Prop
  | .lit s => s ≠ []
  | .text key width align tone => PlainKey key ∧ width = none ∧ align = .left ∧ tone = .plain
  | .group cells => Printable cells ∧ ∀ inner, cells.head? ≠ some (.group inner)
  | _ => False

def Printable : List Cell → Prop
  | [] => True
  | cell :: cells =>
    cell.Printable ∧ Printable cells ∧ ∀ s s', cell = .lit s → cells.head? ≠ some (.lit s')

end

def opensGroup (cells : List Cell) : Prop := ∃ s, cells.head? = some (.lit s) ∧ s.head? = some '['

-- A bracket in a group closes it, and a delimiter that another one follows is an escape.
mutual

def Cell.Escapable (nested : Bool) : Cell → Prop
  | .lit s => nested = true → ']' ∉ s
  | .text key _ _ _ => key.head? ≠ some '{'
  | .group cells => Escapable true cells ∧ ¬opensGroup cells
  | _ => True

def Escapable (nested : Bool) : List Cell → Prop
  | [] => True
  | cell :: cells => cell.Escapable nested ∧ Escapable nested cells

end

theorem escapable_append {nested : Bool} {cells cells' : List Cell}
    : Escapable nested (cells ++ cells') ↔ Escapable nested cells ∧ Escapable nested cells' := by
  induction cells with
  | nil => simp [Escapable]
  | cons cell cells ih =>
    rw [List.cons_append, Escapable, Escapable, ih, and_assoc]

section Keys

variable {body : Text} {cell : Cell}

theorem cut_prefix {sep s a b : Text} (h : Lines.cut sep s = some (a, b)) : a <+: s := by
  rw [Lines.append_of_cut h, List.append_assoc]
  exact List.prefix_append _ _

theorem keyOf_pre (head : Text) : (keyOf head).1 <+: head := by
  unfold keyOf
  split
  . next k s hsplit => exact cut_prefix hsplit
  . split
    . split_ifs
      . exact List.dropLast_prefix head
      . exact List.prefix_refl head
    . exact List.prefix_refl head

theorem headOf_pre (body : Text) : (headOf body).1 <+: body := by
  unfold headOf
  split
  . next head opts hsplit => exact cut_prefix hsplit
  . exact List.prefix_refl body

theorem build_cases (h : build body = .ok cell)
    : (∃ g tone, glyphCell g tone = .ok cell) ∨
      ∃ key o align width prec kind, key <+: body ∧ kindCell key o align width prec kind = cell := by
  have hkey : (keyOf (headOf body).1).1 <+: body := (keyOf_pre _).trans (headOf_pre body)
  unfold build at h
  dsimp only at h
  generalize keyOf (headOf body).1 = keyed at h hkey
  rcases keyed with ⟨key, spec⟩
  cases hopts : optsOf (headOf body).2 with
  | error e =>
    rw [hopts] at h
    cases h
  | ok o =>
    rw [hopts] at h
    simp only [bind, Except.bind] at h
    split at h
    . exact .inl ⟨_, _, h⟩
    . cases hspec : specOf (spec.getD []) with
      | error e =>
        rw [hspec] at h
        cases h
      | ok x =>
        rw [hspec] at h
        exact .inr ⟨key, o, x.1, x.2.1, x.2.2.1, x.2.2.2, hkey, Except.ok.inj h⟩

theorem glyphCell_cases {g : Text} {tone : Tone} (h : glyphCell g tone = .ok cell)
    : cell = .spinner tone ∨ cell = .glyph g tone := by
  unfold glyphCell at h
  split_ifs at h <;> simp_all

theorem build_ne_lit (h : build body = .ok cell) (s : Text) : cell ≠ .lit s := by
  rintro rfl
  rcases build_cases h with ⟨g, tone, hglyph⟩ | ⟨key, o, align, width, prec, kind, _, hcell⟩
  . rcases glyphCell_cases hglyph with h | h
    . cases h
    . cases h
  . unfold kindCell at hcell
    split at hcell
    . cases hcell
    . cases hcell
    . cases hcell
    . split_ifs at hcell

theorem build_escapable (h : build body = .ok cell) (hne : body.head? ≠ some '{') (nested : Bool)
    : cell.Escapable nested := by
  rcases build_cases h with ⟨g, tone, hglyph⟩ | ⟨key, o, align, width, prec, kind, hpre, rfl⟩
  . rcases glyphCell_cases hglyph with rfl | rfl
    . trivial
    . trivial
  . have hkey : key.head? ≠ some '{' := by
      intro hhead
      rcases hpre with ⟨tail, rfl⟩
      exact hne (by rw [List.head?_append, hhead]; rfl)
    unfold kindCell
    split
    . trivial
    . trivial
    . trivial
    . split_ifs
      . trivial
      . exact hkey

end Keys

-- The first cell of a row still to be read is no literal that starts with a bracket.
structure Leads (p : Parser) (lit : Text) (cells : List Cell) : Prop where
  said : ¬opensGroup (flush lit cells)
  unsaid : lit = [] → cells = [] → p.rest.head? ≠ some '['

section Row

variable {nested : Bool} {p p' : Parser} {lit rest : Text} {cells cells' : List Cell} {cell : Cell}

theorem flush_of_ne_nil (h : lit ≠ []) : flush lit cells = cells ++ [.lit lit] := if_neg h

theorem opensGroup_push (hcell : ∀ s, cell ≠ .lit s) : opensGroup (cells ++ [cell]) → opensGroup cells := by
  rintro ⟨s, hhead, hs⟩
  refine ⟨s, ?_, hs⟩
  cases cells with
  | nil =>
    simp only [List.nil_append, List.head?_cons, Option.some.injEq] at hhead
    exact absurd hhead (hcell s)
  | cons c cs => exact hhead

theorem Leads.push (h : Leads p lit cells) (hcell : ∀ s, cell ≠ .lit s)
    : Leads p' [] (flush lit cells ++ [cell]) where
  said := fun hopens => h.said (opensGroup_push hcell hopens)
  unsaid := by simp

theorem Leads.extend {more : Text} (h : Leads p lit cells) (hmore : more ≠ [])
    (hhead : more.head? = p.rest.head?)
    : Leads p' (lit ++ more) cells where
  said := by
    rw [flush_of_ne_nil (by simp [hmore])]
    rintro ⟨s, hs, hbracket⟩
    cases cells with
    | cons c cs =>
      apply h.said
      refine ⟨s, ?_, hbracket⟩
      unfold flush
      split_ifs
      . exact hs
      . exact hs
    | nil =>
      simp only [List.nil_append, List.head?_cons, Option.some.injEq, Cell.lit.injEq] at hs
      subst hs
      cases lit with
      | nil => exact h.unsaid rfl rfl (by rw [← hhead]; exact hbracket)
      | cons d ds => exact h.said ⟨d :: ds, rfl, hbracket⟩
  unsaid := by
    intro hnil
    simp [hmore] at hnil

theorem flush_escapable (hlit : nested = true → ']' ∉ lit) (hcells : Escapable nested cells)
    : Escapable nested (flush lit cells) := by
  unfold flush
  split_ifs
  . exact hcells
  . exact escapable_append.mpr ⟨hcells, hlit, trivial⟩

theorem placeholder_escapable (hrest : p.rest = '{' :: rest) (hne : rest.head? ≠ some '{')
    (h : p.placeholder = .ok (cell, p'))
    : (∀ s, cell ≠ .lit s) ∧ cell.Escapable nested := by
  rcases placeholder_cases hrest with ⟨_, e, he⟩ | ⟨_, _, e, he⟩ | ⟨_, _, cell', p'', hok, hbuild, _⟩
  . rw [he] at h
    cases h
  . rw [he] at h
    cases h
  . rw [hok] at h
    cases h
    refine ⟨build_ne_lit hbuild, build_escapable hbuild ?_ nested⟩
    cases rest with
    | nil => simp
    | cons d ds =>
      rw [List.takeWhile_cons]
      split_ifs
      . exact hne
      . simp

theorem row_escapable (fuel : Nat) (h : row fuel nested p lit cells = some (.ok (cells', p')))
    (hlit : nested = true → ']' ∉ lit) (hcells : Escapable nested cells)
    : Escapable nested cells' ∧ (Leads p lit cells → ¬opensGroup cells') := by
  induction fuel generalizing nested p lit cells cells' p' with
  | zero => cases h
  | succ fuel ih =>
    have hdone : Escapable nested (flush lit cells) ∧ (Leads p lit cells → ¬opensGroup (flush lit cells)) :=
      ⟨flush_escapable hlit hcells, Leads.said⟩
    rw [row] at h
    split at h
    . cases h
      exact hdone
    . next c rest hrest =>
      split_ifs at h with hclose hdouble hopen hgroup hbrace
      . cases h
        exact hdone
      . have hmore : nested = true → ']' ∉ lit ++ [c] := by
          intro hnested
          have := hlit hnested
          simp only [List.mem_append, List.mem_singleton, not_or]
          exact ⟨this, fun hc => hclose ⟨hc.symm, hnested⟩⟩
        have hstep := ih h hmore hcells
        exact ⟨hstep.1, fun hleads => hstep.2 (hleads.extend (by simp) (by rw [hrest]; rfl))⟩
      . subst hopen
        have hne : rest.head? ≠ some '{' := fun hhead => hdouble ⟨by decide, hhead⟩
        cases hplace : p.placeholder with
        | error e =>
          rw [hplace] at h
          cases h
        | ok place =>
          rw [hplace] at h
          rcases place with ⟨cell, p''⟩
          have hcell := @placeholder_escapable nested p p'' rest cell hrest hne hplace
          have hstep := ih h (by simp) (escapable_append.mpr ⟨hdone.1, hcell.2, trivial⟩)
          exact ⟨hstep.1, fun hleads => hstep.2 (hleads.push hcell.1)⟩
      . subst hgroup
        have hne : rest.head? ≠ some '[' := fun hhead => hdouble ⟨by decide, hhead⟩
        cases hinner : row fuel true (p.skip 1) [] [] with
        | none =>
          rw [hinner] at h
          cases h
        | some x =>
          rw [hinner] at h
          rcases x with e | ⟨inner, p''⟩
          . cases h
          . dsimp only at h
            split_ifs at h with hend
            . cases h
            have hin := ih hinner (by simp) trivial
            have hleads : Leads (p.skip 1) [] [] := by
              refine ⟨?_, fun _ _ => ?_⟩
              . rintro ⟨s, hs, _⟩
                cases hs
              . rwa [Parser.skip_rest, hrest]
            have hcell : (Cell.group inner).Escapable nested := ⟨hin.1, hin.2 hleads⟩
            have hstep := ih h (by simp) (escapable_append.mpr ⟨hdone.1, hcell, trivial⟩)
            exact ⟨hstep.1, fun hleads => hstep.2 (hleads.push (by simp))⟩
      . cases h
      . have hmore : nested = true → ']' ∉ lit ++ p.rest.takeWhile fun c => !isDelim c := by
          intro hnested
          rw [List.mem_append, not_or]
          refine ⟨hlit hnested, fun hmem => ?_⟩
          simpa [isDelim] using List.mem_takeWhile_imp hmem
        have hstep := ih h hmore hcells
        refine ⟨hstep.1, fun hleads => hstep.2 ?_⟩
        cases hplain : isDelim c with
        | true =>
          -- A lone closing bracket outside every group: nothing is read.
          rw [hrest, List.takeWhile_cons_of_neg (by simp [hplain]), List.append_nil]
          exact ⟨hleads.said, hleads.unsaid⟩
        | false =>
          rw [hrest, List.takeWhile_cons_of_pos (by simp [hplain])]
          exact hleads.extend (by simp) (by rw [hrest]; rfl)

theorem parses_escapable {src : Text} (h : Parses src (.ok cells)) : Escapable false cells := by
  rcases h with ⟨n, hn⟩
  dsimp only at hn
  rw [parse] at hn
  cases hrow : row n false ⟨0, src⟩ [] [] with
  | none =>
    rw [hrow] at hn
    cases hn
  | some x =>
    rw [hrow] at hn
    rcases x with e | ⟨cells', p'⟩
    . cases hn
    . dsimp only at hn
      split_ifs at hn
      . cases hn
        exact (row_escapable n hrow (by simp) trivial).1
      . cases hn

end Row

end Template
end Ui
