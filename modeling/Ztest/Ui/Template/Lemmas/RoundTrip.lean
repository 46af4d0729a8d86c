import Ztest.Ui.Template.Lemmas.Outputs

namespace Ui
namespace Template

theorem cut_eq_none {sep : Char} {s : Text} (h : sep ∉ s) : Lines.cut [sep] s = none :=
  Lines.cut_eq_none_iff.mpr fun hsub => h (hsub.subset (List.mem_singleton_self _))

theorem build_plain {key : Text} (h : PlainKey key) : build key = .ok (.text key none .left .plain) := by
  have hhead : headOf key = (key, none) := by
    unfold headOf
    rw [cut_eq_none h.noOpts]
  have hkey : keyOf key = (key, none) := by
    unfold keyOf
    rw [cut_eq_none h.noSpec]
    cases hlast : key.getLast? with
    | none => rfl
    | some c => exact if_neg (h.noKind c hlast)
  unfold build
  rw [hhead]
  dsimp only
  rw [hkey]
  have hopts : optsOf none = .ok ⟨none, .plain, false⟩ := rfl
  rw [hopts]
  simp only [bind, Except.bind]
  split
  . exact absurd rfl h.noGlyph
  . rfl

section Row

variable {nested : Bool} {p : Parser} {lit tail : Text} {cells acc : List Cell}

-- `p` reads `cells` and has `tail` left to read.
def Reads (nested : Bool) (p : Parser) (lit : Text) (acc cells : List Cell) (tail : Text) : Prop :=
  ∃ p' lit' acc', p'.rest = tail ∧ flush lit' acc' = flush lit acc ++ cells ∧
    ∀ r, Runs nested p lit acc r ↔ Runs nested p' lit' acc' r

theorem reads_lit {s : Text} (hs : nested = true → ']' ∉ s) (h : p.rest = escape s ++ tail)
    : ∃ p', p'.rest = tail ∧ ∀ r, Runs nested p lit acc r ↔ Runs nested p' (lit ++ s) acc r := by
  induction s generalizing p lit with
  | nil => exact ⟨p, h, fun r => by rw [List.append_nil]⟩
  | cons c s ih =>
    have hs' : nested = true → ']' ∉ s := fun hn hmem => hs hn (List.mem_cons_of_mem c hmem)
    cases hc : isDelim c with
    | true =>
      have hrest : p.rest = c :: c :: (escape s ++ tail) := by
        rw [h]
        simp [escape, hc]
      have hclose : ¬(c = ']' ∧ nested = true) := by
        rintro ⟨rfl, hn⟩
        exact hs hn (List.mem_cons_self ..)
      rcases @ih (p.skip 2) (lit ++ [c]) hs' (by rw [Parser.skip_rest, hrest]; rfl) with ⟨p', hp', hruns⟩
      refine ⟨p', hp', fun r => ?_⟩
      rw [runs_escape hrest hc hclose, hruns, List.append_assoc]
      rfl
    | false =>
      have hrest : p.rest = c :: (escape s ++ tail) := by
        rw [h]
        simp [escape, hc]
      rcases @ih (p.skip 1) (lit ++ [c]) hs' (by rw [Parser.skip_rest, hrest]; rfl) with ⟨p', hp', hruns⟩
      refine ⟨p', hp', fun r => ?_⟩
      rw [runs_plain hrest hc, hruns, List.append_assoc]
      rfl

theorem placeholder_plain {key : Text} (hkey : PlainKey key) (h : p.rest = '{' :: (key ++ '}' :: tail))
    : ∃ p', p.placeholder = .ok (.text key none .left .plain, p') ∧ p'.rest = tail := by
  have hall : ∀ c ∈ key, decide (c ≠ '}') = true := by
    intro c hc
    simp only [decide_eq_true_eq]
    rintro rfl
    exact hkey.noClose hc
  have htake : (key ++ '}' :: tail).takeWhile (· ≠ '}') = key := by
    rw [List.takeWhile_append_of_pos hall]
    simp
  have hdrop : (key ++ '}' :: tail).dropWhile (· ≠ '}') = '}' :: tail := by
    rw [List.dropWhile_append_of_pos hall]
    simp
  rcases placeholder_cases h with ⟨hmem, _⟩ | ⟨_, hbuilds, _⟩ | ⟨_, _, cell, p', hok, hbuild, hp'⟩
  . simp at hmem
  . unfold builds at hbuilds
    rw [htake, build_plain hkey] at hbuilds
    cases hbuilds
  . rw [htake, build_plain hkey] at hbuild
    cases hbuild
    exact ⟨p', hok, by rw [hp', hdrop]; rfl⟩

theorem head?_print_ne {inner : List Cell} (hprint : Printable inner) (hgroup : ∀ cs, inner.head? ≠ some (.group cs))
    (hopens : ¬opensGroup inner) (htail : tail.head? ≠ some '[')
    : (print inner ++ tail).head? ≠ some '[' := by
  cases inner with
  | nil => exact htail
  | cons cell inner =>
    rw [print]
    cases cell with
    | lit s =>
      cases s with
      | nil => exact absurd rfl hprint.1
      | cons c s =>
        have hc : c ≠ '[' := by
          rintro rfl
          exact hopens ⟨_, rfl, rfl⟩
        cases hd : isDelim c with
        | true => simp [Cell.print, escape, hd, hc]
        | false => simp [Cell.print, escape, hd, hc]
    | text key => simp [Cell.print]
    | group cs => exact absurd rfl (hgroup cs)
    | _ => exact hprint.1.elim

theorem Reads.cons {p' : Parser} {lit' : Text} {acc' : List Cell} {cell : Cell}
    (hruns : ∀ r, Runs nested p lit acc r ↔ Runs nested p' lit' acc' r)
    (hflush : flush lit' acc' = flush lit acc ++ [cell]) (h : Reads nested p' lit' acc' cells tail)
    : Reads nested p lit acc (cell :: cells) tail := by
  rcases h with ⟨p'', lit'', acc'', hrest, hflush', hruns'⟩
  refine ⟨p'', lit'', acc'', hrest, ?_, fun r => (hruns r).trans (hruns' r)⟩
  rw [hflush', hflush, List.append_assoc]
  rfl

theorem reads_print (nested : Bool) (p : Parser) (lit tail : Text) (acc cells : List Cell)
    (hprint : Printable cells) (hesc : Escapable nested cells)
    (hsep : lit ≠ [] → ∀ s, cells.head? ≠ some (.lit s)) (h : p.rest = print cells ++ tail)
    : Reads nested p lit acc cells tail := by
  match cells with
  | [] => exact ⟨p, lit, acc, h, (List.append_nil _).symm, fun _ => Iff.rfl⟩
  | .lit s :: cells =>
    rcases hprint with ⟨hne, hprint, hnext⟩
    have hlit : lit = [] := by
      by_contra hlit
      exact hsep hlit s rfl
    subst hlit
    rw [print, List.append_assoc] at h
    rcases @reads_lit nested p [] _ acc s hesc.1 h with ⟨p', hp', hruns⟩
    have hreads := reads_print nested p' s tail acc cells hprint hesc.2 (fun _ s' => hnext s s' rfl) hp'
    exact Reads.cons hruns (flush_of_ne_nil hne) hreads
  | .text key width align tone :: cells =>
    rcases hprint with ⟨⟨hkey, rfl, rfl, rfl⟩, hprint, _⟩
    have hrest : p.rest = '{' :: (key ++ '}' :: (print cells ++ tail)) := by
      rw [h]
      simp [print, Cell.print]
    have hhead : (key ++ '}' :: (print cells ++ tail)).head? ≠ some '{' := by
      have := hesc.1
      cases key with
      | nil => simp
      | cons c cs => exact this
    rcases placeholder_plain hkey hrest with ⟨p', hplace, hp'⟩
    have hruns : ∀ r, Runs nested p lit acc r ↔
        Runs nested p' [] (flush lit acc ++ [.text key none .left .plain]) r := by
      intro r
      rw [runs_place hrest hhead, hplace]
    exact Reads.cons hruns rfl (reads_print nested p' [] tail _ cells hprint hesc.2 (by simp) hp')
  | .group inner :: cells =>
    rcases hprint with ⟨⟨hinner, hgroup⟩, hprint, _⟩
    have hrest : p.rest = '[' :: (print inner ++ ']' :: (print cells ++ tail)) := by
      rw [h]
      simp [print, Cell.print]
    have hhead := @head?_print_ne (']' :: (print cells ++ tail)) inner hinner hgroup hesc.1.2 (by simp)
    have hskip : (p.skip 1).rest = print inner ++ ']' :: (print cells ++ tail) := by
      rw [Parser.skip_rest, hrest]
      rfl
    rcases reads_print true (p.skip 1) [] _ [] inner hinner hesc.1.1 (by simp) hskip with
      ⟨p', lit', acc', hp', hflush, hruns⟩
    have hrow : Runs true (p.skip 1) [] [] (.ok (inner, p')) := by
      rw [hruns, runs_close hp', hflush]
      rfl
    have hruns' : ∀ r, Runs nested p lit acc r ↔
        Runs nested (p'.skip 1) [] (flush lit acc ++ [.group inner]) r :=
      fun r => runs_group hrest hhead hrow (by rw [hp']; simp)
    have hskip' : (p'.skip 1).rest = print cells ++ tail := by
      rw [Parser.skip_rest, hp']
      rfl
    exact Reads.cons hruns' rfl (reads_print nested (p'.skip 1) [] tail _ cells hprint hesc.2 (by simp) hskip')
  | .value .. :: _ => exact hprint.1.elim
  | .pair .. :: _ => exact hprint.1.elim
  | .bar .. :: _ => exact hprint.1.elim
  | .spark .. :: _ => exact hprint.1.elim
  | .spinner .. :: _ => exact hprint.1.elim
  | .glyph .. :: _ => exact hprint.1.elim
termination_by sizeOf cells

end Row

theorem parses_print (cells : List Cell) (hprint : Printable cells) (hesc : Escapable false cells)
    : Parses (print cells) (.ok cells) := by
  have hrest : (⟨0, print cells⟩ : Parser).rest = print cells ++ [] := (List.append_nil _).symm
  rcases reads_print false _ [] [] [] cells hprint hesc (by simp) hrest with
    ⟨p', lit', acc', hp', hflush, hruns⟩
  apply parses_ok _ hp'
  rw [hruns, runs_nil hp', hflush]
  rfl

theorem parses_print_iff (cells : List Cell) (hprint : Printable cells)
    : Parses (print cells) (.ok cells) ↔ Escapable false cells := by
  constructor
  . exact parses_escapable
  . exact parses_print cells hprint

theorem parses_print_nested : Parses "[a\x7bb\x7d[[[c\x7bd\x7d]]".toList
    (.ok [.group [.lit ['a'], .text ['b'] none .left .plain, .lit ['['],
      .group [.lit ['c'], .text ['d'] none .left .plain]]]) := by
  have hb : PlainKey ['b'] := ⟨by simp, by simp, by simp, by simp, by simp⟩
  have hd : PlainKey ['d'] := ⟨by simp, by simp, by simp, by simp, by simp⟩
  refine (parses_print_iff [.group [.lit ['a'], .text ['b'] none .left .plain, .lit ['['],
    .group [.lit ['c'], .text ['d'] none .left .plain]]] ?_).mpr ?_
  . simp [Printable, Cell.Printable, hb, hd]
  . simp [Escapable, Cell.Escapable, opensGroup]

-- `[a]]]` is the group of `a` with a bracket behind it.
theorem close_in_group_escapes : Printable [.group [.lit ['a', ']']]] ∧
    ¬Parses (print [.group [.lit ['a', ']']]]) (.ok [.group [.lit ['a', ']']]]) := by
  constructor
  . simp [Printable, Cell.Printable]
  . intro h
    exact (parses_escapable h).1.1.1 rfl (by simp)

end Template
end Ui
