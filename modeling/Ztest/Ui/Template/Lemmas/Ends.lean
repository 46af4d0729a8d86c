import Mathlib.Data.List.TakeWhile
import Ztest.Ui.Template.Lemmas.Steps

namespace Ui
namespace Template

section Flaws

inductive Flaw where
  | strayClose
  | strayBrace
  | unclosedGroup
  | unclosedBrace
  | badPlaceholder
  deriving DecidableEq

-- `good` says which placeholders are taken for well formed.
def flaw (good : Text → Bool) (depth : Nat) : Text → Option Flaw
  | [] => if depth = 0 then none else some .unclosedGroup
  | c :: cs =>
    if c = ']' ∧ 0 < depth then
      flaw good (depth - 1) cs
    else if isDelim c ∧ cs.head? = some c then
      flaw good depth cs.tail
    else if c = '{' then
      if '}' ∉ cs then
        some .unclosedBrace
      else if good (cs.takeWhile (· ≠ '}')) then
        flaw good depth (cs.dropWhile (· ≠ '}')).tail
      else
        some .badPlaceholder
    else if c = '[' then
      flaw good (depth + 1) cs
    else if c = '}' then
      some .strayBrace
    else if c = ']' then
      some .strayClose
    else
      flaw good depth cs
termination_by cs => cs.length
decreasing_by
  all_goals simp only [List.length_cons, List.length_tail]
  . omega
  . omega
  . have := (List.dropWhile_sublist (l := cs) fun c => decide (c ≠ '}')).length_le
    omega
  . omega
  . omega

variable {good : Text → Bool} {depth : Nat} {c : Char} {cs : Text}

theorem flaw_nil : flaw good depth [] = if depth = 0 then none else some .unclosedGroup := by
  rw [flaw]

theorem flaw_close : flaw good (depth + 1) (']' :: cs) = flaw good depth cs := by
  rw [flaw, if_pos (by simp), Nat.add_sub_cancel]

theorem flaw_escape (hd : isDelim c = true) (hc : ¬(c = ']' ∧ 0 < depth))
    : flaw good depth (c :: c :: cs) = flaw good depth cs := by
  rw [flaw, if_neg hc, if_pos ⟨hd, rfl⟩]
  rfl

theorem flaw_place (hne : cs.head? ≠ some '{')
    : flaw good depth ('{' :: cs)
        =
      if '}' ∉ cs then some .unclosedBrace
      else if good (cs.takeWhile (· ≠ '}')) then flaw good depth (cs.dropWhile (· ≠ '}')).tail
      else some .badPlaceholder := by
  rw [flaw, if_neg (by simp), if_neg (by simp [hne]), if_pos rfl]

theorem flaw_group (hne : cs.head? ≠ some '[') : flaw good depth ('[' :: cs) = flaw good (depth + 1) cs := by
  rw [flaw, if_neg (by simp), if_neg (by simp [hne]), if_neg (by simp), if_pos rfl]

theorem flaw_brace (hne : cs.head? ≠ some '}') : flaw good depth ('}' :: cs) = some .strayBrace := by
  rw [flaw, if_neg (by simp), if_neg (by simp [hne]), if_neg (by simp), if_neg (by simp), if_pos rfl]

theorem flaw_stray (hne : cs.head? ≠ some ']') : flaw good 0 (']' :: cs) = some .strayClose := by
  rw [flaw, if_neg (by simp), if_neg (by simp [hne]), if_neg (by simp), if_neg (by simp), if_neg (by simp),
    if_pos rfl]

theorem flaw_plain (hplain : isDelim c = false) : flaw good depth (c :: cs) = flaw good depth cs := by
  have hne : c ≠ ']' ∧ c ≠ '{' ∧ c ≠ '[' ∧ c ≠ '}' := by
    unfold isDelim at hplain
    simp only [Bool.or_eq_false_iff, decide_eq_false_iff_not] at hplain
    tauto
  rw [flaw, if_neg (by simp [hne.1]), if_neg (by simp [hplain]), if_neg hne.2.1, if_neg hne.2.2.1,
    if_neg hne.2.2.2, if_neg hne.1]

theorem flaw_eq_none_of_le {good' : Text → Bool} (hle : ∀ body, good body = true → good' body = true)
    (h : flaw good depth cs = none)
    : flaw good' depth cs = none := by
  fun_induction flaw good depth cs with
  | case1 => rw [flaw_nil, if_pos rfl]
  | case2 => cases h
  | case3 depth c cs hclose ih => rw [flaw, if_pos hclose, ih h]
  | case4 depth c cs hclose hdouble ih => rw [flaw, if_neg hclose, if_pos hdouble, ih h]
  | case5 => cases h
  | case6 depth cs hmem hgood hclose hdouble ih =>
    rw [flaw, if_neg hclose, if_neg hdouble, if_pos rfl, if_neg hmem, if_pos (hle _ hgood), ih h]
  | case7 => cases h
  | case8 depth cs hclose hdouble hbrace ih =>
    rw [flaw, if_neg hclose, if_neg hdouble, if_neg hbrace, if_pos rfl, ih h]
  | case9 => cases h
  | case10 => cases h
  | case11 depth c cs hclose hdouble hbrace hgroup hend hstray ih =>
    rw [flaw, if_neg hclose, if_neg hdouble, if_neg hbrace, if_neg hgroup, if_neg hend, if_neg hstray, ih h]

def builds (body : Text) : Bool := (build body).isOk

theorem placeholder_cases {p : Parser} (h : p.rest = '{' :: cs)
    : '}' ∉ cs ∧ (∃ e, p.placeholder = .error e) ∨
      '}' ∈ cs ∧ builds (cs.takeWhile (· ≠ '}')) = false ∧ (∃ e, p.placeholder = .error e) ∨
      '}' ∈ cs ∧ builds (cs.takeWhile (· ≠ '}')) = true ∧
        ∃ cell p', p.placeholder = .ok (cell, p') ∧ build (cs.takeWhile (· ≠ '}')) = .ok cell ∧
          p'.rest = (cs.dropWhile (· ≠ '}')).tail := by
  have hrest : (p.skip 1).rest = cs := by
    rw [Parser.skip_rest, h]
    rfl
  unfold Parser.placeholder builds
  dsimp only
  rw [hrest]
  cases hdrop : cs.dropWhile (· ≠ '}') with
  | nil =>
    refine .inl ⟨?_, _, rfl⟩
    rw [List.dropWhile_eq_nil_iff] at hdrop
    intro hmem
    simpa using hdrop '}' hmem
  | cons c tail =>
    have hmem : '}' ∈ cs := by
      by_contra hnot
      have hnil : cs.dropWhile (· ≠ '}') = [] := by
        rw [List.dropWhile_eq_nil_iff]
        intro x hx
        simp only [decide_eq_true_eq]
        rintro rfl
        exact hnot hx
      rw [hnil] at hdrop
      cases hdrop
    cases hbuild : build (cs.takeWhile (· ≠ '}')) with
    | error e => exact .inr (.inl ⟨hmem, rfl, e, rfl⟩)
    | ok cell =>
      refine .inr (.inr ⟨hmem, rfl, cell, _, rfl, rfl, ?_⟩)
      have hsplit := List.takeWhile_append_dropWhile (p := fun c => decide (c ≠ '}')) (l := cs)
      rw [hdrop] at hsplit
      rw [Parser.skip_rest, hrest, List.tail_cons]
      generalize cs.takeWhile (fun c => decide (c ≠ '}')) = body at hsplit
      rw [← hsplit]
      simp

theorem length_afterBrace_le (cs : Text) : (cs.dropWhile (· ≠ '}')).tail.length ≤ cs.length := by
  have := (List.dropWhile_sublist (l := cs) fun c => decide (c ≠ '}')).length_le
  rw [List.length_tail]
  omega

end Flaws

variable {depth : Nat} {c : Char}

-- What the row of a group at `depth` comes to, told by the flaws behind its opening.
inductive Settles (depth : Nat) (src : Text) : Except String (List Cell × Parser) → Prop where
  | closed {cells : List Cell} {p' : Parser} {rest : Text} (h : p'.rest = ']' :: rest)
      (hshort : rest.length < src.length) (hflaw : flaw builds (depth + 1) src = flaw builds depth rest)
    : Settles depth src (.ok (cells, p'))
  | ended {cells : List Cell} {p' : Parser} (h : p'.rest = [])
      (hflaw : flaw builds (depth + 1) src = some .unclosedGroup)
    : Settles depth src (.ok (cells, p'))
  | failed {e : String} {f : Flaw} (hne : f ≠ .strayClose) (hflaw : flaw builds (depth + 1) src = some f)
    : Settles depth src (.error e)

theorem Settles.of_later {src later : Text} {r : Except String (List Cell × Parser)}
    (h : Settles depth later r) (hshort : later.length < src.length)
    (hflaw : flaw builds (depth + 1) src = flaw builds (depth + 1) later)
    : Settles depth src r := by
  cases h with
  | closed hrest hlt hlater => exact .closed hrest (by omega) (hflaw.trans hlater)
  | ended hrest hlater => exact .ended hrest (hflaw.trans hlater)
  | failed hne hlater => exact .failed hne (hflaw.trans hlater)

-- One round of the loop: it goes on with less to read, or it ends with the flaw at hand.
inductive Progress (depth : Nat) (nested : Bool) (p : Parser) (lit : Text) (cells : List Cell) : Prop where
  | on {p' : Parser} {lit' : Text} {cells' : List Cell} (hshort : p'.rest.length < p.rest.length)
      (hflaw : flaw builds depth p.rest = flaw builds depth p'.rest)
      (hruns : ∀ r, Runs nested p lit cells r ↔ Runs nested p' lit' cells' r)
    : Progress depth nested p lit cells
  | stop {e : String} {f : Flaw} (hne : f ≠ .strayClose) (hflaw : flaw builds depth p.rest = some f)
      (hruns : Runs nested p lit cells (.error e))
    : Progress depth nested p lit cells

section Round

variable {nested : Bool} {p : Parser} {lit : Text} {cells : List Cell} {rest : Text}

theorem progress_place (hrest : p.rest = '{' :: rest) (hdouble : rest.head? ≠ some '{')
    : Progress depth nested p lit cells := by
  rcases placeholder_cases hrest with ⟨hmem, e, he⟩ | ⟨hmem, hbuilds, e, he⟩ |
    ⟨hmem, hbuilds, cell, p', hok, _, hp'⟩
  . have hflaw : flaw builds depth p.rest = some .unclosedBrace := by
      rw [hrest, flaw_place hdouble, if_pos hmem]
    exact .stop (by decide) hflaw ((runs_place hrest hdouble).mpr (by rw [he]))
  . have hflaw : flaw builds depth p.rest = some .badPlaceholder := by
      rw [hrest, flaw_place hdouble, if_neg (by simpa using hmem), hbuilds, if_neg (by simp)]
    exact .stop (by decide) hflaw ((runs_place hrest hdouble).mpr (by rw [he]))
  . have hlen := length_afterBrace_le rest
    refine @Progress.on depth nested p lit cells p' [] (flush lit cells ++ [cell]) ?_ ?_ ?_
    . rw [hp', hrest, List.length_cons]
      omega
    . rw [hrest, flaw_place hdouble, if_neg (by simpa using hmem), hbuilds, if_pos rfl, hp']
    . intro r
      rw [runs_place hrest hdouble, hok]

theorem progress_group (hrest : p.rest = '[' :: rest) (hdouble : rest.head? ≠ some '[')
    {x : Except String (List Cell × Parser)} (hx : Runs true (p.skip 1) [] [] x)
    (hinner : Settles depth rest x)
    : Progress depth nested p lit cells := by
  have hopen : flaw builds depth p.rest = flaw builds (depth + 1) rest := by
    rw [hrest, flaw_group hdouble]
  cases hinner with
  | @closed inner p' rest' hp' hshort hflaw =>
    have hskip : (p'.skip 1).rest = rest' := by
      simp [hp']
    refine @Progress.on depth nested p lit cells (p'.skip 1) [] (flush lit cells ++ [.group inner]) ?_ ?_ ?_
    . rw [hskip, hrest, List.length_cons]
      omega
    . rw [hopen, hflaw, hskip]
    . intro r
      exact runs_group hrest hdouble hx (by rw [hp']; simp)
  | ended hp' hflaw =>
    exact .stop (by decide) (hopen.trans hflaw) ((runs_group_unclosed hrest hdouble hx hp').mpr rfl)
  | failed hne hflaw => exact .stop hne (hopen.trans hflaw) ((runs_group_error hrest hdouble hx).mpr rfl)

theorem progress_escape (hrest : p.rest = c :: c :: rest) (hd : isDelim c = true) (hc : c = ']' → depth = 0)
    (hmode : nested = true ↔ 0 < depth)
    : Progress depth nested p lit cells := by
  have hskip : (p.skip 2).rest = rest := by
    simp [hrest]
  refine @Progress.on depth nested p lit cells (p.skip 2) (lit ++ [c]) cells ?_ ?_ ?_
  . rw [hskip, hrest, List.length_cons, List.length_cons]
    omega
  . rw [hrest, flaw_escape hd (fun h => by have := hc h.1; omega)]
    simp [hrest]
  . intro r
    apply runs_escape hrest hd
    rintro ⟨h, hnested⟩
    have := hmode.mp hnested
    have := hc h
    omega

/--
A round makes progress at every character but a closing bracket that stands alone or in a group.
-/
theorem progress (hrest : p.rest = c :: rest) (hmode : nested = true ↔ 0 < depth)
    (hclose : c = ']' → depth = 0 ∧ rest.head? = some ']')
    (hinner : ∃ x, Runs true (p.skip 1) [] [] x ∧ Settles depth rest x)
    : Progress depth nested p lit cells := by
  cases hplain : isDelim c with
  | false =>
    refine @Progress.on depth nested p lit cells (p.skip 1) (lit ++ [c]) cells ?_ ?_ ?_
    . simp [hrest]
    . rw [hrest, flaw_plain hplain]
      simp [hrest]
    . exact fun r => runs_plain hrest hplain
  | true =>
    by_cases hdouble : rest.head? = some c
    . rcases List.head?_eq_some_iff.mp hdouble with ⟨rest, rfl⟩
      exact progress_escape hrest hplain (fun h => (hclose h).1) hmode
    . have hcases : c = '{' ∨ c = '}' ∨ c = '[' ∨ c = ']' := by
        unfold isDelim at hplain
        simp only [Bool.or_eq_true, decide_eq_true_eq] at hplain
        tauto
      rcases hcases with rfl | rfl | rfl | rfl
      . exact progress_place hrest hdouble
      . have hflaw : flaw builds depth p.rest = some .strayBrace := by
          rw [hrest, flaw_brace hdouble]
        exact .stop (by decide) hflaw ((runs_brace hrest hdouble).mpr rfl)
      . rcases hinner with ⟨x, hx, hsettles⟩
        exact progress_group hrest hdouble hx hsettles
      . exact absurd (hclose rfl).2 hdouble

end Round

/--
Inside a group the parser always returns.
-/
theorem nested_settles (n : Nat) (p : Parser) (hn : p.rest.length ≤ n) (lit : Text) (cells : List Cell)
    (depth : Nat)
    : ∃ r, Runs true p lit cells r ∧ Settles depth p.rest r := by
  induction n generalizing p lit cells depth with
  | zero =>
    have hnil : p.rest = [] := List.eq_nil_of_length_eq_zero (Nat.le_zero.mp hn)
    refine ⟨_, (runs_nil hnil).mpr rfl, .ended hnil ?_⟩
    rw [hnil, flaw_nil, if_neg (by simp)]
  | succ n ih =>
    cases hrest : p.rest with
    | nil =>
      refine ⟨_, (runs_nil hrest).mpr rfl, .ended hrest ?_⟩
      rw [flaw_nil, if_neg (by simp)]
    | cons c rest =>
      by_cases hclose : c = ']'
      . subst hclose
        exact ⟨_, (runs_close hrest).mpr rfl, .closed hrest (by simp) flaw_close⟩
      . have hskip : (p.skip 1).rest = rest := by
          simp [hrest]
        have hlen : rest.length ≤ n := by
          rw [hrest, List.length_cons] at hn
          omega
        have hinner := ih (p.skip 1) (by rwa [hskip]) [] [] (depth + 1)
        rw [hskip] at hinner
        rw [← hrest]
        rcases @progress (depth + 1) c true p lit cells rest hrest (by simp) (by simp [hclose]) hinner with
          @⟨p', lit', cells', hshort, hflaw, hruns⟩ | ⟨hne, hflaw, hruns⟩
        . rcases ih p' (by omega) lit' cells' depth with ⟨r, hr, hsettles⟩
          exact ⟨r, (hruns r).mpr hr, hsettles.of_later hshort hflaw⟩
        . exact ⟨_, hruns, .failed hne hflaw⟩

inductive Ends (p : Parser) (lit : Text) (cells : List Cell) : Prop where
  | accepted {cells' : List Cell} {p' : Parser} (h : Runs false p lit cells (.ok (cells', p')))
      (hend : p'.rest = []) (hflaw : flaw builds 0 p.rest = none)
  | rejected {e : String} {f : Flaw} (h : Runs false p lit cells (.error e)) (hne : f ≠ .strayClose)
      (hflaw : flaw builds 0 p.rest = some f)
  | stuck (h : ∀ r, ¬Runs false p lit cells r) (hflaw : flaw builds 0 p.rest = some .strayClose)

theorem row_ends (n : Nat) (p : Parser) (hn : p.rest.length ≤ n) (lit : Text) (cells : List Cell)
    : Ends p lit cells := by
  induction n generalizing p lit cells with
  | zero =>
    have hnil : p.rest = [] := List.eq_nil_of_length_eq_zero (Nat.le_zero.mp hn)
    exact .accepted ((runs_nil hnil).mpr rfl) hnil (by rw [hnil, flaw_nil, if_pos rfl])
  | succ n ih =>
    cases hrest : p.rest with
    | nil => exact .accepted ((runs_nil hrest).mpr rfl) hrest (by rw [hrest, flaw_nil, if_pos rfl])
    | cons c rest =>
      by_cases hstray : c = ']' ∧ rest.head? ≠ some ']'
      . rcases hstray with ⟨rfl, hne⟩
        exact .stuck (fun r => not_runs_stray hrest hne) (by rw [hrest, flaw_stray hne])
      . have hskip : (p.skip 1).rest = rest := by
          simp [hrest]
        have hinner := nested_settles _ (p.skip 1) (le_refl _) [] [] 0
        rw [hskip] at hinner
        rcases @progress 0 c false p lit cells rest hrest (by simp) (by simpa using hstray) hinner with
          @⟨p', lit', cells', hshort, hflaw, hruns⟩ | ⟨hne, hflaw, hruns⟩
        . cases ih p' (by omega) lit' cells' with
          | accepted h hend hlater => exact .accepted ((hruns _).mpr h) hend (hflaw.trans hlater)
          | rejected h hne hlater => exact .rejected ((hruns _).mpr h) hne (hflaw.trans hlater)
          | stuck h hlater => exact .stuck (fun r hr => h r ((hruns r).mp hr)) (hflaw.trans hlater)
        . exact .rejected hruns hne hflaw

def Parses (src : Text) (r : Except String (List Cell)) : Prop :=
  Fuel.Returns (fun fuel => parse fuel src) r

section Parse

variable {src : Text} {e : String} {cells : List Cell} {p : Parser} {r r' : Except String (List Cell)}

theorem parses_error (h : Runs false ⟨0, src⟩ [] [] (.error e)) : Parses src (.error e) := by
  rcases h with ⟨n, hn⟩
  refine ⟨n, ?_⟩
  dsimp only at hn ⊢
  rw [parse, hn]

theorem parses_ok (h : Runs false ⟨0, src⟩ [] [] (.ok (cells, p))) (hend : p.rest = [])
    : Parses src (.ok cells) := by
  rcases h with ⟨n, hn⟩
  refine ⟨n, ?_⟩
  dsimp only at hn ⊢
  rw [parse, hn]
  exact if_pos hend

theorem runs_of_parses (h : Parses src r) : ∃ x, Runs false ⟨0, src⟩ [] [] x := by
  rcases h with ⟨n, hn⟩
  dsimp only at hn
  rw [parse] at hn
  cases hrow : row n false ⟨0, src⟩ [] [] with
  | none =>
    rw [hrow] at hn
    cases hn
  | some x => exact ⟨x, n, hrow⟩

theorem Parses.unique (h : Parses src r) (h' : Parses src r') : r = r' := by
  apply Fuel.Returns.unique _ h h'
  intro n r hn
  dsimp only at hn ⊢
  rw [parse] at hn ⊢
  cases hrow : row n false ⟨0, src⟩ [] [] with
  | none =>
    rw [hrow] at hn
    cases hn
  | some x =>
    have hmore := row_stable false ⟨0, src⟩ [] [] n x hrow
    dsimp only at hmore
    rw [hrow] at hn
    rw [hmore]
    exact hn

end Parse

-- A bracket or a brace that closes nothing, or one that is not closed.
def Malformed (src : Text) : Prop := flaw (fun _ => true) 0 src ≠ none

structure Sound (src : Text) : Prop where
  returns : ∃ r, Parses src r
  rejects : Malformed src → ∃ e, Parses src (.error e)
  accepts : flaw builds 0 src = none → ∃ cells, Parses src (.ok cells)

theorem sound_iff (src : Text) : Sound src ↔ flaw builds 0 src ≠ some .strayClose := by
  have hends := row_ends _ ⟨0, src⟩ (le_refl _) [] []
  constructor
  . intro hsound hstray
    rcases hsound.returns with ⟨r, hr⟩
    rcases runs_of_parses hr with ⟨x, hx⟩
    cases hends with
    | accepted _ _ hflaw => simp [hstray] at hflaw
    | rejected _ hne hflaw => exact hne (Option.some.inj (hflaw.symm.trans hstray))
    | stuck h _ => exact h x hx
  . intro hne
    cases hends with
    | accepted h hend hflaw =>
      have hparses := parses_ok h hend
      have hwell : flaw (fun _ => true) 0 src = none := flaw_eq_none_of_le (fun _ _ => rfl) hflaw
      exact ⟨⟨_, hparses⟩, fun hmal => absurd hwell hmal, fun _ => ⟨_, hparses⟩⟩
    | rejected h _ hflaw =>
      have hparses := parses_error h
      exact ⟨⟨_, hparses⟩, fun _ => ⟨_, hparses⟩, fun hnone => by rw [hflaw] at hnone; cases hnone⟩
    | stuck _ hflaw => exact absurd hflaw hne

theorem lone_close_never_returns : Malformed [']'] ∧ ¬∃ r, Parses [']'] r := by
  have hne : ([] : Text).head? ≠ some ']' := by simp
  constructor
  . unfold Malformed
    rw [flaw_stray hne]
    simp
  . rintro ⟨r, hr⟩
    rcases runs_of_parses hr with ⟨x, hx⟩
    exact not_runs_stray rfl hne hx

end Template
end Ui
