import Ztest.Lib.Run
import Ztest.Ui.Template.Impl

namespace Ui
namespace Template

namespace Parser

@[simp]
theorem skip_rest (p : Parser) (n : Nat) : (p.skip n).rest = p.rest.drop n := rfl

theorem skip_skip (p : Parser) (n m : Nat) : (p.skip n).skip m = p.skip (n + m) := by
  unfold skip
  dsimp only
  rw [List.drop_drop, List.take_add, List.map_append, List.sum_append, Nat.add_assoc]

end Parser

def Runs (nested : Bool) (p : Parser) (lit : Text) (cells : List Cell)
    (r : Except String (List Cell × Parser)) : Prop :=
  Fuel.Returns (fun fuel => row fuel nested p lit cells) r

theorem row_stable (nested : Bool) (p : Parser) (lit : Text) (cells : List Cell)
    : Fuel.Stable fun fuel => row fuel nested p lit cells := by
  intro fuel
  induction fuel generalizing nested p lit cells with
  | zero =>
    intro r h
    cases h
  | succ fuel ih =>
    intro r h
    dsimp only at h ⊢
    rw [row] at h ⊢
    split
    . next hrest =>
      rw [hrest] at h
      exact h
    . next c rest hrest =>
      rw [hrest] at h
      dsimp only at h
      split_ifs at h ⊢ with hclose hdouble hopen hgroup hbrace
      . exact h
      . exact ih _ _ _ _ _ h
      . cases hplace : p.placeholder with
        | error e =>
          rw [hplace] at h
          exact h
        | ok place =>
          rw [hplace] at h
          exact ih _ _ _ _ _ h
      . cases hinner : row fuel true (p.skip 1) [] [] with
        | none =>
          rw [hinner] at h
          cases h
        | some x =>
          rw [hinner] at h
          have hmore := ih true (p.skip 1) [] [] x hinner
          dsimp only at hmore
          rw [hmore]
          cases x with
          | error e => exact h
          | ok inner =>
            dsimp only at h ⊢
            split_ifs at h ⊢ with hend
            . exact h
            . exact ih _ _ _ _ _ h
      . exact h
      . rw [hrest]
        exact ih _ _ _ _ _ h

section Heads

variable {nested : Bool} {p : Parser} {lit : Text} {cells : List Cell} {c : Char} {rest : Text}
variable {r r' : Except String (List Cell × Parser)}

theorem Runs.unique (h : Runs nested p lit cells r) (h' : Runs nested p lit cells r') : r = r' :=
  Fuel.Returns.unique (row_stable nested p lit cells) h h'

theorem runs_of_done (h : ∀ fuel, row (fuel + 1) nested p lit cells = some r')
    : Runs nested p lit cells r ↔ r = r' := by
  constructor
  . intro hr
    exact hr.unique ⟨1, h 0⟩
  . rintro rfl
    exact ⟨1, h 0⟩

theorem runs_nil (h : p.rest = []) : Runs nested p lit cells r ↔ r = .ok (flush lit cells, p) := by
  apply runs_of_done
  intro fuel
  rw [row, h]

theorem runs_close (h : p.rest = ']' :: rest) : Runs true p lit cells r ↔ r = .ok (flush lit cells, p) := by
  apply runs_of_done
  intro fuel
  rw [row, h]
  rfl

theorem runs_escape (h : p.rest = c :: c :: rest) (hd : isDelim c = true) (hc : ¬(c = ']' ∧ nested = true))
    : Runs nested p lit cells r ↔ Runs nested (p.skip 2) (lit ++ [c]) cells r := by
  apply Fuel.returns_iff_of_step
  . rfl
  . intro fuel
    rw [row, h]
    dsimp only
    rw [if_neg hc, if_pos ⟨hd, rfl⟩]

theorem runs_place (h : p.rest = '{' :: rest) (hne : rest.head? ≠ some '{')
    : Runs nested p lit cells r ↔
      match p.placeholder with
      | .error e => r = .error e
      | .ok (cell, p') => Runs nested p' [] (flush lit cells ++ [cell]) r := by
  have hstep : ∀ fuel, row (fuel + 1) nested p lit cells =
      match p.placeholder with
      | .error e => some (.error e)
      | .ok (cell, p') => row fuel nested p' [] (flush lit cells ++ [cell]) := by
    intro fuel
    rw [row, h]
    dsimp only
    rw [if_neg (by simp), if_neg (by simp [hne])]
    exact if_pos rfl
  cases hplace : p.placeholder with
  | error e =>
    apply runs_of_done
    intro fuel
    rw [hstep, hplace]
  | ok place =>
    apply Fuel.returns_iff_of_step rfl
    intro fuel
    rw [hstep, hplace]

theorem row_group (h : p.rest = '[' :: rest) (hne : rest.head? ≠ some '[') (fuel : Nat)
    : row (fuel + 1) nested p lit cells
        =
      match row fuel true (p.skip 1) [] [] with
      | none => none
      | some (.error e) => some (.error e)
      | some (.ok (inner, p')) =>
        if p'.rest = [] then some (.error "unclosed `[`")
        else row fuel nested (p'.skip 1) [] (flush lit cells ++ [.group inner]) := by
  rw [row, h]
  dsimp only
  rw [if_neg (by simp), if_neg (by simp [hne]), if_neg (by simp)]
  exact if_pos rfl

theorem runs_group_error {e : String} (h : p.rest = '[' :: rest) (hne : rest.head? ≠ some '[')
    (hinner : Runs true (p.skip 1) [] [] (.error e))
    : Runs nested p lit cells r ↔ r = .error e := by
  rcases hinner with ⟨n, hn⟩
  dsimp only at hn
  have hat : row (n + 1) nested p lit cells = some (.error e) := by
    rw [row_group h hne, hn]
  constructor
  . intro hr
    exact hr.unique ⟨n + 1, hat⟩
  . rintro rfl
    exact ⟨n + 1, hat⟩

theorem runs_group_unclosed {inner : List Cell} {p' : Parser} (h : p.rest = '[' :: rest)
    (hne : rest.head? ≠ some '[') (hinner : Runs true (p.skip 1) [] [] (.ok (inner, p'))) (hend : p'.rest = [])
    : Runs nested p lit cells r ↔ r = .error "unclosed `[`" := by
  rcases hinner with ⟨n, hn⟩
  dsimp only at hn
  have hat : row (n + 1) nested p lit cells = some (.error "unclosed `[`") := by
    rw [row_group h hne, hn]
    exact if_pos hend
  constructor
  . intro hr
    exact hr.unique ⟨n + 1, hat⟩
  . rintro rfl
    exact ⟨n + 1, hat⟩

theorem runs_group {inner : List Cell} {p' : Parser} (h : p.rest = '[' :: rest)
    (hne : rest.head? ≠ some '[') (hinner : Runs true (p.skip 1) [] [] (.ok (inner, p'))) (hend : p'.rest ≠ [])
    : Runs nested p lit cells r ↔ Runs nested (p'.skip 1) [] (flush lit cells ++ [.group inner]) r := by
  have hstable := row_stable true (p.skip 1) [] []
  constructor
  . rintro ⟨n, hn⟩
    cases n with
    | zero => cases hn
    | succ n =>
      dsimp only at hn
      rw [row_group h hne] at hn
      cases hx : row n true (p.skip 1) [] [] with
      | none =>
        rw [hx] at hn
        cases hn
      | some x =>
        cases Fuel.Returns.unique hstable ⟨n, hx⟩ hinner
        rw [hx] at hn
        dsimp only at hn
        rw [if_neg hend] at hn
        exact ⟨n, hn⟩
  . rintro ⟨m, hm⟩
    rcases hinner with ⟨n, hn⟩
    refine ⟨max n m + 1, ?_⟩
    dsimp only
    rw [row_group h hne, hstable.mono (Nat.le_max_left n m) hn]
    dsimp only
    rw [if_neg hend]
    exact (row_stable nested (p'.skip 1) [] _).mono (Nat.le_max_right n m) hm

theorem runs_brace (h : p.rest = '}' :: rest) (hne : rest.head? ≠ some '}')
    : Runs nested p lit cells r ↔ r = .error ("stray `\x7d` at byte " ++ toString p.i) := by
  apply runs_of_done
  intro fuel
  rw [row, h]
  dsimp only
  rw [if_neg (by simp), if_neg (by simp [hne]), if_neg (by simp), if_neg (by simp), if_pos rfl]

theorem runs_plain (h : p.rest = c :: rest) (hplain : isDelim c = false)
    : Runs nested p lit cells r ↔ Runs nested (p.skip 1) (lit ++ [c]) cells r := by
  have hne : c ≠ ']' ∧ c ≠ '{' ∧ c ≠ '[' ∧ c ≠ '}' := by
    unfold isDelim at hplain
    simp only [Bool.or_eq_false_iff, decide_eq_false_iff_not] at hplain
    tauto
  have hstep : ∀ (p : Parser) (lit : Text) (c : Char) (rest : Text), p.rest = c :: rest → isDelim c = false →
      c ≠ ']' ∧ c ≠ '{' ∧ c ≠ '[' ∧ c ≠ '}' → ∀ fuel, row (fuel + 1) nested p lit cells =
        row fuel nested (p.skip ((rest.takeWhile fun c => !isDelim c).length + 1))
          (lit ++ c :: rest.takeWhile fun c => !isDelim c) cells := by
    intro p lit c rest h hplain hne fuel
    rw [row, h]
    dsimp only
    rw [if_neg (by simp [hne.1]), if_neg (by simp [hplain]), if_neg hne.2.1, if_neg hne.2.2.1,
      if_neg hne.2.2.2, List.takeWhile_cons_of_pos (by simp [hplain])]
    rfl
  have hthis := Fuel.returns_iff_of_step (r := r) (f := fun fuel => row fuel nested p lit cells) rfl
    (hstep p lit c rest h hplain hne)
  unfold Runs
  rw [hthis]
  cases rest with
  | nil => rfl
  | cons c' rest =>
    cases hplain' : isDelim c' with
    | true =>
      rw [List.takeWhile_cons_of_neg (by simp [hplain'])]
      rfl
    | false =>
      have hne' : c' ≠ ']' ∧ c' ≠ '{' ∧ c' ≠ '[' ∧ c' ≠ '}' := by
        unfold isDelim at hplain'
        simp only [Bool.or_eq_false_iff, decide_eq_false_iff_not] at hplain'
        tauto
      have hnext := Fuel.returns_iff_of_step (r := r)
        (f := fun fuel => row fuel nested (p.skip 1) (lit ++ [c]) cells) rfl
        (hstep (p.skip 1) (lit ++ [c]) c' rest (by rw [Parser.skip_rest, h]; rfl) hplain' hne')
      rw [hnext, List.takeWhile_cons_of_pos (by simp [hplain']), Parser.skip_skip, List.append_assoc]
      rw [List.length_cons, Nat.add_comm 1]
      rfl

-- Outside every group a single closing bracket is met again and again.
theorem not_runs_stray (h : p.rest = ']' :: rest) (hne : rest.head? ≠ some ']')
    : ¬Runs false p lit cells r := by
  rintro ⟨n, hn⟩
  have hstuck : ∀ n, row n false p lit cells = none := by
    intro n
    induction n with
    | zero => rfl
    | succ n ih =>
      rw [row, h]
      dsimp only
      rw [if_neg (by simp), if_neg (by simp [hne]), if_neg (by simp), if_neg (by simp), if_neg (by simp)]
      rw [List.takeWhile_cons_of_neg (by decide)]
      have hsame : p.skip ([] : Text).length = p := by
        simp [Parser.skip]
      rw [hsame, List.append_nil]
      exact ih
  dsimp only at hn
  rw [hstuck] at hn
  cases hn

end Heads

end Template
end Ui
