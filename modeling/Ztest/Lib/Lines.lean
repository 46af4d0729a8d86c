import Mathlib.Algebra.BigOperators.Group.List.Basic
import Mathlib.Algebra.Order.Group.Nat
import Mathlib.Algebra.Ring.Nat
import Mathlib.Data.List.Basic
import Mathlib.Data.List.DropRight

/-!
This module contains texts as lists of lines: the lines of a text, the last line of a kind, the lines
without the blank ones at either edge, and how many bytes they take. `cut` splits a text at the first
place where a separator stands, and `Torn` is what a cut through a text leaves of its lines.

A `Text` may also be a path with `::` between its segments.
-/

namespace Lines

variable {α : Type}

def rposition (p : α → Bool) : List α → Option Nat
  | [] => none
  | x :: xs =>
    match rposition p xs with
    | some idx => some (idx + 1)
    | none => if p x then some 0 else none

def trim (p : α → Bool) (xs : List α) : List α := (xs.dropWhile p).rdropWhile p

def join (sep : α) (lines : List (List α)) : List α := [sep].intercalate lines

-- What the lines take with one separator after each.
def weight (lines : List (List α)) : Nat := (lines.map (·.length + 1)).sum

def chomp [DecidableEq α] (cr : α) (line : List α) : List α :=
  if line.getLast? = some cr then line.dropLast else line

def rowsOf [DecidableEq α] (cr : α) : List (List α) → List (List α)
  | [] => []
  | [last] => if last = [] then [] else [last]
  | line :: next :: rest => chomp cr line :: rowsOf cr (next :: rest)

-- The end of the last line may be missing, and a `cr` before the end of a line is no part of it.
def rows [DecidableEq α] (nl cr : α) (text : List α) : List (List α) := rowsOf cr (text.splitOn nl)

def cut [DecidableEq α] (sep : List α) : List α → Option (List α × List α)
  | [] => if sep = [] then some ([], []) else none
  | x :: rest =>
    if sep.isPrefixOf (x :: rest) then some ([], (x :: rest).drop sep.length)
    else (cut sep rest).map fun parts => (x :: parts.1, parts.2)

-- The first lines of some, and maybe the front of the next one.
inductive Torn : List (List α) → List (List α) → Prop where
  | nil {lines : List (List α)} : Torn [] lines
  | part {part line : List α} {lines : List (List α)} (h : part <+: line) : Torn [part] (line :: lines)
  | cons {torn lines : List (List α)} (line : List α) (h : Torn torn lines) : Torn (line :: torn) (line :: lines)

theorem rposition_eq_none {p : α → Bool} {xs : List α} (h : ∀ x ∈ xs, p x = false) : rposition p xs = none := by
  induction xs with
  | nil => rfl
  | cons x xs ih =>
    have htail : rposition p xs = none := ih fun y hy => h y (List.mem_cons_of_mem _ hy)
    have hhead : p x = false := h x List.mem_cons_self
    simp [rposition, htail, hhead]

theorem rposition_append {p : α → Bool} {pre post : List α} {x : α} (hx : p x = true)
    (hpost : ∀ y ∈ post, p y = false)
    : rposition p (pre ++ x :: post) = some pre.length := by
  induction pre with
  | nil => simp [rposition, rposition_eq_none hpost, hx]
  | cons y pre ih => simp [rposition, ih]

theorem rposition_cases (p : α → Bool) (xs : List α)
    : rposition p xs = none ∧ (∀ x ∈ xs, p x = false) ∨
      ∃ pre x post, xs = pre ++ x :: post ∧ p x = true ∧ (∀ y ∈ post, p y = false) ∧
        rposition p xs = some pre.length := by
  induction xs with
  | nil => exact .inl ⟨rfl, by simp⟩
  | cons x xs ih =>
    rcases ih with ⟨hnone, hall⟩ | ⟨pre, y, post, rfl, hy, hpost, _⟩
    . cases hx : p x with
      | true => exact .inr ⟨[], x, xs, rfl, hx, hall, by simp [rposition, hnone, hx]⟩
      | false =>
        refine .inl ⟨by simp [rposition, hnone, hx], ?_⟩
        intro y hy
        rcases List.mem_cons.mp hy with rfl | hy
        . exact hx
        . exact hall y hy
    . have hlast : rposition p (x :: pre ++ y :: post) = some (x :: pre).length := rposition_append hy hpost
      exact .inr ⟨x :: pre, y, post, rfl, hy, hpost, hlast⟩

section Trim

variable {p : α → Bool} {xs : List α}

theorem trim_sublist (p : α → Bool) (xs : List α) : (trim p xs).Sublist xs :=
  (List.rdropWhile_prefix p _).sublist.trans (List.dropWhile_sublist p)

theorem mem_of_mem_trim {x : α} (h : x ∈ trim p xs) : x ∈ xs := (trim_sublist p xs).subset h

theorem filter_trim (p : α → Bool) (xs : List α) : (trim p xs).filter (fun x => !p x) = xs.filter fun x => !p x := by
  have hleft : (xs.takeWhile p).filter (fun x => !p x) = [] := by
    apply List.filter_eq_nil_iff.mpr
    intro x hx
    simp [List.mem_takeWhile_imp hx]
  have hright : ((xs.dropWhile p).rtakeWhile p).filter (fun x => !p x) = [] := by
    apply List.filter_eq_nil_iff.mpr
    intro x hx
    simp [List.mem_rtakeWhile_imp hx]
  have hcut : (xs.dropWhile p).filter (fun x => !p x) = (trim p xs).filter fun x => !p x := by
    conv => lhs; rw [← List.rdropWhile_append_rtakeWhile (p := p) (l := xs.dropWhile p), List.filter_append, hright]
    simp [trim]
  conv => rhs; rw [← List.takeWhile_append_dropWhile (p := p) (l := xs), List.filter_append, hleft, hcut]
  rfl

theorem mem_trim {x : α} (h : x ∈ xs) (hx : p x = false) : x ∈ trim p xs := by
  have hmem : x ∈ xs.filter fun x => !p x := List.mem_filter.mpr ⟨h, by simp [hx]⟩
  rw [← filter_trim] at hmem
  exact (List.mem_filter.mp hmem).1

theorem dropWhile_of_prefix {ys : List α} (h : ys <+: xs.dropWhile p) : ys.dropWhile p = ys := by
  cases ys with
  | nil => rfl
  | cons y ys =>
    rcases h with ⟨zs, hzs⟩
    have hy : p y = false := by
      have hhead := List.head?_dropWhile_not p xs
      rw [← hzs] at hhead
      simpa using hhead
    rw [List.dropWhile_cons_of_neg (by simp [hy])]

theorem trim_trim (p : α → Bool) (xs : List α) : trim p (trim p xs) = trim p xs := by
  have hhead : (trim p xs).dropWhile p = trim p xs := dropWhile_of_prefix (List.rdropWhile_prefix p _)
  rw [trim, hhead]
  exact List.rdropWhile_idempotent p _

theorem trim_ne_singleton {x : α} (h : p x = true) : trim p xs ≠ [x] := by
  intro htrim
  have hself := trim_trim p xs
  rw [htrim, trim, List.dropWhile_cons_of_pos h] at hself
  cases hself

theorem trim_cons_of_pos {x : α} (h : p x = true) : trim p (x :: xs) = trim p xs := by
  rw [trim, List.dropWhile_cons_of_pos h, trim]

end Trim

section Join

variable {sep : α} {lines lines' : List (List α)}

theorem not_mem_of_mem_splitOn [BEq α] [LawfulBEq α] {text line : List α} (h : line ∈ text.splitOn sep) : sep ∉ line := by
  induction text generalizing line with
  | nil =>
    rw [List.splitOn_nil, List.mem_singleton] at h
    simp [h]
  | cons x text ih =>
    rw [List.splitOn_cons_eq_if_modifyHead] at h
    cases hsplit : text.splitOn sep with
    | nil => exact absurd hsplit (List.splitOn_ne_nil sep text)
    | cons first rest =>
      rw [hsplit] at h ih
      split at h
      next =>
        rcases List.mem_cons.mp h with rfl | h
        . simp
        . exact ih h
      next hx =>
        rcases List.mem_cons.mp h with rfl | h
        . have hfirst := ih List.mem_cons_self
          have hne : sep ≠ x := fun heq => hx (beq_iff_eq.mpr heq.symm)
          simp [hne, hfirst]
        . exact ih (List.mem_cons_of_mem _ h)

theorem splitOn_join [BEq α] [LawfulBEq α] (hlines : ∀ line ∈ lines, sep ∉ line) (hne : lines ≠ [])
    : (join sep lines).splitOn sep = lines := List.splitOn_intercalate sep hlines hne

theorem mem_join {x : α} (h : x ∈ join sep lines) : x = sep ∨ ∃ line ∈ lines, x ∈ line := by
  unfold join at h
  induction lines with
  | nil => cases h
  | cons line lines ih =>
    cases lines with
    | nil =>
      rw [List.intercalate_singleton] at h
      exact .inr ⟨line, List.mem_cons_self, h⟩
    | cons next lines =>
      rw [List.intercalate_cons_cons, List.append_assoc, List.mem_append, List.mem_append] at h
      rcases h with hline | hsep | hrest
      . exact .inr ⟨line, List.mem_cons_self, hline⟩
      . exact .inl (List.mem_singleton.mp hsep)
      . rcases ih hrest with heq | ⟨other, hother, hx⟩
        . exact .inl heq
        . exact .inr ⟨other, List.mem_cons_of_mem _ hother, hx⟩

theorem join_append {sep : α} {lines lines' : List (List α)} (h : lines ≠ []) (h' : lines' ≠ [])
    : join sep (lines ++ lines') = join sep lines ++ [sep] ++ join sep lines' := by
  unfold join
  induction lines with
  | nil => exact absurd rfl h
  | cons line lines ih =>
    cases lines with
    | nil => rw [List.singleton_append, List.intercalate_cons_of_ne_nil h', List.intercalate_singleton]
    | cons next lines =>
      rw [List.cons_append, List.cons_append, List.intercalate_cons_cons, ← List.cons_append, ih (List.cons_ne_nil _ _),
        List.intercalate_cons_cons]
      simp only [List.append_assoc]

-- Joined by the same separator, the parts of a text may be texts that are joined.
theorem join_flatten {sep : α} {groups : List (List (List α))} (h : ∀ lines ∈ groups, lines ≠ [])
    : join sep (groups.map (join sep)) = join sep groups.flatten := by
  induction groups with
  | nil => rfl
  | cons lines groups ih =>
    have ih := ih fun other hother => h other (List.mem_cons_of_mem lines hother)
    cases groups with
    | nil => rw [List.map_singleton, List.flatten_singleton, join, List.intercalate_singleton]
    | cons next groups =>
      have hrest : (next :: groups).flatten ≠ [] := by
        intro hnil
        exact h next (by simp) (List.flatten_eq_nil_iff.mp hnil next List.mem_cons_self)
      rw [List.flatten_cons, join_append (h lines List.mem_cons_self) hrest, ← ih]
      exact List.intercalate_cons_cons

theorem join_inj [BEq α] [LawfulBEq α] (h : join sep lines = join sep lines') (hlines : ∀ line ∈ lines, sep ∉ line)
    (hlines' : ∀ line ∈ lines', sep ∉ line) (hne : lines ≠ [[]]) (hne' : lines' ≠ [[]])
    : lines = lines' := by
  have hnil : (join sep []).splitOn sep = [[]] := List.splitOn_nil sep
  have hsplit := congrArg (List.splitOn sep) h
  by_cases hempty : lines = []
  . by_cases hempty' : lines' = []
    . rw [hempty, hempty']
    . rw [hempty, hnil, splitOn_join hlines' hempty'] at hsplit
      exact absurd hsplit.symm hne'
  . rw [splitOn_join hlines hempty] at hsplit
    by_cases hempty' : lines' = []
    . rw [hempty', hnil] at hsplit
      exact absurd hsplit hne
    . rwa [splitOn_join hlines' hempty'] at hsplit

theorem weight_cons (line : List α) (lines : List (List α)) : weight (line :: lines) = line.length + 1 + weight lines := by
  simp [weight]

theorem weight_append (lines lines' : List (List α)) : weight (lines ++ lines') = weight lines + weight lines' := by
  simp [weight]

theorem weight_sublist (h : lines.Sublist lines') : weight lines ≤ weight lines' := by
  induction h with
  | slnil => exact Nat.le_refl _
  | cons line _ ih =>
    rw [weight_cons]
    omega
  | cons_cons line _ ih =>
    rw [weight_cons, weight_cons]
    omega

-- A filter that lengthens no line, over a line it drops or shortens.
theorem weight_filterMap_le {f : List α → Option (List α)} (hf : ∀ line kept, f line = some kept → kept.length ≤ line.length)
    : weight (lines.filterMap f) ≤ weight lines := by
  induction lines with
  | nil => exact Nat.le_refl _
  | cons line lines ih =>
    rw [List.filterMap_cons, weight_cons]
    split
    next => omega
    next kept hkept =>
      have hlen := hf line kept hkept
      rw [weight_cons]
      omega

theorem weight_filterMap_lt {f : List α → Option (List α)} (hf : ∀ line kept, f line = some kept → kept.length ≤ line.length)
    {line : List α} (hmem : line ∈ lines) (hline : ∀ kept, f line = some kept → kept.length < line.length)
    : weight (lines.filterMap f) < weight lines := by
  rcases List.append_of_mem hmem with ⟨pre, post, rfl⟩
  have hpre : weight (pre.filterMap f) ≤ weight pre := weight_filterMap_le hf
  have hpost : weight (post.filterMap f) ≤ weight post := weight_filterMap_le hf
  rw [List.filterMap_append, List.filterMap_cons, weight_append, weight_append, weight_cons]
  split
  next => omega
  next kept hkept =>
    have hlen := hline kept hkept
    rw [weight_cons]
    omega

end Join

section Rows

variable [DecidableEq α] {nl cr : α} {line text : List α}

theorem chomp_of_ne (h : line.getLast? ≠ some cr) : chomp cr line = line := if_neg h

theorem rowsOf_cons {parts : List (List α)} (h : parts ≠ []) : rowsOf cr (line :: parts) = chomp cr line :: rowsOf cr parts := by
  cases parts with
  | nil => exact absurd rfl h
  | cons next rest => rfl

theorem chomp_prefix (cr : α) (line : List α) : chomp cr line <+: line := by
  unfold chomp
  split
  . exact List.dropLast_prefix line
  . exact List.prefix_refl line

theorem mem_rowsOf {parts : List (List α)} (h : line ∈ rowsOf cr parts) : ∃ part ∈ parts, line <+: part := by
  induction parts with
  | nil => cases h
  | cons part parts ih =>
    cases parts with
    | nil =>
      rw [rowsOf] at h
      split at h
      . cases h
      . obtain rfl := List.mem_singleton.mp h
        exact ⟨line, List.mem_cons_self, List.prefix_refl line⟩
    | cons next parts =>
      rw [rowsOf_cons (List.cons_ne_nil next parts)] at h
      rcases List.mem_cons.mp h with rfl | h
      . exact ⟨part, List.mem_cons_self, chomp_prefix cr part⟩
      . rcases ih h with ⟨other, hother, hpre⟩
        exact ⟨other, List.mem_cons_of_mem _ hother, hpre⟩

theorem not_mem_of_mem_rows (h : line ∈ rows nl cr text) : nl ∉ line := by
  rcases mem_rowsOf h with ⟨part, hpart, hpre⟩
  exact fun hmem => not_mem_of_mem_splitOn hpart (hpre.subset hmem)

theorem rows_append_cons (h : nl ∉ line) (text : List α) : rows nl cr (line ++ nl :: text) = chomp cr line :: rows nl cr text := by
  rw [rows, List.splitOn_append_cons_self_of_not_mem h, rowsOf_cons (List.splitOn_ne_nil nl text), rows]

theorem rows_of_not_mem (h : nl ∉ line) (hne : line ≠ []) : rows nl cr line = [line] := by
  rw [rows, List.splitOn_eq_singleton h, rowsOf, if_neg hne]

theorem rows_flatMap {lines : List (List α)} (hlines : ∀ line ∈ lines, nl ∉ line ∧ line.getLast? ≠ some cr)
    : rows nl cr (lines.flatMap (· ++ [nl])) = lines := by
  induction lines with
  | nil => rfl
  | cons line lines ih =>
    have hline := hlines line List.mem_cons_self
    rw [List.flatMap_cons, List.append_assoc, List.singleton_append, rows_append_cons hline.1, chomp_of_ne hline.2,
      ih fun other hother => hlines other (List.mem_cons_of_mem _ hother)]

theorem rows_flatMap_chomp {lines : List (List α)} (hlines : ∀ line ∈ lines, nl ∉ line)
    : rows nl cr (lines.flatMap (· ++ [nl])) = lines.map (chomp cr) := by
  induction lines with
  | nil => rfl
  | cons line lines ih =>
    rw [List.flatMap_cons, List.append_assoc, List.singleton_append, rows_append_cons (hlines line List.mem_cons_self),
      ih fun other hother => hlines other (List.mem_cons_of_mem _ hother), List.map_cons]

omit [DecidableEq α] in
theorem prefix_of_prefix_append_cons {sep : List α} (h : sep <+: line ++ nl :: text) (hnl : nl ∉ sep) : sep <+: line := by
  rcases List.prefix_or_prefix_of_prefix h (List.prefix_append line (nl :: text)) with hsep | ⟨rest, rfl⟩
  . exact hsep
  . have hrest : rest <+: nl :: text := (List.prefix_append_right_inj line).mp h
    cases rest with
    | nil => simp
    | cons x rest =>
      rw [List.cons_prefix_cons] at hrest
      exact absurd (by simp [hrest.1]) hnl

theorem filter_rowsOf {parts : List (List α)} (h : ∀ part ∈ parts, part.getLast? ≠ some cr)
    : (rowsOf cr parts).filter (· ≠ []) = parts.filter (· ≠ []) := by
  induction parts with
  | nil => rfl
  | cons part parts ih =>
    cases parts with
    | nil =>
      rw [rowsOf]
      split <;> simp [*]
    | cons next parts =>
      have hrest := ih fun other hother => h other (List.mem_cons_of_mem _ hother)
      rw [rowsOf_cons (List.cons_ne_nil next parts), chomp_of_ne (h part List.mem_cons_self)]
      simp only [List.filter_cons (x := part), hrest]

omit [DecidableEq α] in
theorem flatMap_splitOn [BEq α] [LawfulBEq α] (nl : α) (text : List α)
    : (text.splitOn nl).flatMap (· ++ [nl]) = text ++ [nl] := by
  induction text with
  | nil => rfl
  | cons x text ih =>
    rw [List.splitOn_cons_eq_if_modifyHead]
    split
    next heq =>
      rw [List.flatMap_cons, ih, eq_of_beq heq]
      rfl
    next =>
      cases hsplit : text.splitOn nl with
      | nil => exact absurd hsplit (List.splitOn_ne_nil nl text)
      | cons line lines =>
        rw [hsplit, List.flatMap_cons] at ih
        rw [List.modifyHead_cons, List.flatMap_cons, List.cons_append, List.cons_append, ih]
        rfl

-- Wherever a text is cut off.
theorem torn_rows {lines : List (List α)} (h : text <+: lines.flatMap (· ++ [nl]))
    (hlines : ∀ line ∈ lines, nl ∉ line ∧ line.getLast? ≠ some cr)
    : Torn (rows nl cr text) lines := by
  induction lines generalizing text with
  | nil =>
    rw [List.prefix_nil.mp h]
    exact .nil
  | cons line lines ih =>
    have hline := hlines line List.mem_cons_self
    rw [List.flatMap_cons, List.append_assoc, List.singleton_append] at h
    rcases List.prefix_or_prefix_of_prefix h (List.prefix_append line _) with hshort | ⟨rest, rfl⟩
    . have hnl : nl ∉ text := fun hmem => hline.1 (hshort.subset hmem)
      by_cases hnil : text = []
      . rw [hnil]
        exact .nil
      . rw [rows_of_not_mem hnl hnil]
        exact .part hshort
    . rw [List.prefix_append_right_inj] at h
      cases rest with
      | nil =>
        rw [List.append_nil]
        by_cases hnil : line = []
        . rw [hnil]
          exact .nil
        . rw [rows_of_not_mem hline.1 hnil]
          exact .part (List.prefix_refl line)
      | cons x rest =>
        rw [List.cons_prefix_cons] at h
        rw [h.1, rows_append_cons hline.1, chomp_of_ne hline.2]
        exact .cons line (ih h.2 fun other hother => hlines other (List.mem_cons_of_mem _ hother))

omit [DecidableEq α] in
theorem Torn.append {torn lines lines' : List (List α)} (h : Torn torn (lines ++ lines'))
    : Torn torn lines ∨ ∃ rest, torn = lines ++ rest ∧ Torn rest lines' := by
  induction lines generalizing torn with
  | nil => exact .inr ⟨torn, rfl, h⟩
  | cons line lines ih =>
    cases h with
    | nil => exact .inl .nil
    | part hpart => exact .inl (.part hpart)
    | cons _ h =>
      rcases ih h with hleft | ⟨rest, rfl, hright⟩
      . exact .inl (.cons line hleft)
      . exact .inr ⟨rest, rfl, hright⟩

omit [DecidableEq α] in
theorem Torn.eq_of_singleton {torn : List (List α)} (h : Torn torn [line]) : torn = [] ∨ ∃ part, torn = [part] ∧ part <+: line := by
  cases h with
  | nil => exact .inl rfl
  | part hpart => exact .inr ⟨_, rfl, hpart⟩
  | cons _ h =>
    cases h
    exact .inr ⟨line, rfl, List.prefix_refl line⟩

-- A text is one line without an end, or a line with its end and a text.
theorem line_induction {motive : List α → Prop} (nl : α) (last : ∀ line, nl ∉ line → motive line)
    (line : ∀ line text, nl ∉ line → motive text → motive (line ++ nl :: text)) (text : List α)
    : motive text := by
  induction hlen : text.length using Nat.strongRecOn generalizing text with
  | ind n ih =>
    subst hlen
    by_cases hmem : nl ∈ text
    . rcases List.append_of_mem hmem with ⟨pre, post, rfl⟩
      rcases List.eq_append_cons_of_mem hmem with ⟨first, rest, heq, hfirst⟩
      rw [heq]
      refine line first rest hfirst (ih rest.length ?_ rest rfl)
      rw [heq]
      simp
      omega
    . exact last text hmem

end Rows

section Cut

variable [DecidableEq α] {x : α} {sep text head tail : List α}

theorem cut_of_front (h : sep <+: text) : cut sep text = some ([], text.drop sep.length) := by
  cases text with
  | nil =>
    rw [List.prefix_nil.mp h]
    rfl
  | cons y text => rw [cut, if_pos (List.isPrefixOf_iff_prefix.mpr h)]

theorem cut_cons (h : ¬sep <+: x :: text) : cut sep (x :: text) = (cut sep text).map fun parts => (x :: parts.1, parts.2) := by
  rw [cut, if_neg fun hpre => h (List.isPrefixOf_iff_prefix.mp hpre)]

theorem append_of_cut (h : cut sep text = some (head, tail)) : text = head ++ sep ++ tail := by
  induction text generalizing head with
  | nil =>
    rw [cut] at h
    split at h
    next hnil =>
      cases h
      rw [hnil]
      rfl
    next => cases h
  | cons y text ih =>
    by_cases hpre : sep <+: y :: text
    . rw [cut_of_front hpre] at h
      cases h
      exact (List.prefix_iff_eq_append.mp hpre).symm
    . rw [cut_cons hpre, Option.map_eq_some_iff] at h
      rcases h with ⟨⟨head', tail'⟩, hcut, heq⟩
      cases heq
      conv => lhs; rw [ih hcut]
      rfl

theorem cut_eq_none_iff : cut sep text = none ↔ ¬sep <:+: text := by
  induction text with
  | nil =>
    rw [cut, List.infix_nil]
    split <;> simp [*]
  | cons y text ih =>
    by_cases hpre : sep <+: y :: text
    . simp [cut_of_front hpre, hpre.isInfix]
    . rw [cut_cons hpre, Option.map_eq_none_iff, ih, List.infix_cons_iff, not_or]
      exact (and_iff_right hpre).symm

theorem cut_append (h : x ∉ head) (sep tail : List α) : cut (x :: sep) (head ++ x :: sep ++ tail) = some (head, tail) := by
  induction head with
  | nil =>
    have hpre : x :: sep <+: x :: sep ++ tail := List.prefix_append _ _
    rw [List.nil_append, cut_of_front hpre, List.drop_left]
  | cons y head ih =>
    rw [List.mem_cons, not_or] at h
    have hpre : ¬x :: sep <+: y :: (head ++ x :: sep ++ tail) := by
      intro hpre
      exact h.1 (List.cons_prefix_cons.mp hpre).1
    rw [List.cons_append, List.cons_append, cut_cons hpre, ih h.2]
    rfl

theorem cut_length_le {pre post : List α} (h : cut sep (pre ++ sep ++ post) = some (head, tail)) : head.length ≤ pre.length := by
  induction pre generalizing head with
  | nil =>
    rw [List.nil_append, cut_of_front (List.prefix_append sep post)] at h
    cases h
    exact Nat.le_refl _
  | cons y pre ih =>
    by_cases hpre : sep <+: y :: pre ++ sep ++ post
    . rw [cut_of_front hpre] at h
      cases h
      exact Nat.zero_le _
    . rw [List.cons_append, List.cons_append, cut_cons (by simpa using hpre), Option.map_eq_some_iff] at h
      rcases h with ⟨⟨head', tail'⟩, hcut, heq⟩
      cases heq
      exact Nat.succ_le_succ (ih hcut)

-- A separator that does not overlap itself.
theorem cut_append_of_not_infix (hx : x ∉ sep) (h : ¬x :: sep <:+: head) (tail : List α)
    : cut (x :: sep) (head ++ x :: sep ++ tail) = some (head, tail) := by
  induction head with
  | nil =>
    have hpre : x :: sep <+: x :: sep ++ tail := List.prefix_append _ _
    rw [List.nil_append, cut_of_front hpre, List.drop_left]
  | cons y head ih =>
    rw [List.infix_cons_iff, not_or] at h
    have hpre : ¬x :: sep <+: y :: (head ++ x :: sep ++ tail) := by
      intro hpre
      have hhead : y :: head <+: y :: (head ++ x :: sep ++ tail) := by simp
      rcases List.prefix_or_prefix_of_prefix hpre hhead with hshort | hlong
      . exact h.1 hshort
      . rcases hlong with ⟨rest, hrest⟩
        cases rest with
        | nil =>
          rw [List.append_nil] at hrest
          exact h.1 (hrest ▸ List.prefix_refl _)
        | cons z rest =>
          have happ : y :: head ++ z :: rest <+: y :: head ++ (x :: sep ++ tail) := by
            rw [hrest]
            simpa using hpre
          have hz : z = x := (List.cons_prefix_cons.mp ((List.prefix_append_right_inj (y :: head)).mp happ)).1
          rw [List.cons_append, List.cons.injEq] at hrest
          exact hx (by rw [← hrest.2, hz]; simp)
    rw [List.cons_append, List.cons_append, cut_cons hpre, ih h.2]
    rfl

theorem not_infix_of_cut (hsep : sep ≠ []) (h : cut sep text = some (head, tail)) : ¬sep <:+: head := by
  rintro ⟨pre, post, hinside⟩
  have htext : text = pre ++ sep ++ (post ++ sep ++ tail) := by
    rw [append_of_cut h, ← hinside]
    simp
  have hle := cut_length_le (htext ▸ h)
  have hpos := List.length_pos_of_ne_nil hsep
  rw [← hinside] at hle
  simp only [List.length_append] at hle
  omega

end Cut

section Chunks

variable {chunks : List (List α)} {x : α} {pre post : List α}

-- The chunk that an element of a stream is in.
theorem chunk_of_flatten_eq (h : chunks.flatten = pre ++ x :: post)
    : ∃ before a b after, chunks = before ++ (a ++ x :: b) :: after ∧ before.flatten ++ a = pre ∧ b ++ after.flatten = post := by
  rcases List.flatten_eq_append_iff.mp h with ⟨before, rest, rfl, rfl, hrest⟩ | ⟨before, a, c, b, after, rfl, hpre, hrest⟩
  . rcases List.cons_eq_flatten_iff.mp hrest with ⟨empty, b, after, rfl, hempty, rfl⟩
    refine ⟨before ++ empty, [], b, after, by simp, ?_, rfl⟩
    rw [List.flatten_append, List.flatten_eq_nil_iff.mpr hempty, List.append_nil, List.append_nil]
  . rw [List.cons_append, List.cons.injEq] at hrest
    rcases hrest with ⟨rfl, rfl⟩
    exact ⟨before, a, b, after, rfl, hpre.symm, rfl⟩

end Chunks

end Lines

abbrev Text := List Char

namespace Text

-- So that every definition that looks for a text in a list names the same proof.
instance lawfulBEq : LawfulBEq Text := inferInstance

def rsplitOnce (text : Text) : Option (Text × Text) :=
  match Lines.cut [':', ':'] text.reverse with
  | none => none
  | some (head, tail) => some (tail.reverse, head.reverse)

def beneath (root text : Text) : Bool :=
  match text.dropPrefix? root with
  | none => false
  | some rest => [':', ':'].isPrefixOf rest

theorem append_of_rsplitOnce {text parent last : Text} (h : rsplitOnce text = some (parent, last))
    : text = parent ++ ':' :: ':' :: last := by
  unfold rsplitOnce at h
  split at h
  next => simp at h
  next head tail hsplit =>
    simp only [Option.some.injEq, Prod.mk.injEq] at h
    rcases h with ⟨rfl, rfl⟩
    have happ := Lines.append_of_cut hsplit
    have hrev := congrArg List.reverse happ
    simpa using hrev

theorem length_of_rsplitOnce {text parent last : Text} (h : rsplitOnce text = some (parent, last))
    : parent.length < text.length := by
  rw [append_of_rsplitOnce h]
  simp

-- What is left of a path as its last segments are taken off, the longest first.
def ancestors (text : Text) : List Text :=
  match _hsplit : rsplitOnce text with
  | none => []
  | some (parent, _) => parent :: ancestors parent
termination_by text.length
decreasing_by exact length_of_rsplitOnce _hsplit

def lineage (text : Text) : List Text := text :: ancestors text

theorem ancestors_of_none {text : Text} (h : rsplitOnce text = none) : ancestors text = [] := by
  unfold ancestors
  split
  next => rfl
  next hsome => simp [h] at hsome

theorem ancestors_of_some {text parent last : Text} (h : rsplitOnce text = some (parent, last))
    : ancestors text = lineage parent := by
  conv => lhs; unfold ancestors
  split
  next hnone => simp [h] at hnone
  next hsome =>
    rw [h] at hsome
    cases hsome
    rfl

theorem beneath_iff {root text : Text} : beneath root text = true ↔ ∃ rest, text = root ++ ':' :: ':' :: rest := by
  constructor
  . intro h
    unfold beneath at h
    split at h
    next => simp at h
    next rest hdrop =>
      rcases List.dropPrefix?_eq_some_iff.mp hdrop with ⟨root', happ, heq⟩
      rw [beq_iff_eq] at heq
      rcases List.isPrefixOf_iff_prefix.mp h with ⟨rest', rfl⟩
      exact ⟨rest', by rw [happ, heq]; rfl⟩
  . rintro ⟨rest, rfl⟩
    have hdrop : (root ++ ':' :: ':' :: rest).dropPrefix? root = some (':' :: ':' :: rest) :=
      List.dropPrefix?_eq_some_iff.mpr ⟨root, rfl, beq_self_eq_true root⟩
    simp [beneath, hdrop]

end Text
